import RemoteVfs.Pages.Calls

namespace RemoteVfs.Pages

open Base Base.Prog

variable {τ : Type}

-- The bytes written since the last commit that no truncation has cut off, by their position
-- in the file.
abbrev Journal := Nat → Option UInt8

namespace Journal

def empty : Journal := fun _ => none

def write (journal : Journal) (offset : Nat) (data : Bytes) : Journal := fun p =>
  if offset ≤ p ∧ p < offset + data.length then data[p - offset]? else journal p

-- A truncation cuts off whole blocks.
def truncate (unit : Nat) (journal : Journal) (size : Nat) : Journal := fun p =>
  if p / unit < divCeil size unit then journal p else none

-- What a call adds or takes away. A write that fails has written some first part of its data.
def Step (unit : Nat) (journal : Journal) (call : Call) (o : Outcome Broken Answer)
    (next : Journal) : Prop :=
  match call with
  | .Write offset data => ∃ part, next = journal.write offset (data.take part) ∧
      ∀ value, o = .ok value → data.length ≤ part
  | .Truncate size => next = journal.truncate unit size
  | .Committed | .Emptied _ => next = empty
  | .Keep _ _ | .Read _ _ | .MakeRoom _ => next = journal

def Run (unit : Nat) : Journal → List (Call × Outcome Broken Answer) → Journal → Prop
  | journal, [], last => last = journal
  | journal, (call, o) :: rest, last => ∃ next, Step unit journal call o next ∧ Run unit next rest last

theorem write_inside (journal : Journal) {offset p : Nat} {data : Bytes} (hlo : offset ≤ p)
    (hhi : p < offset + data.length) : journal.write offset data p = data[p - offset]? :=
  if_pos ⟨hlo, hhi⟩

theorem write_outside (journal : Journal) {offset p : Nat} {data : Bytes}
    (h : ¬(offset ≤ p ∧ p < offset + data.length)) : journal.write offset data p = journal p :=
  if_neg h

theorem write_nil (journal : Journal) (offset : Nat) : journal.write offset [] = journal := by
  funext p
  exact write_outside journal (by simp only [List.length_nil]; omega)

-- A write in two parts.
theorem write_take_add (journal : Journal) (offset : Nat) (data : Bytes) (done n : Nat) :
    journal.write offset (data.take (done + n)) =
      (journal.write offset (data.take done)).write (offset + done) ((data.drop done).take n) := by
  funext p
  have hall : (data.take (done + n)).length = min (done + n) data.length := List.length_take
  have hfirst : (data.take done).length = min done data.length := List.length_take
  have hnext : ((data.drop done).take n).length = min n (data.length - done) := by
    rw [List.length_take, List.length_drop]
  by_cases hin : offset ≤ p ∧ p < offset + min (done + n) data.length
  · rw [write_inside _ hin.1 (by omega), List.getElem?_take, if_pos (by omega)]
    by_cases hlo : offset + done ≤ p
    · rw [write_inside _ hlo (by omega), List.getElem?_take, if_pos (by omega), List.getElem?_drop]
      congr 1
      omega
    · rw [write_outside _ (by omega), write_inside _ hin.1 (by omega), List.getElem?_take,
        if_pos (by omega)]
  · rw [write_outside _ (by omega), write_outside _ (by omega), write_outside _ (by omega)]

end Journal

theorem getElem?_overlay (data chunk : Bytes) (within k : Nat)
    (h : within + chunk.length ≤ data.length) :
    (overlay data within chunk)[k]? =
      if within ≤ k ∧ k < within + chunk.length then chunk[k - within]? else data[k]? := by
  have hw : (data.take within).length = within := by rw [List.length_take]; omega
  unfold overlay
  by_cases hlo : k < within
  · rw [if_neg (by omega), List.getElem?_append_left (by rw [List.length_append]; omega),
      List.getElem?_append_left (by omega), List.getElem?_take, if_pos hlo]
  · by_cases hhi : k < within + chunk.length
    · rw [if_pos ⟨by omega, hhi⟩, List.getElem?_append_left (by rw [List.length_append]; omega),
        List.getElem?_append_right (by omega), hw]
    · rw [if_neg (by omega), List.getElem?_append_right (by rw [List.length_append]; omega),
        List.getElem?_drop, List.length_append, hw]
      congr 1
      omega

-- The dirty blocks hold the journal.
structure Uncommitted (unit : Nat) (journal : Journal) (pages : Pages) : Prop where
  size : pages.pageSize = unit
  held : ∀ i ∈ pages.dirty, pages.block i ≠ none ∧ i < pages.pageCount
  dirty : ∀ i, i ∈ pages.dirty ↔ ∃ p, p / unit = i ∧ journal p ≠ none
  bytes : ∀ p byte, journal p = some byte →
    ∃ data, pages.block (p / unit) = some data ∧ data[p % unit]? = some byte

namespace Uncommitted

variable {unit : Nat} {journal : Journal} {pages after : Pages}

theorem start (hclean : pages.dirty = .empty) : Uncommitted pages.pageSize .empty pages where
  size := rfl
  held i hi := by
    rw [hclean] at hi
    exact absurd hi (SortedSet.notMem_empty i)
  dirty i := by
    rw [hclean]
    exact ⟨fun hi => absurd hi (SortedSet.notMem_empty i), fun ⟨_, _, hp⟩ => absurd rfl hp⟩
  bytes p byte hp := by cases hp

theorem spares (h : Uncommitted unit journal pages) (hs : Spares pages after) :
    Uncommitted unit journal after where
  size := hs.pageSize.trans h.size
  held i hi := by
    rw [hs.dirty] at hi
    obtain ⟨hheld, hbelow⟩ := h.held i hi
    rw [hs.block i hi hheld, hs.pageCount]
    exact ⟨hheld, hbelow⟩
  dirty i := by rw [hs.dirty]; exact h.dirty i
  bytes p byte hp := by
    obtain ⟨data, hdata, hbyte⟩ := h.bytes p byte hp
    have hin : p / unit ∈ pages.dirty := (h.dirty _).mpr ⟨p, rfl, by rw [hp]; simp⟩
    exact ⟨data, by rw [hs.block _ hin (by rw [hdata]; simp), hdata], hbyte⟩

-- The positions of a chunk that lies inside one block.
theorem mem_chunk {position within n p : Nat} (hwithin : within = position % unit)
    (hpos : 0 < unit) (hfits : within + n ≤ unit) (hlo : position ≤ p) (hhi : p < position + n) :
    p / unit = position / unit ∧ p % unit = within + (p - position) := by
  have hdiv := Nat.div_add_mod position unit
  have hp : p = unit * (position / unit) + (within + (p - position)) := by omega
  have hlt : within + (p - position) < unit := by omega
  constructor
  · rw [hp, Nat.mul_add_div hpos, Nat.div_eq_of_lt hlt, Nat.add_zero]
  · conv_lhs => rw [hp]
    rw [Nat.mul_add_mod, Nat.mod_eq_of_lt hlt]

theorem put (h : Uncommitted unit journal pages) (hpos : 0 < unit) {position : Nat} {chunk : Bytes}
    (hchunk : chunk ≠ []) (hfits : position % unit + chunk.length ≤ unit)
    (hblock : ∀ data, pages.block (position / unit) = some data →
      position % unit + chunk.length ≤ data.length) :
    Uncommitted unit (journal.write position chunk)
      (pages.put (position / unit) (position % unit) chunk) where
  size := h.size
  held i hi := by
    rw [block_put, pageCount_put]
    rcases SortedSet.mem_insert.mp hi with rfl | hi
    · exact ⟨by simp, by omega⟩
    · obtain ⟨hheld, hbelow⟩ := h.held i hi
      refine ⟨?_, by omega⟩
      split_ifs
      · simp
      · exact hheld
  dirty i := by
    have hlen := List.length_pos_of_ne_nil hchunk
    refine SortedSet.mem_insert.trans ⟨?_, ?_⟩
    · rintro (rfl | hi)
      · refine ⟨position, rfl, ?_⟩
        rw [Journal.write, if_pos ⟨le_refl _, by omega⟩, Nat.sub_self]
        exact fun hnone => absurd (List.getElem?_eq_none_iff.mp hnone) (by omega)
      · obtain ⟨p, hp, hsome⟩ := (h.dirty i).mp hi
        refine ⟨p, hp, ?_⟩
        unfold Journal.write
        split_ifs with hin
        · exact fun hnone => absurd (List.getElem?_eq_none_iff.mp hnone) (by omega)
        · exact hsome
    · rintro ⟨p, rfl, hsome⟩
      unfold Journal.write at hsome
      split_ifs at hsome with hin
      · exact Or.inl (mem_chunk rfl hpos hfits hin.1 hin.2).1
      · exact Or.inr ((h.dirty _).mpr ⟨p, rfl, hsome⟩)
  bytes p byte hp := by
    rw [block_put]
    set base := (pages.block (position / unit)).getD (zeros pages.pageSize) with hbase
    have hlen : position % unit + chunk.length ≤ base.length := by
      rw [hbase]
      cases hheld : pages.block (position / unit) with
      | none =>
          rw [Option.getD_none, length_zeros, h.size]
          exact hfits
      | some data => exact hblock data hheld
    unfold Journal.write at hp
    split_ifs at hp with hin
    · obtain ⟨hdiv, hmod⟩ := mem_chunk rfl hpos hfits hin.1 hin.2
      refine ⟨_, if_pos hdiv, ?_⟩
      rw [getElem?_overlay _ _ _ _ hlen, if_pos ⟨by omega, by omega⟩, hmod, Nat.add_sub_cancel_left]
      exact hp
    · obtain ⟨data, hdata, hbyte⟩ := h.bytes p byte hp
      by_cases hsame : p / unit = position / unit
      · refine ⟨_, if_pos hsame, ?_⟩
        have hdataBase : base = data := by rw [hbase, ← hsame, hdata, Option.getD_some]
        -- Inside the written block, outside the chunk.
        have hout : ¬(position % unit ≤ p % unit ∧ p % unit < position % unit + chunk.length) := by
          have h1 := Nat.div_add_mod p unit
          have h2 := Nat.div_add_mod position unit
          rw [hsame] at h1
          omega
        rw [getElem?_overlay _ _ _ _ hlen, if_neg hout, hdataBase]
        exact hbyte
      · exact ⟨data, by rw [if_neg hsame]; exact hdata, hbyte⟩

theorem truncate (h : Uncommitted unit journal pages) (size : Nat) :
    Uncommitted unit (journal.truncate unit size) (pages.truncate size) := by
  have hmem : ∀ i, i ∈ (pages.truncate size).dirty ↔ i ∈ pages.dirty ∧ i < divCeil size unit := by
    intro i
    rw [mem_dirty_truncate_of_below size fun hi => (h.held i hi).2, h.size]
  refine ⟨(shape_truncate pages size).pageSize.trans h.size, fun i hi => ?_, fun i => ?_,
    fun p byte hp => ?_⟩
  · obtain ⟨hi, hlt⟩ := (hmem i).mp hi
    rw [pageCount_truncate, block_truncate_of_lt pages size (by rwa [h.size]), h.size]
    exact ⟨(h.held i hi).1, hlt⟩
  · refine (hmem i).trans ⟨?_, ?_⟩
    · rintro ⟨hi, hlt⟩
      obtain ⟨p, rfl, hp⟩ := (h.dirty i).mp hi
      exact ⟨p, rfl, by rwa [Journal.truncate, if_pos hlt]⟩
    · rintro ⟨p, rfl, hp⟩
      unfold Journal.truncate at hp
      split_ifs at hp with hlt
      · exact ⟨(h.dirty _).mpr ⟨p, rfl, hp⟩, hlt⟩
      · exact absurd rfl hp
  · unfold Journal.truncate at hp
    split_ifs at hp with hlt
    obtain ⟨data, hdata, hbyte⟩ := h.bytes p byte hp
    exact ⟨data, by rw [block_truncate_of_lt pages size (by rwa [h.size]), hdata], hbyte⟩

end Uncommitted

section Calls

variable {source : Source τ} {unit : Nat} {journal : Journal}

theorem ensureLoaded_uncommitted (hkeeps : source.OnlyKeeps) (index : Nat) :
    Triple (fun h => Uncommitted unit journal h.pages) (ensureLoaded source index)
      (Halts True (fun h => Uncommitted unit journal h.pages)
        fun _ h => Uncommitted unit journal h.pages) := by
  intro h hinv
  have hafter := hinv.spares (ensureLoaded_stays (stays_spares hkeeps) index h)
  cases (ensureLoaded source index h).1 with
  | ok _ => exact hafter
  | err _ => exact hafter
  | hang => exact ⟨trivial, hafter⟩

theorem place_uncommitted (hpos : 0 < unit) {position : Nat} {chunk : Bytes} (hchunk : chunk ≠ [])
    (hfits : position % unit + chunk.length ≤ unit) :
    Triple (fun h => Uncommitted unit journal h.pages)
      (place (position / unit) (position % unit) chunk : Prog (Held τ) Broken Unit)
      (Halts True (fun h => Uncommitted unit journal h.pages)
        fun _ h => Uncommitted unit (journal.write position chunk) h.pages) := by
  intro h hinv
  unfold place
  rw [gets_bind]
  by_cases hshort : (h.pages.block (position / unit)).any (·.length < position % unit + chunk.length)
  · rw [if_pos hshort]
    exact ⟨trivial, hinv⟩
  · rw [if_neg hshort]
    refine hinv.put hpos hchunk hfits fun data hdata => ?_
    simpa [hdata] using hshort

-- The write has come to `done`.
def Wrote (unit : Nat) (journal : Journal) (offset : Nat) (data : Bytes) (done : Nat)
    (h : Held τ) : Prop :=
  Uncommitted unit (journal.write offset (data.take done)) h.pages

theorem writeStep_uncommitted (hkeeps : source.OnlyKeeps) (offset : Nat) (data : Bytes) (done : Nat) :
    Triple (Wrote unit journal offset data done) (writeStep source offset data done)
      (Halts True (Wrote unit journal offset data done) (orDone (Wrote unit journal offset data)
        fun _ h => data.length ≤ done ∧ Wrote unit journal offset data done h)) := by
  intro h hinv
  unfold writeStep
  by_cases hdone : data.length ≤ done
  · rw [if_pos hdone]
    exact ⟨hdone, hinv⟩
  rw [if_neg hdone, gets_bind, hinv.size]
  by_cases hzero : unit = 0
  · rw [if_pos hzero]
    exact ⟨trivial, hinv⟩
  rw [if_neg hzero]
  have hpos : 0 < unit := Nat.pos_of_ne_zero hzero
  have hlt := Nat.mod_lt (offset + done) hpos
  set n := min (unit - (offset + done) % unit) (data.length - done) with hn
  have hlen : ((data.drop done).take n).length = n := by
    rw [List.length_take, List.length_drop]
    omega
  have hchunk : (data.drop done).take n ≠ [] := List.ne_nil_of_length_pos (by omega)
  have hplace : Triple (Wrote unit journal offset data done) (do
      place ((offset + done) / unit) ((offset + done) % unit) ((data.drop done).take n)
      return .inl (done + n) : Prog (Held τ) Broken (Nat ⊕ Unit))
      (Halts True (Wrote unit journal offset data done) (orDone (Wrote unit journal offset data)
        fun _ h => data.length ≤ done ∧ Wrote unit journal offset data done h)) := by
    refine Halts.bind (place_uncommitted hpos hchunk (by omega)) fun _ => Halts.pure fun h hwritten => ?_
    rw [← Journal.write_take_add] at hwritten
    exact hwritten
  split_ifs
  · exact Halts.bind (ensureLoaded_uncommitted hkeeps _) (fun _ => hplace) h hinv
  · exact hplace h hinv

-- What a write has done, however it ends.
theorem write_uncommitted (hkeeps : source.OnlyKeeps) (offset : Nat) (data : Bytes) :
    Triple (fun h => Uncommitted unit journal h.pages) (write source offset data)
      fun o h => ∃ part, Wrote unit journal offset data part h ∧
        ∀ value, o = .ok value → data.length ≤ part := by
  refine Triple.mono (Triple.loop (Wrote unit journal offset data) (fun o h => ∃ part,
      Wrote unit journal offset data part h ∧ ∀ value, o = .ok value → data.length ≤ part)
    (fun done => ?_) (fun done h hinv => ⟨done, hinv, by simp⟩) _ 0) (fun h hinv => ?_) fun _ _ h => h
  · refine (writeStep_uncommitted hkeeps offset data done).mono (fun _ h => h) fun o h hstep => ?_
    rcases o with (next | _) | _ | _
    · exact hstep
    · exact ⟨done, hstep.2, fun _ _ => hstep.1⟩
    · exact ⟨done, hstep, by simp⟩
    · exact ⟨done, hstep.2, by simp⟩
  · unfold Wrote
    rw [List.take_zero, Journal.write_nil]
    exact hinv

theorem call_uncommitted (hkeeps : source.OnlyKeeps) (call : Call) (h : Held τ)
    (hinv : Uncommitted unit journal h.pages) :
    ∃ next, Journal.Step unit journal call (call.run source h).1 next ∧
      Uncommitted unit next (call.run source h).2.pages := by
  cases call with
  | Keep index data => exact ⟨journal, rfl, hinv.spares (Spares.keep _ index data)⟩
  | Read offset length =>
      refine ⟨journal, rfl, ?_⟩
      have hread := read_stays (stays_spares hkeeps) offset length h
      rw [Call.run, bind_apply]
      generalize read source offset length h = run at hread ⊢
      rcases run with ⟨_ | _ | _, h'⟩ <;> exact hinv.spares hread
  | Write offset data =>
      have hwrite := write_uncommitted hkeeps offset data h hinv
      rw [Call.run, bind_apply]
      generalize write source offset data h = run at hwrite ⊢
      obtain ⟨part, hpart, hall⟩ := hwrite
      rcases run with ⟨_ | _ | _, h'⟩
      · exact ⟨_, ⟨part, rfl, fun _ _ => hall () rfl⟩, hpart⟩
      · exact ⟨_, ⟨part, rfl, by simp⟩, hpart⟩
      · exact ⟨_, ⟨part, rfl, by simp⟩, hpart⟩
  | Truncate size => exact ⟨_, rfl, hinv.truncate size⟩
  | Committed =>
      have hclean : h.pages.committed.2.dirty = .empty := rfl
      exact ⟨.empty, rfl, hinv.size ▸ Uncommitted.start hclean⟩
  | MakeRoom incoming => exact ⟨journal, rfl, hinv.spares (Spares.makeRoom _ incoming h.stats)⟩
  | Emptied pageCount =>
      have hclean : (h.pages.emptied pageCount).dirty = .empty := rfl
      exact ⟨.empty, rfl, hinv.size ▸ Uncommitted.start hclean⟩

theorem calls_uncommitted (hkeeps : source.OnlyKeeps) (calls : List Call) (h : Held τ)
    (hinv : Uncommitted unit journal h.pages) :
    ∃ last, Journal.Run unit journal (history source calls h) last ∧
      Uncommitted unit last (after source calls h).pages := by
  induction calls generalizing journal h with
  | nil => exact ⟨journal, rfl, hinv⟩
  | cons call rest ih =>
      obtain ⟨next, hstep, hnext⟩ := call_uncommitted hkeeps call h hinv
      obtain ⟨last, hrun, hlast⟩ := ih _ hnext
      exact ⟨last, ⟨next, hstep, hrun⟩, hlast⟩

end Calls

-- `dirty()` returns the journal: its blocks in ascending order, with its bytes in them.
structure Returned (journal : Journal) (pages : Pages) : Prop where
  ascending : (pages.dirtyBlocks.map Prod.fst).Pairwise (· < ·)
  blocks : ∀ i, i ∈ pages.dirtyBlocks.map Prod.fst ↔ ∃ p, p / pages.pageSize = i ∧ journal p ≠ none
  bytes : ∀ p byte, journal p = some byte →
    ∃ data, (p / pages.pageSize, data) ∈ pages.dirtyBlocks ∧ data[p % pages.pageSize]? = some byte

theorem Uncommitted.returned {unit : Nat} {journal : Journal} {pages : Pages}
    (h : Uncommitted unit journal pages) : Returned journal pages := by
  have hlist := map_fst_dirtyBlocks fun i hi => (h.held i hi).1
  have hunit := h.size
  subst hunit
  refine ⟨by rw [hlist]; exact pages.dirty.sorted, fun i => by rw [hlist]; exact h.dirty i, ?_⟩
  intro p byte hp
  obtain ⟨data, hdata, hbyte⟩ := h.bytes p byte hp
  have hin : p / pages.pageSize ∈ pages.dirty := (h.dirty _).mpr ⟨p, rfl, by rw [hp]; simp⟩
  exact ⟨data, List.mem_filterMap.mpr ⟨_, hin, by rw [hdata]; rfl⟩, hbyte⟩

-- What a caller sees of the uncommitted changes.
def uncommittedView (pages : Pages) : List (Nat × Bytes) × Nat × Nat × Bool :=
  (pages.dirtyBlocks, pages.pageCount, pages.stablePageCount, pages.isClean)

-- From any state without uncommitted changes, whatever the source stores and whenever it
-- fails, `dirty()` returns what was written, and reading changes nothing of it.
theorem uncommitted_writes_survive (source : Source τ) (hkeeps : source.OnlyKeeps) (h : Held τ)
    (hclean : h.pages.dirty = .empty) (calls : List Call) :
    (∃ journal, Journal.Run h.pages.pageSize .empty (history source calls h) journal ∧
      Returned journal (after source calls h).pages) ∧
    ∀ offset length, uncommittedView (read source offset length (after source calls h)).2.pages =
      uncommittedView (after source calls h).pages := by
  obtain ⟨journal, hrun, hlast⟩ := calls_uncommitted hkeeps calls h (Uncommitted.start hclean)
  refine ⟨⟨journal, hrun, hlast.returned⟩, fun offset length => ?_⟩
  have hread : Spares (after source calls h).pages _ :=
    read_stays (stays_spares hkeeps) offset length (after source calls h)
  unfold uncommittedView
  rw [hread.dirtyBlocks fun i hi => (hlast.held i hi).1, hread.pageCount, hread.stable, hread.isClean]

-- The second block of the write cannot be loaded, so only the first one is written.
theorem uncommitted_writes_survive_scatter :
    (after scatter [.Write 0 [1, 2, 3], .Read 4 2, .MakeRoom 4] scattered).pages.dirtyBlocks =
        [(0, [1, 2])] ∧
      ∃ journal, Journal.Run 2 .empty
        (history scatter [.Write 0 [1, 2, 3], .Read 4 2, .MakeRoom 4] scattered) journal ∧
        Returned journal (after scatter [.Write 0 [1, 2, 3], .Read 4 2, .MakeRoom 4] scattered).pages :=
  ⟨by decide +kernel, (uncommitted_writes_survive scatter (fun _ _ _ => ⟨_, rfl⟩) scattered rfl
    [.Write 0 [1, 2, 3], .Read 4 2, .MakeRoom 4]).1⟩

end RemoteVfs.Pages
