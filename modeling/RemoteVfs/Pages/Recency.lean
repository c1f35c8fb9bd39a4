import RemoteVfs.Pages.Calls
import RemoteVfs.Pages.Evict

namespace RemoteVfs.Pages

open Base Base.Prog

variable {τ : Type}

-- The changes of `Pages` that a call is made of.
inductive Event where
  | Touch (index : Nat)
  | Keep (index : Nat) (data : Bytes)
  | Put (index within : Nat) (chunk : Bytes)
  | MakeRoom (incoming : Nat)
  | Truncate (size : Nat)
  | Committed
  | Emptied (pageCount : Nat)
  deriving DecidableEq, Repr

namespace Event

def apply (pages : Pages) : Event → Pages
  | .Touch index => pages.touch index
  | .Keep index data => pages.keep index data
  | .Put index within chunk => pages.put index within chunk
  | .MakeRoom incoming => (pages.makeRoom incoming {}).1
  | .Truncate size => pages.truncate size
  | .Committed => pages.committed.2
  | .Emptied pageCount => pages.emptied pageCount

-- The block that is accessed: loaded, found in memory, or written.
def access (pages : Pages) : Event → Option Nat
  | .Touch index => if pages.block index = none then none else some index
  | .Keep index _ => if pages.block index = none then some index else none
  | .Put index _ _ => some index
  | _ => none

end Event

-- The pages and the accesses so far, the last one first.
def replay (events : List Event) (start : Pages × List Nat) : Pages × List Nat :=
  events.foldl (fun now event => (event.apply now.1, (event.access now.1).toList ++ now.2)) start

-- The blocks that hold `length` bytes from `offset` on.
def spanned (pageSize offset length : Nat) : List Nat :=
  if length = 0 then []
  else List.range' (offset / pageSize) ((offset + length - 1) / pageSize + 1 - offset / pageSize)

-- The blocks that a read looks up.
def readBlocks (pages : Pages) (offset length : Nat) : List Nat :=
  (spanned pages.pageSize offset length).filter (· < pages.pageCount)

-- The parts of the data that a write puts into the blocks, and where in each of them.
def chunksOf (pageSize offset : Nat) (data : Bytes) : List (Nat × Nat × Bytes) :=
  (spanned pageSize offset data.length).map fun index =>
    let within := offset - index * pageSize
    (index, within, (data.drop (index * pageSize - offset)).take (pageSize - within))

-- Looking up a block: it is in memory, or it is missing and stays so, or it is loaded with those
-- after it that are missing too.
def Looks (pages : Pages) (index : Nat) (events : List Event) : Prop :=
  if pages.has index then events = [.Touch index]
  else if pages.whole ∨ pages.missing index pages.perFetch = 0 then events = []
  else ∃ loaded : List (Nat × Bytes), events =
    .MakeRoom (pages.missing index pages.perFetch) :: loaded.map fun entry => .Keep entry.1 entry.2

-- The events of a read, block by block. One that fails stops at some block.
inductive ReadTrace (complete : Bool) : Pages → List Nat → List Event → Prop where
  | Done {pages : Pages} : ReadTrace complete pages [] []
  | Stop {pages : Pages} {rest : List Nat} (failed : complete = false) : ReadTrace complete pages rest []
  | Round {pages : Pages} {index : Nat} {rest : List Nat} {events more : List Event}
      (looks : Looks pages index events)
      (next : ReadTrace complete (events.foldl Event.apply pages) rest more) :
      ReadTrace complete pages (index :: rest) (events ++ more)

-- Only a block that is not written as a whole is looked up.
def Prepares (pages : Pages) (index : Nat) (chunk : Bytes) (events : List Event) : Prop :=
  if chunk.length < pages.pageSize ∧ index < pages.pageCount then Looks pages index events else events = []

inductive WriteTrace (complete : Bool) : Pages → List (Nat × Nat × Bytes) → List Event → Prop where
  | Done {pages : Pages} : WriteTrace complete pages [] []
  | Stop {pages : Pages} {rest : List (Nat × Nat × Bytes)} (failed : complete = false) :
      WriteTrace complete pages rest []
  | Broke {pages : Pages} {index within : Nat} {chunk : Bytes} {rest : List (Nat × Nat × Bytes)}
      {events : List Event} (failed : complete = false) (prepares : Prepares pages index chunk events) :
      WriteTrace complete pages ((index, within, chunk) :: rest) events
  | Round {pages : Pages} {index within : Nat} {chunk : Bytes} {rest : List (Nat × Nat × Bytes)}
      {events more : List Event} (prepares : Prepares pages index chunk events)
      (next : WriteTrace complete ((events.foldl Event.apply pages).put index within chunk) rest more) :
      WriteTrace complete pages ((index, within, chunk) :: rest) (events ++ .Put index within chunk :: more)

-- The events of a call that ended as `complete` says.
def Call.Makes (pages : Pages) (complete : Bool) : Call → List Event → Prop
  | .Keep index data, events => events = [.Keep index data]
  | .Read offset length, events => ReadTrace complete pages (pages.readBlocks offset length) events
  | .Write offset data, events => WriteTrace complete pages (chunksOf pages.pageSize offset data) events
  | .Truncate size, events => events = [.Truncate size]
  | .Committed, events => events = [.Committed]
  | .MakeRoom incoming, events => events = [.MakeRoom incoming]
  | .Emptied pageCount, events => events = [.Emptied pageCount]

-- The events of the calls, one call after another.
inductive Traces (source : Source τ) : List Call → Held τ → List Event → Prop where
  | Nil {h : Held τ} : Traces source [] h []
  | Cons {call : Call} {rest : List Call} {h : Held τ} {events more : List Event}
      (makes : call.Makes h.pages ((call.run source h).1.any fun _ => true) events)
      (pages : (call.run source h).2.pages = events.foldl Event.apply h.pages)
      (next : Traces source rest (call.run source h).2 more) :
      Traces source (call :: rest) h (events ++ more)

-- The accesses do not influence the pages.
theorem replay_fst (events : List Event) (pages : Pages) (log : List Nat) :
    (replay events (pages, log)).1 = events.foldl Event.apply pages := by
  induction events generalizing pages log with
  | nil => rfl
  | cons event rest ih => exact ih (event.apply pages) _

theorem makeRoom_stats (pages : Pages) (incoming : Nat) (stats stats' : Stats) :
    (pages.makeRoom incoming stats).1 = (pages.makeRoom incoming stats').1 := by
  unfold makeRoom
  dsimp only
  split_ifs <;> rfl

section Spanned

variable {pageSize offset length : Nat}

-- The first block, and those that hold the rest.
theorem spanned_cons (offset : Nat) (hpos : 0 < pageSize) (hlength : 0 < length) :
    spanned pageSize offset length = offset / pageSize ::
      spanned pageSize (offset + min (pageSize - offset % pageSize) length)
        (length - min (pageSize - offset % pageSize) length) := by
  have hsplit := Nat.div_add_mod' offset pageSize
  have hmod := Nat.mod_lt offset hpos
  have hnext : (offset / pageSize + 1) * pageSize = offset / pageSize * pageSize + pageSize := Nat.succ_mul _ _
  by_cases hfits : length ≤ pageSize - offset % pageSize
  · have hlast : (offset + length - 1) / pageSize = offset / pageSize :=
      Nat.div_eq_of_lt_le (by omega) (by omega)
    rw [Nat.min_eq_right hfits, Nat.sub_self, spanned, spanned, if_neg (by omega), if_pos rfl, hlast,
      Nat.add_sub_cancel_left]
    rfl
  · have hmin : min (pageSize - offset % pageSize) length = pageSize - offset % pageSize := by omega
    have hstart : (offset + (pageSize - offset % pageSize)) / pageSize = offset / pageSize + 1 :=
      Nat.div_eq_of_lt_le (by omega) (by rw [Nat.succ_mul]; omega)
    have hlater : offset / pageSize + 1 ≤ (offset + length - 1) / pageSize :=
      (Nat.le_div_iff_mul_le hpos).mpr (by omega)
    have hend : offset + (pageSize - offset % pageSize) + (length - (pageSize - offset % pageSize)) - 1 =
        offset + length - 1 := by omega
    rw [hmin, spanned, spanned, if_neg (by omega), if_neg (by omega), hstart, hend,
      show (offset + length - 1) / pageSize + 1 - offset / pageSize =
        (offset + length - 1) / pageSize + 1 - (offset / pageSize + 1) + 1 by omega, List.range'_succ]

theorem le_of_mem_spanned {index : Nat} (h : index ∈ spanned pageSize offset length) :
    offset / pageSize ≤ index := by
  unfold spanned at h
  split_ifs at h
  · cases h
  · exact (List.mem_range'_1.mp h).1

theorem chunksOf_cons (hpos : 0 < pageSize) {data : Bytes} (hdata : 0 < data.length) :
    chunksOf pageSize offset data = (offset / pageSize, offset % pageSize,
        data.take (min (pageSize - offset % pageSize) data.length)) ::
      chunksOf pageSize (offset + min (pageSize - offset % pageSize) data.length)
        (data.drop (min (pageSize - offset % pageSize) data.length)) := by
  have hsplit := Nat.div_add_mod' offset pageSize
  have hmod := Nat.mod_lt offset hpos
  rw [chunksOf, spanned_cons offset hpos hdata, List.map_cons]
  dsimp only
  congr 1
  · have hwithin : offset - offset / pageSize * pageSize = offset % pageSize := by omega
    rw [hwithin, show offset / pageSize * pageSize - offset = 0 by omega, List.drop_zero]
    by_cases hfits : data.length ≤ pageSize - offset % pageSize
    · rw [Nat.min_eq_right hfits, List.take_of_length_le hfits, List.take_length]
    · rw [Nat.min_eq_left (by omega)]
  · rw [chunksOf, List.length_drop]
    refine List.map_congr_left fun index hindex => ?_
    by_cases hfits : data.length ≤ pageSize - offset % pageSize
    · rw [Nat.min_eq_right hfits, Nat.sub_self, spanned, if_pos rfl] at hindex
      cases hindex
    · have hmin : min (pageSize - offset % pageSize) data.length = pageSize - offset % pageSize := by omega
      rw [hmin] at hindex ⊢
      have hstart : (offset + (pageSize - offset % pageSize)) / pageSize = offset / pageSize + 1 :=
        Nat.div_eq_of_lt_le (by rw [Nat.succ_mul]; omega) (by rw [Nat.succ_mul, Nat.succ_mul]; omega)
      have hlater := Nat.mul_le_mul_right pageSize (hstart ▸ le_of_mem_spanned hindex)
      rw [Nat.succ_mul] at hlater
      rw [List.drop_drop, show offset - index * pageSize = 0 by omega,
        show offset + (pageSize - offset % pageSize) - index * pageSize = 0 by omega,
        show pageSize - offset % pageSize + (index * pageSize - (offset + (pageSize - offset % pageSize))) =
          index * pageSize - offset by omega]

end Spanned

section Events

variable {source : Source τ}

theorem foldl_keep (loaded : List (Nat × Bytes)) (pages : Pages) :
    (loaded.map fun entry => Event.Keep entry.1 entry.2).foldl Event.apply pages =
      pages.keepAll loaded := by
  rw [List.foldl_map]
  rfl

-- However the look-up ends.
theorem ensureLoaded_looks (hkeeps : source.OnlyKeeps) (index : Nat) (h : Held τ) :
    ∃ events, Looks h.pages index events ∧
      (ensureLoaded source index h).2.pages = events.foldl Event.apply h.pages := by
  unfold ensureLoaded
  rw [gets_bind]
  by_cases hhas : h.pages.has index = true
  · rw [if_pos hhas]
    exact ⟨_, by rw [Looks, if_pos hhas], rfl⟩
  rw [if_neg hhas]
  by_cases hwhole : h.pages.whole = true
  · rw [if_pos hwhole]
    exact ⟨_, by rw [Looks, if_neg hhas, if_pos (Or.inl hwhole)], rfl⟩
  rw [if_neg hwhole]
  by_cases hnone : h.pages.missing index h.pages.perFetch = 0
  · rw [if_pos hnone]
    exact ⟨_, by rw [Looks, if_neg hhas, if_pos (Or.inr hnone)], rfl⟩
  rw [if_neg hnone, modify_bind]
  obtain ⟨loaded, hloaded⟩ := hkeeps index (h.pages.missing index h.pages.perFetch)
    (h.makeRoom (h.pages.missing index h.pages.perFetch))
  refine ⟨_, by rw [Looks, if_neg hhas, if_neg (not_or_intro hwhole hnone)]; exact ⟨loaded, rfl⟩, ?_⟩
  rw [hloaded, List.foldl_cons, foldl_keep]
  exact congrArg (keepAll · loaded) (makeRoom_stats h.pages _ h.stats {})

theorem Looks.spares {pages : Pages} {index : Nat} {events : List Event} (h : Looks pages index events) :
    Spares pages (events.foldl Event.apply pages) := by
  unfold Looks at h
  split_ifs at h
  · rw [h]
    exact Spares.touch pages index
  · rw [h]
    exact Spares.refl pages
  · obtain ⟨loaded, rfl⟩ := h
    rw [List.foldl_cons, foldl_keep]
    exact (Spares.makeRoom pages _ {}).trans (Spares.keepAll _ loaded)

-- One round of a read looks its block up, and if it returns, goes on behind what it has read.
theorem readStep_looks (hkeeps : source.OnlyKeeps) {offset length : Nat} {buf : Bytes} {h : Held τ}
    (hrest : buf.length < length) (hpos : h.pages.pageSize ≠ 0)
    (hindex : (offset + buf.length) / h.pages.pageSize < h.pages.pageCount) :
    ∃ events, Looks h.pages ((offset + buf.length) / h.pages.pageSize) events ∧
      (readStep source offset length buf h).2.pages = events.foldl Event.apply h.pages ∧
      ∀ next, (readStep source offset length buf h).1 = .ok next → ∃ more, next = .inl more ∧
        more.length = buf.length +
          min (h.pages.pageSize - (offset + buf.length) % h.pages.pageSize) (length - buf.length) := by
  obtain ⟨events, hlooks, hpages⟩ :=
    ensureLoaded_looks hkeeps ((offset + buf.length) / h.pages.pageSize) h
  refine ⟨events, hlooks, ?_⟩
  unfold readStep
  rw [if_neg (by omega), gets_bind, if_neg hpos, if_neg (by omega)]
  rcases hload : ensureLoaded source ((offset + buf.length) / h.pages.pageSize) h with ⟨loaded, last⟩
  rw [hload] at hpages
  cases loaded with
  | err reason =>
      rw [bind_err _ hload]
      exact ⟨hpages, fun next hnext => by cases hnext⟩
  | hang =>
      rw [bind_hang _ hload]
      exact ⟨hpages, fun next hnext => by cases hnext⟩
  | ok _ =>
      rw [bind_ok _ hload, gets_bind]
      cases last.pages.block ((offset + buf.length) / h.pages.pageSize) with
      | none =>
          refine ⟨hpages, fun next hnext => ?_⟩
          cases hnext
          exact ⟨_, rfl, by rw [List.length_append, length_zeros]⟩
      | some data =>
          dsimp only
          split_ifs with hshort
          · exact ⟨hpages, fun next hnext => by cases hnext⟩
          · refine ⟨hpages, fun next hnext => ?_⟩
            cases hnext
            refine ⟨_, rfl, ?_⟩
            rw [List.length_append, List.length_take, List.length_drop]
            omega

-- The rounds from some byte on look the blocks up that hold the rest.
theorem readLoop_reads (hkeeps : source.OnlyKeeps) (offset length fuel : Nat) (buf : Bytes) (h : Held τ)
    (hfuel : length - buf.length < fuel) :
    ∃ events, ReadTrace ((Prog.loop (readStep source offset length) fuel buf h).1.any fun _ => true) h.pages
        (h.pages.readBlocks (offset + buf.length) (length - buf.length)) events ∧
      (Prog.loop (readStep source offset length) fuel buf h).2.pages = events.foldl Event.apply h.pages := by
  induction fuel generalizing buf h with
  | zero => exact absurd hfuel (Nat.not_lt_zero _)
  | succ fuel ih =>
      rw [loop_succ]
      by_cases hdone : length ≤ buf.length
      · have hstep : readStep source offset length buf h = (.ok (.inr (buf, true)), h.count) := by
          unfold readStep
          rw [if_pos hdone]
          rfl
        rw [bind_ok _ hstep, Nat.sub_eq_zero_of_le hdone]
        exact ⟨[], .Done, rfl⟩
      by_cases hpos : h.pages.pageSize = 0
      · have hstep : readStep source offset length buf h = (.hang, h) := by
          unfold readStep
          rw [if_neg hdone, gets_bind, if_pos hpos]
          rfl
        rw [bind_hang _ hstep]
        exact ⟨[], .Stop rfl, rfl⟩
      have hspan := spanned_cons (offset + buf.length) (Nat.pos_of_ne_zero hpos)
        (show 0 < length - buf.length by omega)
      by_cases hindex : h.pages.pageCount ≤ (offset + buf.length) / h.pages.pageSize
      · have hstep : readStep source offset length buf h =
            (.ok (.inr (buf ++ zeros (length - buf.length), false)), h) := by
          unfold readStep
          rw [if_neg hdone, gets_bind, if_neg hpos, if_pos hindex]
          rfl
        have hnone : h.pages.readBlocks (offset + buf.length) (length - buf.length) = [] := by
          refine List.filter_eq_nil_iff.mpr fun index hin => ?_
          have hle := le_of_mem_spanned hin
          simp only [decide_eq_true_eq]
          omega
        rw [bind_ok _ hstep, hnone]
        exact ⟨[], .Done, rfl⟩
      obtain ⟨events, hlooks, hpages, hnext⟩ :=
        readStep_looks hkeeps (Nat.lt_of_not_le hdone) hpos (Nat.lt_of_not_le hindex)
      have hblocks : h.pages.readBlocks (offset + buf.length) (length - buf.length) =
          (offset + buf.length) / h.pages.pageSize :: h.pages.readBlocks
            (offset + buf.length + min (h.pages.pageSize - (offset + buf.length) % h.pages.pageSize)
              (length - buf.length))
            (length - buf.length - min (h.pages.pageSize - (offset + buf.length) % h.pages.pageSize)
              (length - buf.length)) := by
        rw [readBlocks, hspan, List.filter_cons_of_pos (by simpa using hindex)]
        rfl
      rw [hblocks]
      rcases hstep : readStep source offset length buf h with ⟨outcome, last⟩
      rw [hstep] at hpages hnext
      cases outcome with
      | err reason =>
          rw [bind_err _ hstep]
          exact ⟨events ++ [], .Round hlooks (.Stop rfl), by rw [List.append_nil]; exact hpages⟩
      | hang =>
          rw [bind_hang _ hstep]
          exact ⟨events ++ [], .Round hlooks (.Stop rfl), by rw [List.append_nil]; exact hpages⟩
      | ok next =>
          obtain ⟨more, rfl, hlength⟩ := hnext next rfl
          rw [bind_ok _ hstep]
          have hmod := Nat.mod_lt (offset + buf.length) (Nat.pos_of_ne_zero hpos)
          obtain ⟨later, hreads, hlast⟩ := ih more last (by omega)
          have hspares := hlooks.spares
          rw [hpages, readBlocks, hspares.pageSize, hspares.pageCount, hlength, ← Nat.add_assoc,
            Nat.sub_add_eq] at hreads
          exact ⟨events ++ later, .Round hlooks hreads, by rw [List.foldl_append, ← hpages]; exact hlast⟩

-- The chunk is put into its block, or the block is too short for it.
theorem place_puts (index within : Nat) (chunk : Bytes) (done : Nat) (h : Held τ) :
    ∃ outcome last, (do place index within chunk; return .inl done :
        Prog (Held τ) Broken (Nat ⊕ Unit)) h = (outcome, last) ∧
      (outcome = .ok (.inl done) ∧ last.pages = h.pages.put index within chunk ∨
        outcome = .hang ∧ last = h) := by
  by_cases hshort : (h.pages.block index).any (·.length < within + chunk.length) = true
  · have hplace : (place index within chunk : Prog (Held τ) Broken Unit) h = (.hang, h) := by
      unfold place
      rw [gets_bind, if_pos hshort]
      rfl
    exact ⟨_, _, bind_hang _ hplace, Or.inr ⟨rfl, rfl⟩⟩
  · have hplace : (place index within chunk : Prog (Held τ) Broken Unit) h =
        (.ok (), h.mapPages (put · index within chunk)) := by
      unfold place
      rw [gets_bind, if_neg hshort]
      rfl
    exact ⟨_, _, bind_ok _ hplace, Or.inl ⟨rfl, rfl⟩⟩

-- One round of a write: what precedes the put, and whether it comes to it.
theorem writeStep_prepares (hkeeps : source.OnlyKeeps) (offset : Nat) {done : Nat} {data : Bytes} {h : Held τ}
    (hrest : done < data.length) (hpos : h.pages.pageSize ≠ 0) {index within n : Nat}
    (hindex : index = (offset + done) / h.pages.pageSize)
    (hwithin : within = (offset + done) % h.pages.pageSize)
    (hn : n = min (h.pages.pageSize - within) (data.length - done)) :
    ∃ events outcome last, writeStep source offset data done h = (outcome, last) ∧
      Prepares h.pages index ((data.drop done).take n) events ∧
      (outcome = .ok (.inl (done + n)) ∧
          last.pages = (events.foldl Event.apply h.pages).put index within ((data.drop done).take n) ∨
        outcome.any (fun _ => true) = false ∧ last.pages = events.foldl Event.apply h.pages) := by
  have hlen : ((data.drop done).take n).length = n := by
    rw [List.length_take, List.length_drop]
    omega
  unfold writeStep Prepares
  rw [if_neg (by omega), gets_bind, if_neg hpos, ← hindex, ← hwithin, ← hn, hlen]
  by_cases hpart : n < h.pages.pageSize ∧ index < h.pages.pageCount
  · rw [if_pos hpart]
    obtain ⟨events, hlooks, hpages⟩ := ensureLoaded_looks hkeeps index h
    rcases hload : ensureLoaded source index h with ⟨loaded, mid⟩
    rw [hload] at hpages
    cases loaded with
    | err reason => exact ⟨events, _, _, bind_err _ hload, by rwa [if_pos hpart], Or.inr ⟨rfl, hpages⟩⟩
    | hang => exact ⟨events, _, _, bind_hang _ hload, by rwa [if_pos hpart], Or.inr ⟨rfl, hpages⟩⟩
    | ok _ =>
        obtain ⟨outcome, last, hplace, hends⟩ :=
          place_puts index within ((data.drop done).take n) (done + n) mid
        refine ⟨events, outcome, last, (bind_ok _ hload).trans hplace, by rwa [if_pos hpart], ?_⟩
        rw [← hpages]
        exact hends.imp id fun ⟨hhang, hlast⟩ => ⟨hhang ▸ rfl, hlast ▸ rfl⟩
  · rw [if_neg hpart]
    obtain ⟨outcome, last, hplace, hends⟩ := place_puts index within ((data.drop done).take n) (done + n) h
    exact ⟨[], outcome, last, hplace, by rw [if_neg hpart],
      hends.imp id fun ⟨hhang, hlast⟩ => ⟨hhang ▸ rfl, hlast ▸ rfl⟩⟩

theorem Prepares.pageSize {pages : Pages} {index : Nat} {chunk : Bytes} {events : List Event}
    (h : Prepares pages index chunk events) : (events.foldl Event.apply pages).pageSize = pages.pageSize := by
  unfold Prepares at h
  split_ifs at h
  · exact h.spares.pageSize
  · rw [h]
    rfl

theorem writeLoop_writes (hkeeps : source.OnlyKeeps) (offset : Nat) (data : Bytes) (fuel done : Nat)
    (h : Held τ) (hfuel : data.length - done < fuel) :
    ∃ events, WriteTrace ((Prog.loop (writeStep source offset data) fuel done h).1.any fun _ => true) h.pages
        (chunksOf h.pages.pageSize (offset + done) (data.drop done)) events ∧
      (Prog.loop (writeStep source offset data) fuel done h).2.pages = events.foldl Event.apply h.pages := by
  induction fuel generalizing done h with
  | zero => exact absurd hfuel (Nat.not_lt_zero _)
  | succ fuel ih =>
      rw [loop_succ]
      by_cases hdone : data.length ≤ done
      · have hstep : writeStep source offset data done h = (.ok (.inr ()), h.count) := by
          unfold writeStep
          rw [if_pos hdone]
          rfl
        rw [bind_ok _ hstep, List.drop_eq_nil_of_le hdone]
        exact ⟨[], .Done, rfl⟩
      by_cases hpos : h.pages.pageSize = 0
      · have hstep : writeStep source offset data done h = (.hang, h) := by
          unfold writeStep
          rw [if_neg hdone, gets_bind, if_pos hpos]
          rfl
        rw [bind_hang _ hstep]
        exact ⟨[], .Stop rfl, rfl⟩
      obtain ⟨events, outcome, last, hstep, hprepares, hends⟩ :=
        writeStep_prepares hkeeps offset (Nat.lt_of_not_le hdone) hpos rfl rfl rfl
      have hdrop : (data.drop done).length = data.length - done := List.length_drop
      rw [chunksOf_cons (Nat.pos_of_ne_zero hpos) (by omega), hdrop, List.drop_drop]
      rcases hends with ⟨rfl, hput⟩ | ⟨hfailed, hpages⟩
      · rw [bind_ok _ hstep]
        have hmod := Nat.mod_lt (offset + done) (Nat.pos_of_ne_zero hpos)
        obtain ⟨later, hwrites, hlast⟩ := ih
          (done + min (h.pages.pageSize - (offset + done) % h.pages.pageSize) (data.length - done)) last
          (by omega)
        have hsize : last.pages.pageSize = h.pages.pageSize := by
          rw [hput]
          exact hprepares.pageSize
        rw [hsize, hput, ← Nat.add_assoc] at hwrites
        refine ⟨_, .Round hprepares hwrites, ?_⟩
        rw [List.foldl_append, List.foldl_cons]
        exact hlast.trans (by rw [hput]; rfl)
      · cases outcome with
        | ok next => cases hfailed
        | err reason =>
            rw [bind_err _ hstep]
            exact ⟨events, .Broke rfl hprepares, hpages⟩
        | hang =>
            rw [bind_hang _ hstep]
            exact ⟨events, .Broke rfl hprepares, hpages⟩

-- What a program returns is left out.
theorem any_returned {α β : Type} (body : Prog (Held τ) Broken α) (value : α → β) (h : Held τ) :
    (((do return value (← body)) : Prog (Held τ) Broken β) h).1.any (fun _ => true) =
        (body h).1.any (fun _ => true) ∧
      (((do return value (← body)) : Prog (Held τ) Broken β) h).2 = (body h).2 := by
  rw [bind_apply]
  generalize body h = run
  rcases run with ⟨_ | _ | _, last⟩ <;> exact ⟨rfl, rfl⟩

theorem call_makes (hkeeps : source.OnlyKeeps) (call : Call) (h : Held τ) :
    ∃ events, call.Makes h.pages ((call.run source h).1.any fun _ => true) events ∧
      (call.run source h).2.pages = events.foldl Event.apply h.pages := by
  cases call with
  | Keep index data => exact ⟨_, rfl, rfl⟩
  | Read offset length =>
      obtain ⟨hends, hlast⟩ := any_returned (read source offset length) some h
      unfold Call.run Call.Makes
      rw [hends, hlast]
      exact readLoop_reads hkeeps offset length (length + 1) [] h (Nat.lt_succ_self _)
  | Write offset data =>
      obtain ⟨hends, hlast⟩ := any_returned (write source offset data) (fun _ => none) h
      unfold Call.run Call.Makes
      rw [hends, hlast]
      exact writeLoop_writes hkeeps offset data (data.length + 1) 0 h (Nat.lt_succ_self _)
  | Truncate size => exact ⟨_, rfl, rfl⟩
  | Committed => exact ⟨_, rfl, rfl⟩
  | MakeRoom incoming => exact ⟨_, rfl, makeRoom_stats h.pages incoming h.stats {}⟩
  | Emptied pageCount => exact ⟨_, rfl, rfl⟩

theorem exists_traces (hkeeps : source.OnlyKeeps) (calls : List Call) (h : Held τ) :
    ∃ events, Traces source calls h events := by
  induction calls generalizing h with
  | nil => exact ⟨[], .Nil⟩
  | cons call rest ih =>
      obtain ⟨events, hmakes, hpages⟩ := call_makes hkeeps call h
      obtain ⟨more, hmore⟩ := ih (call.run source h).2
      exact ⟨events ++ more, .Cons hmakes hpages hmore⟩

theorem Traces.pages_after {calls : List Call} {h : Held τ} {events : List Event}
    (htraces : Traces source calls h events) :
    (after source calls h).pages = events.foldl Event.apply h.pages := by
  induction htraces with
  | Nil => rfl
  | Cons _ hpages _ ih => rw [after, ih, hpages, List.foldl_append]

end Events

-- The stamps order the blocks in memory by their last access.
structure Recent (log : List Nat) (blocks : BlockMap) (clock : Nat) : Prop where
  bounded : ∀ i a, blocks.lookup i = some a → a.used ≤ clock
  logged : ∀ i a, blocks.lookup i = some a → i ∈ log
  order : ∀ i j a b, blocks.lookup i = some a → blocks.lookup j = some b →
    (a.used < b.used ↔ log.idxOf j < log.idxOf i)

namespace Recent

variable {log : List Nat} {blocks : BlockMap} {clock : Nat}

theorem empty (clock : Nat) : Recent log ∅ clock :=
  ⟨fun i a h => by simp at h, fun i a h => by simp at h, fun i j a b h => by simp at h⟩

theorem later (h : Recent log blocks clock) : Recent log blocks (clock + 1) :=
  ⟨fun i a ha => (h.bounded i a ha).trans (Nat.le_succ _), h.logged, h.order⟩

-- The block that is accessed becomes the newest.
theorem insert (h : Recent log blocks clock) (index : Nat) (data : Bytes) :
    Recent (index :: log) (blocks.insert index ⟨data, clock + 1⟩) (clock + 1) where
  bounded i a ha := by
    rw [lookup_insert_eq] at ha
    split_ifs at ha
    · cases ha
      exact le_refl _
    · exact h.later.bounded i a ha
  logged i a ha := by
    rw [lookup_insert_eq] at ha
    split_ifs at ha with hi
    · exact hi ▸ List.mem_cons_self
    · exact List.mem_cons_of_mem _ (h.logged i a ha)
  order i j a b ha hb := by
    rw [lookup_insert_eq] at ha hb
    split_ifs at ha hb with hi hj hj
    · cases ha
      cases hb
      rw [hi, hj]
      simp
    · cases ha
      have hbound := h.bounded j b hb
      rw [hi, List.idxOf_cons_self, List.idxOf_cons_ne _ (Ne.symm hj)]
      simp only
      omega
    · cases hb
      have hbound := h.bounded i a ha
      rw [hj, List.idxOf_cons_self, List.idxOf_cons_ne _ (Ne.symm hi)]
      simp only
      omega
    · rw [List.idxOf_cons_ne _ (Ne.symm hi), List.idxOf_cons_ne _ (Ne.symm hj), h.order i j a b ha hb]
      omega

theorem retain (h : Recent log blocks clock) (keep : Nat → Bool) :
    Recent log (blocks.retain keep) clock := by
  have hsub : ∀ i a, (blocks.retain keep).lookup i = some a → blocks.lookup i = some a := by
    intro i a ha
    rw [AList.lookup_retain] at ha
    split_ifs at ha
    exact ha
  exact ⟨fun i a ha => h.bounded i a (hsub i a ha), fun i a ha => h.logged i a (hsub i a ha),
    fun i j a b ha hb => h.order i j a b (hsub i a ha) (hsub j b hb)⟩

theorem step {pages : Pages} (h : Recent log pages.blocks pages.clock) (event : Event) :
    Recent ((event.access pages).toList ++ log) (event.apply pages).blocks (event.apply pages).clock := by
  cases event with
  | Touch index =>
      simp only [Event.access, Event.apply, block_eq_none_iff, touch]
      cases pages.blocks.lookup index with
      | none => exact h.later
      | some block => exact h.insert index block.data
  | Keep index data =>
      simp only [Event.access, Event.apply, block_eq_none_iff, keep]
      cases pages.blocks.lookup index with
      | none => exact h.insert index data
      | some block => exact h.later
  | Put index within chunk => exact h.insert index _
  | MakeRoom incoming =>
      simp only [Event.access, Event.apply, Pages.makeRoom]
      split_ifs
      · exact h
      · exact h.retain fun index => index ∉ pages.oldest (pages.excess incoming)
  | Truncate size =>
      simp only [Event.access, Event.apply, truncate]
      split_ifs
      · exact h.retain fun index => index < divCeil size pages.pageSize
      · exact h
  | Committed => exact h
  | Emptied pageCount => exact empty 0

theorem replay {pages : Pages} (h : Recent log pages.blocks pages.clock) (events : List Event) :
    Recent (replay events (pages, log)).2 (replay events (pages, log)).1.blocks
      (replay events (pages, log)).1.clock := by
  induction events generalizing pages log with
  | nil => exact h
  | cons event rest ih => exact ih (h.step event)

-- Two blocks in memory with one stamp are the same block.
theorem distinct (h : Recent log blocks clock) {i j : Nat} {a b : Block}
    (ha : blocks.lookup i = some a) (hb : blocks.lookup j = some b) (hused : a.used = b.used) : i = j := by
  have hij := h.order i j a b ha hb
  have hji := h.order j i b a hb ha
  exact (List.idxOf_inj (h.logged i a ha)).mp (by omega)

end Recent

theorem mem_ages {pages : Pages} {used i : Nat} : (used, i) ∈ pages.ages ↔
    ∃ block, pages.blocks.lookup i = some block ∧ block.used = used ∧ i ∉ pages.dirty := by
  unfold ages
  simp only [List.mem_map, List.mem_filter, decide_eq_true_eq, Prod.mk.injEq]
  constructor
  · rintro ⟨⟨key, block⟩, ⟨hentry, hclean⟩, rfl, rfl⟩
    exact ⟨block, AList.mem_lookup_iff.mpr hentry, rfl, hclean⟩
  · rintro ⟨block, hlookup, rfl, hclean⟩
    exact ⟨⟨i, block⟩, ⟨AList.mem_lookup_iff.mp hlookup, hclean⟩, rfl, rfl⟩

instance : Std.Total older := ⟨fun a b => by unfold older; omega⟩

instance : IsTrans (Nat × Nat) older := ⟨fun a b c hab hbc => by unfold older at *; omega⟩

-- What is taken from the queue is older than what stays in it.
theorem older_of_mem_oldest {pages : Pages} {count i j : Nat} (hi : i ∈ pages.oldest count)
    (hj : j ∈ pages.clean) (hout : j ∉ pages.oldest count) :
    ∃ a b, pages.blocks.lookup i = some a ∧ pages.blocks.lookup j = some b ∧
      older (a.used, i) (b.used, j) := by
  obtain ⟨⟨_, first⟩, htaken, rfl⟩ := List.mem_map.mp hi
  obtain ⟨a, ha, rfl, -⟩ := mem_ages.mp (pages.queue_perm.subset (List.mem_of_mem_take htaken))
  rw [← map_snd_ages] at hj
  obtain ⟨⟨_, second⟩, hage, rfl⟩ := List.mem_map.mp hj
  obtain ⟨b, hb, rfl, -⟩ := mem_ages.mp hage
  have hleft : (b.used, second) ∈ pages.queue.drop count := by
    have hqueue := pages.queue_perm.symm.subset hage
    rw [← List.take_append_drop count pages.queue] at hqueue
    refine (List.mem_append.mp hqueue).resolve_left fun htake => hout ?_
    exact List.mem_map.mpr ⟨_, htake, rfl⟩
  have hsorted : pages.queue.Pairwise older := List.pairwise_insertionSort _ _
  rw [← List.take_append_drop count pages.queue] at hsorted
  exact ⟨a, b, ha, hb, (List.pairwise_append.mp hsorted).2.2 _ htaken _ hleft⟩

-- The blocks that are gone are the clean ones that were accessed longest ago, and either all
-- of the incoming blocks fit the limit or no clean block is left.
structure EvictsOldest (log : List Nat) (incoming : Nat) (before after : Pages) : Prop where
  dirty : ∀ i ∈ before.dirty, after.block i = before.block i
  rest : ∀ i, after.block i = before.block i ∨ after.block i = none
  logged : ∀ i, before.block i ≠ none → i ∈ log
  oldest : ∀ i ∈ before.clean, ∀ j ∈ before.clean, after.block i = none → after.block j ≠ none →
    log.idxOf j < log.idxOf i
  fits : ∀ cap, before.cap = some cap →
    after.held + incoming ≤ max cap 1 ∨ ∀ i, after.block i ≠ none → i ∈ after.dirty

theorem Recent.evictsOldest {log : List Nat} {pages : Pages}
    (h : Recent log pages.blocks pages.clock) (incoming : Nat) (stats : Stats) :
    EvictsOldest log incoming pages (pages.makeRoom incoming stats).1 := by
  have hspares := Spares.makeRoom pages incoming stats
  refine ⟨fun i hi => ?_, fun i => ?_, fun i hi => ?_, fun i hi j hj hgone hstays => ?_,
    fun cap hcap => ?_⟩
  · by_cases hheld : pages.block i = none
    · have hdrops := (drops_makeRoom pages incoming stats).block i
      rw [hheld] at hdrops ⊢
      exact hdrops.elim id fun hnone => hnone.2.2
    · exact hspares.block i hi hheld
  · rcases (drops_makeRoom pages incoming stats).block i with hsame | ⟨-, -, hnone⟩
    · exact Or.inl hsame
    · exact Or.inr hnone
  · obtain ⟨block, hblock⟩ := Option.ne_none_iff_exists'.mp
      ((block_eq_none_iff pages i).not.mp hi)
    exact h.logged i block hblock
  · -- Something is gone, so blocks were evicted.
    have hheld := ((mem_clean pages).mp hi).1
    unfold makeRoom at hgone hstays
    dsimp only at hgone hstays
    split_ifs at hgone hstays
    · exact absurd hgone hheld
    · rw [block_evict] at hgone hstays
      have hin : i ∈ pages.oldest (pages.excess incoming) := by
        by_contra hout
        rw [if_neg hout] at hgone
        exact hheld hgone
      have hout : j ∉ pages.oldest (pages.excess incoming) := fun hin => hstays (if_pos hin)
      obtain ⟨a, b, ha, hb, holder⟩ := older_of_mem_oldest hin hj hout
      refine (h.order i j a b ha hb).mp (holder.resolve_right fun hsame => ?_)
      exact hout (h.distinct ha hb hsame.1 ▸ hin)
  · refine (makeRoom_fits pages hcap incoming stats).imp id fun hnone i hi => ?_
    by_contra hclean
    have hmem := (mem_clean (pages.makeRoom incoming stats).1).mpr ⟨hi, hclean⟩
    rw [List.eq_nil_of_length_eq_zero hnone] at hmem
    exact absurd hmem List.not_mem_nil

-- In every state that calls lead to, for the accesses that they made.
theorem eviction_is_least_recently_used (source : Source τ) (hkeeps : source.OnlyKeeps) (h : Held τ)
    (hempty : h.pages.blocks = ∅) (calls : List Call) :
    (∃ events, Traces source calls h events) ∧
      ∀ events, Traces source calls h events →
        (after source calls h).pages = (replay events (h.pages, [])).1 ∧
        ∀ incoming stats, EvictsOldest (replay events (h.pages, [])).2 incoming
          (after source calls h).pages ((after source calls h).pages.makeRoom incoming stats).1 := by
  refine ⟨exists_traces hkeeps calls h, fun events htraces => ?_⟩
  have hpages : (after source calls h).pages = (replay events (h.pages, [])).1 := by
    rw [htraces.pages_after, replay_fst]
  have hstart : Recent [] h.pages.blocks h.pages.clock := hempty ▸ Recent.empty _
  refine ⟨hpages, fun incoming stats => ?_⟩
  rw [hpages]
  exact (hstart.replay events).evictsOldest incoming stats

-- Two blocks are loaded, the first one is read again, so the second one is evicted.
theorem eviction_is_least_recently_used_scatter :
    ((after scatter [.Keep 0 [1, 1], .Keep 1 [2, 2], .Read 0 2] scattered).pages.makeRoom 0 {}).1.indexes =
        [0] ∧
      Traces scatter [.Keep 0 [1, 1], .Keep 1 [2, 2], .Read 0 2] scattered
        [.Keep 0 [1, 1], .Keep 1 [2, 2], .Touch 0] ∧
      EvictsOldest [0, 1, 0] 0
        (after scatter [.Keep 0 [1, 1], .Keep 1 [2, 2], .Read 0 2] scattered).pages
        ((after scatter [.Keep 0 [1, 1], .Keep 1 [2, 2], .Read 0 2] scattered).pages.makeRoom 0 {}).1 := by
  have htraces : Traces scatter [.Keep 0 [1, 1], .Keep 1 [2, 2], .Read 0 2] scattered
      ([.Keep 0 [1, 1]] ++ ([.Keep 1 [2, 2]] ++ ([.Touch 0] ++ [] ++ []))) :=
    .Cons rfl rfl (.Cons rfl rfl (.Cons (.Round rfl .Done) rfl .Nil))
  obtain ⟨-, hall⟩ := eviction_is_least_recently_used scatter (fun _ _ _ => ⟨_, rfl⟩) scattered rfl
    [.Keep 0 [1, 1], .Keep 1 [2, 2], .Read 0 2]
  exact ⟨by decide +kernel, htraces, (hall _ htraces).2 0 {}⟩

end RemoteVfs.Pages
