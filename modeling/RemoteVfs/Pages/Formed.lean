import RemoteVfs.Pages.Calls
import RemoteVfs.Pages.Progress

namespace RemoteVfs

open Base Base.Prog

variable {τ : Type}

-- A source that keeps only blocks of the run it is asked for, of the right size, or fails.
def Source.Orderly (source : Source τ) : Prop :=
  ∀ (first count : Nat) (h : Held τ), h.pages.Asks first count →
    (source.fill first count h).1 ≠ .hang ∧
      ∃ loaded, (source.fill first count h).2.pages = h.pages.keepAll loaded ∧
        ∀ entry ∈ loaded, (first ≤ entry.1 ∧ entry.1 < first + count) ∧
          entry.2.length = h.pages.pageSize

-- What a source was asked for, with the pages of that moment.
structure Request where
  pages : Pages
  first : Nat
  count : Nat

-- The same source with a list of what it was asked for.
def Source.noting (source : Source τ) : Source (τ × List Request) where
  fill first count := fun h =>
    let run := source.fill first count ⟨h.pages, h.stats, h.source.1⟩
    (run.1, ⟨run.2.pages, run.2.stats, (run.2.source, ⟨h.pages, first, count⟩ :: h.source.2)⟩)

namespace Pages

-- Stamps of the last access: distinct, and none is newer than the clock.
structure Stamped (blocks : BlockMap) (clock : Nat) : Prop where
  distinct : ∀ i j a b, blocks.lookup i = some a → blocks.lookup j = some b → a.used = b.used → i = j
  bounded : ∀ i a, blocks.lookup i = some a → a.used ≤ clock

namespace Stamped

variable {blocks : BlockMap} {clock : Nat}

theorem empty : Stamped ∅ 0 :=
  ⟨fun i j a b h => by simp at h, fun i a h => by simp at h⟩

theorem later (h : Stamped blocks clock) : Stamped blocks (clock + 1) :=
  ⟨h.distinct, fun i a ha => (h.bounded i a ha).trans (Nat.le_succ _)⟩

theorem insert (h : Stamped blocks clock) (index : Nat) (data : Bytes) :
    Stamped (blocks.insert index ⟨data, clock + 1⟩) (clock + 1) where
  distinct i j a b ha hb heq := by
    rw [lookup_insert_eq] at ha hb
    split_ifs at ha hb with hi hj hj
    · rw [hi, hj]
    · cases ha
      have := h.bounded j b hb
      simp only at heq
      omega
    · cases hb
      have := h.bounded i a ha
      simp only at heq
      omega
    · exact h.distinct i j a b ha hb heq
  bounded i a ha := by
    rw [lookup_insert_eq] at ha
    split_ifs at ha
    · cases ha
      exact le_refl _
    · exact (h.later).bounded i a ha

theorem retain (h : Stamped blocks clock) (keep : Nat → Bool) : Stamped (blocks.retain keep) clock := by
  have hsub : ∀ i a, (blocks.retain keep).lookup i = some a → blocks.lookup i = some a := by
    intro i a ha
    rw [AList.lookup_retain] at ha
    split_ifs at ha
    exact ha
  exact ⟨fun i j a b ha hb => h.distinct i j a b (hsub i a ha) (hsub j b hb),
    fun i a ha => h.bounded i a (hsub i a ha)⟩

end Stamped

-- The representation invariant. `fits` bounds the size of the file by the last offset.
structure Formed (pages : Pages) : Prop where
  size : MIN_PAGE_SIZE ≤ pages.pageSize ∧ pages.pageSize ≤ MAX_PAGE_SIZE
  dirty : ∀ i ∈ pages.dirty, pages.block i ≠ none
  held : ∀ i data, pages.block i = some data → i < pages.pageCount ∧ data.length = pages.pageSize
  stamps : Stamped pages.blocks pages.clock
  fits : pages.fileSize < 2 ^ 63 + MAX_PAGE_SIZE

namespace Formed

variable {pages : Pages}

theorem pos (h : Formed pages) : 0 < pages.pageSize := by
  have := h.size.1
  unfold MIN_PAGE_SIZE at this
  omega

theorem new {pageSize pageCount : Nat} (hmin : MIN_PAGE_SIZE ≤ pageSize) (hmax : pageSize ≤ MAX_PAGE_SIZE)
    (hcount : pageCount ≤ MAX_PAGE_COUNT) (blocksPerFetch : Option PerFetch) (cap : Option Nat) :
    Formed (new pageSize pageCount blocksPerFetch cap) where
  size := ⟨hmin, hmax⟩
  dirty i hi := absurd hi (SortedSet.notMem_empty i)
  held i data h := by cases h
  stamps := Stamped.empty
  fits := by
    have hle : pageCount * pageSize ≤ MAX_PAGE_COUNT * MAX_PAGE_SIZE := Nat.mul_le_mul hcount hmax
    have hlt : MAX_PAGE_COUNT * MAX_PAGE_SIZE < 2 ^ 63 + MAX_PAGE_SIZE := by decide
    exact hle.trans_lt hlt

theorem touch (h : Formed pages) (index : Nat) : Formed (pages.touch index) where
  size := h.size
  dirty i hi := by rw [block_touch]; exact h.dirty i hi
  held i data hi := by rw [block_touch] at hi; exact h.held i data hi
  stamps := by
    unfold Pages.touch
    cases pages.blocks.lookup index with
    | none => exact h.stamps.later
    | some block => exact h.stamps.insert index block.data
  fits := h.fits

theorem keep (h : Formed pages) {index : Nat} {data : Bytes} (hindex : index < pages.pageCount)
    (hdata : data.length = pages.pageSize) : Formed (pages.keep index data) where
  size := h.size
  dirty i hi := by
    rw [block_keep]
    split_ifs
    · simp
    · exact h.dirty i hi
  held i other hi := by
    rw [block_keep] at hi
    split_ifs at hi with hsame
    · cases hi
      exact ⟨hsame.1 ▸ hindex, hdata⟩
    · exact h.held i other hi
  stamps := by
    unfold Pages.keep
    cases pages.blocks.lookup index with
    | none => exact h.stamps.insert index data
    | some block => exact h.stamps.later
  fits := h.fits

theorem keepAll (h : Formed pages) {loaded : List (Nat × Bytes)}
    (hloaded : ∀ entry ∈ loaded, entry.1 < pages.pageCount ∧ entry.2.length = pages.pageSize) :
    Formed (pages.keepAll loaded) := by
  induction loaded generalizing pages with
  | nil => exact h
  | cons entry rest ih =>
      obtain ⟨hindex, hdata⟩ := hloaded entry List.mem_cons_self
      exact ih (h.keep hindex hdata) fun other hother => hloaded other (List.mem_cons_of_mem _ hother)

theorem makeRoom (h : Formed pages) (incoming : Nat) (stats : Stats) :
    Formed (pages.makeRoom incoming stats).1 := by
  have hdrops := drops_makeRoom pages incoming stats
  have hsame : ∀ i data, (pages.makeRoom incoming stats).1.block i = some data →
      pages.block i = some data := by
    intro i data hi
    rcases hdrops.block i with heq | ⟨-, -, hnone⟩
    · rw [← heq, hi]
    · rw [hnone] at hi
      cases hi
  refine ⟨hdrops.shape.pageSize ▸ h.size, fun i hi => ?_, fun i data hi => ?_, ?_, ?_⟩
  · rw [hdrops.dirty] at hi
    rcases hdrops.block i with heq | ⟨hclean, -⟩
    · rw [heq]
      exact h.dirty i hi
    · exact absurd hi hclean
  · rw [hdrops.pageCount, hdrops.shape.pageSize]
    exact h.held i data (hsame i data hi)
  · unfold Pages.makeRoom
    dsimp only
    split_ifs
    · exact h.stamps
    · exact h.stamps.retain fun index => index ∉ pages.oldest (pages.excess incoming)
  · unfold fileSize
    rw [hdrops.pageCount, hdrops.shape.pageSize]
    exact h.fits

theorem committed (h : Formed pages) : Formed pages.committed.2 where
  size := h.size
  dirty i hi := absurd hi (SortedSet.notMem_empty i)
  held := h.held
  stamps := h.stamps
  fits := h.fits

theorem emptied (h : Formed pages) {pageCount : Nat} (hcount : pageCount ≤ MAX_PAGE_COUNT) :
    Formed (pages.emptied pageCount) :=
  new h.size.1 h.size.2 hcount pages.blocksPerFetch pages.cap

-- The end of the last block that a range of the file touches.
theorem blockEnd {unit position : Nat} (hposition : position < 2 ^ 63) (hunit : unit ≤ MAX_PAGE_SIZE) :
    (position / unit + 1) * unit < 2 ^ 63 + MAX_PAGE_SIZE := by
  have hdiv := Nat.div_mul_le_self position unit
  rw [Nat.add_mul, Nat.one_mul]
  omega

theorem put (h : Formed pages) {position : Nat} {chunk : Bytes} (hposition : position < 2 ^ 63)
    (hfits : position % pages.pageSize + chunk.length ≤ pages.pageSize) :
    Formed (pages.put (position / pages.pageSize) (position % pages.pageSize) chunk) where
  size := h.size
  dirty i hi := by
    rw [block_put]
    split_ifs with hsame
    · simp
    · exact h.dirty i ((SortedSet.mem_insert.mp hi).resolve_left hsame)
  held i data hi := by
    rw [block_put] at hi
    rw [pageCount_put]
    split_ifs at hi with hsame
    · cases hi
      have hbase : ((pages.block (position / pages.pageSize)).getD (zeros pages.pageSize)).length =
          pages.pageSize := by
        cases hblock : pages.block (position / pages.pageSize) with
        | none => rw [Option.getD_none, length_zeros]
        | some data => exact (h.held _ data hblock).2
      exact ⟨by omega, by rw [length_overlay _ _ _ (by omega)]; exact hbase⟩
    · obtain ⟨hbelow, hlength⟩ := h.held i data hi
      exact ⟨by omega, hlength⟩
  stamps := h.stamps.insert _ _
  fits := by
    have hend := blockEnd hposition h.size.2
    have hold := h.fits
    unfold fileSize at hold ⊢
    rw [pageCount_put]
    rcases Nat.le_total pages.pageCount (position / pages.pageSize + 1) with hle | hle
    · rw [Nat.max_eq_right hle]
      exact hend
    · rw [Nat.max_eq_left hle]
      exact hold

theorem truncate (h : Formed pages) {size : Nat} (hsize : size < 2 ^ 63) :
    Formed (pages.truncate size) := by
  have hshape := shape_truncate pages size
  have hblock : ∀ i, (pages.truncate size).block i =
      if i < divCeil size pages.pageSize then pages.block i else none := fun i => by
    refine block_truncate_of_below size fun hheld => ?_
    obtain ⟨data, hdata⟩ := Option.ne_none_iff_exists'.mp hheld
    exact (h.held i data hdata).1
  refine ⟨hshape.pageSize ▸ h.size, fun i hi => ?_, fun i data hi => ?_, ?_, ?_⟩
  · have hbelow : i ∈ pages.dirty → i < pages.pageCount := by
      intro hin
      obtain ⟨data, hdata⟩ := Option.ne_none_iff_exists'.mp (h.dirty i hin)
      exact (h.held i data hdata).1
    obtain ⟨hin, hlt⟩ := (mem_dirty_truncate_of_below size hbelow).mp hi
    rw [hblock, if_pos hlt]
    exact h.dirty i hin
  · rw [hblock] at hi
    split_ifs at hi with hlt
    rw [pageCount_truncate, hshape.pageSize]
    exact ⟨hlt, (h.held i data hi).2⟩
  · unfold Pages.truncate
    dsimp only
    split_ifs
    · exact h.stamps.retain fun index => index < divCeil size pages.pageSize
    · exact h.stamps
  · unfold fileSize
    rw [pageCount_truncate, hshape.pageSize]
    have hle : divCeil size pages.pageSize * pages.pageSize ≤ size + pages.pageSize - 1 :=
      Nat.div_mul_le_self _ _
    have hmax := h.size.2
    have hpos := h.pos
    omega

-- The blocks in memory are distinct blocks of the file.
theorem held_le (h : Formed pages) : pages.held ≤ pages.pageCount := by
  have hsub : pages.blocks.keys ⊆ List.range pages.pageCount := by
    intro i hi
    obtain ⟨block, hblock⟩ := Option.isSome_iff_exists.mp (AList.lookup_isSome.mpr hi)
    exact List.mem_range.mpr (h.held i block.data (by rw [Pages.block, hblock]; rfl)).1
  have hlength := (List.subperm_of_subset pages.blocks.keys_nodup hsub).length_le
  rwa [List.length_range] at hlength

theorem pageCount_lt (h : Formed pages) : pages.pageCount < 2 ^ 55 := by
  have hmin : pages.pageCount * MIN_PAGE_SIZE ≤ pages.fileSize := Nat.mul_le_mul_left _ h.size.1
  have hfits := h.fits
  unfold MIN_PAGE_SIZE at hmin
  unfold MAX_PAGE_SIZE at hfits
  omega

end Formed

-- The run is not empty, lies below the page count and no block of it is in memory. The sum
-- that `make_room` computes for it does not overflow.
structure RequestProper (request : Request) : Prop where
  asks : request.pages.Asks request.first request.count
  fits : request.pages.held + request.count < 2 ^ 64

-- A state of the pages over a source whose requests are noted.
structure Safe (unit : Nat) (h : Held (τ × List Request)) : Prop where
  formed : Formed h.pages
  size : h.pages.pageSize = unit
  asked : ∀ request ∈ h.source.2, RequestProper request

section Run

variable {source : Source τ} {unit : Nat}

theorem fill_safe (horderly : source.Orderly) {h : Held (τ × List Request)} (hsafe : Safe unit h)
    {first count : Nat} (hasks : h.pages.Asks first count) :
    (source.noting.fill first count h).1 ≠ .hang ∧ Safe unit (source.noting.fill first count h).2 := by
  obtain ⟨hends, loaded, hpages, hloaded⟩ := horderly first count ⟨h.pages, h.stats, h.source.1⟩ hasks
  have hbelow := hasks.below
  have hformed : Formed (h.pages.keepAll loaded) := by
    refine hsafe.formed.keepAll fun entry hentry => ?_
    obtain ⟨⟨hlo, hhi⟩, hlength⟩ := hloaded entry hentry
    exact ⟨by omega, hlength⟩
  refine ⟨hends, hpages ▸ hformed, ?_, ?_⟩
  · have hshape := (shape_keepAll h.pages loaded).pageSize
    rw [← hpages] at hshape
    exact hshape.trans hsafe.size
  · intro request hrequest
    rcases List.mem_cons.mp hrequest with rfl | hrequest
    · have hheld := hsafe.formed.held_le
      have hcount := hsafe.formed.pageCount_lt
      exact ⟨hasks, by simp only; omega⟩
    · exact hsafe.asked request hrequest

theorem ensureLoaded_safe (horderly : source.Orderly) (index : Nat) :
    Triple (Safe unit) (ensureLoaded source.noting index) (Stops (Safe unit) fun _ => Safe unit) := by
  intro h hsafe
  simp only [ensureLoaded, gets_bind]
  by_cases hhas : h.pages.has index
  · simp only [hhas, if_true]
    exact ⟨hsafe.formed.touch index, hsafe.size, hsafe.asked⟩
  by_cases hw : h.pages.whole
  · simp only [hhas, hw, if_true]
    exact hsafe
  simp only [hhas, hw, if_false, Bool.false_eq_true]
  generalize hper : h.pages.perFetch = perFetch
  by_cases hcount : h.pages.missing index perFetch = 0
  · simp only [hcount, if_true]
    exact hsafe
  simp only [hcount, if_false, modify_bind]
  rw [Bool.not_eq_true] at hw
  have hasks := (asks_missing hw index perFetch hcount).makeRoom (h.pages.missing index perFetch) h.stats
  have hroom : Safe unit (h.makeRoom (h.pages.missing index perFetch)) :=
    ⟨hsafe.formed.makeRoom _ _, (shape_makeRoom _ _ _).pageSize.trans hsafe.size, hsafe.asked⟩
  obtain ⟨hends, hafter⟩ := fill_safe horderly hroom hasks
  generalize source.noting.fill index _ _ = run at hends hafter ⊢
  rcases run with ⟨_ | _ | _, h'⟩
  · exact hafter
  · exact hafter
  · exact absurd rfl hends

theorem safe_proceeds (horderly : source.Orderly) (hpos : 0 < unit) :
    Proceeds unit (Safe unit) (fun _ => False) source.noting where
  pos := hpos
  pageSize _ h := h.size
  block _ i data h hblock := (h.formed.held i data hblock).2.trans h.size
  count _ h := ⟨h.formed, h.size, h.asked⟩
  load index := settles_iff_stops.mpr (ensureLoaded_safe horderly index)

theorem read_safe (horderly : source.Orderly) (offset length : Nat) :
    Triple (Safe unit) (read source.noting offset length) (Stops (Safe unit) fun _ => Safe unit) := by
  intro h hsafe
  have hgo := safe_proceeds horderly (hsafe.size ▸ hsafe.formed.pos)
  exact settles_iff_stops.mp (read_settles hgo offset length) h hsafe

theorem write_safe (horderly : source.Orderly) {offset : Nat} {data : Bytes}
    (hrange : offset + data.length < 2 ^ 63) :
    Triple (Safe unit) (write source.noting offset data) (Stops (Safe unit) fun _ => Safe unit) := by
  intro h hsafe
  have hgo := safe_proceeds horderly (hsafe.size ▸ hsafe.formed.pos)
  refine settles_iff_stops.mp (write_settles hgo offset data fun position chunk hend hfits h hsafe => ?_) h hsafe
  obtain ⟨hformed, rfl, hasked⟩ := hsafe
  exact ⟨hformed.put (by omega) hfits, rfl, hasked⟩

-- SQLite's offsets, and what the other users of `Pages` keep to.
def Call.Admissible (pages : Pages) : Call → Prop
  | .Keep index data => index < pages.pageCount ∧ data.length = pages.pageSize
  | .Read offset length => offset + length < 2 ^ 63
  | .Write offset data => offset + data.length < 2 ^ 63
  | .Truncate size => size < 2 ^ 63
  | .Emptied pageCount => pageCount ≤ MAX_PAGE_COUNT
  | .Committed | .MakeRoom _ => True

def Admissible (source : Source τ) : List Call → Held τ → Prop
  | [], _ => True
  | call :: rest, h => call.Admissible h.pages ∧ Admissible source rest (call.run source h).2

theorem call_safe (horderly : source.Orderly) {h : Held (τ × List Request)} (hsafe : Safe unit h)
    {call : Call} (hcall : call.Admissible h.pages) :
    (call.run source.noting h).1 ≠ .hang ∧ Safe unit (call.run source.noting h).2 := by
  cases call with
  | Keep index data =>
      exact ⟨nofun, hsafe.formed.keep hcall.1 hcall.2, hsafe.size, hsafe.asked⟩
  | Read offset length =>
      have hread := read_safe horderly offset length h hsafe
      rw [Call.run, bind_apply]
      generalize read source.noting offset length h = run at hread ⊢
      rcases run with ⟨_ | _ | _, h'⟩
      · exact ⟨nofun, hread⟩
      · exact ⟨nofun, hread⟩
      · exact hread.elim
  | Write offset data =>
      have hwrite := write_safe horderly hcall h hsafe
      rw [Call.run, bind_apply]
      generalize write source.noting offset data h = run at hwrite ⊢
      rcases run with ⟨_ | _ | _, h'⟩
      · exact ⟨nofun, hwrite⟩
      · exact ⟨nofun, hwrite⟩
      · exact hwrite.elim
  | Truncate size =>
      exact ⟨nofun, hsafe.formed.truncate hcall, (shape_truncate _ _).pageSize.trans hsafe.size,
        hsafe.asked⟩
  | Committed => exact ⟨nofun, hsafe.formed.committed, hsafe.size, hsafe.asked⟩
  | MakeRoom incoming =>
      exact ⟨nofun, hsafe.formed.makeRoom incoming h.stats,
        (shape_makeRoom _ _ _).pageSize.trans hsafe.size, hsafe.asked⟩
  | Emptied pageCount => exact ⟨nofun, hsafe.formed.emptied hcall, hsafe.size, hsafe.asked⟩

theorem calls_safe (horderly : source.Orderly) {calls : List Call} {h : Held (τ × List Request)}
    (hsafe : Safe unit h) (hcalls : Admissible source.noting calls h) :
    Safe unit (after source.noting calls h) ∧
      ∀ entry ∈ history source.noting calls h, entry.2 ≠ .hang := by
  induction calls generalizing h with
  | nil => exact ⟨hsafe, nofun⟩
  | cons call rest ih =>
      obtain ⟨hends, hnext⟩ := call_safe horderly hsafe hcalls.1
      obtain ⟨hlast, hrest⟩ := ih hnext hcalls.2
      refine ⟨hlast, fun entry hentry => ?_⟩
      rcases List.mem_cons.mp hentry with rfl | hentry
      · exact hends
      · exact hrest entry hentry

end Run

-- The positions that a read or a write computes, and one more than the index of their blocks.
def Call.InRange (pageSize : Nat) : Call → Prop
  | .Read offset length => ∀ done ≤ length,
      offset + done < 2 ^ 64 ∧ (offset + done) / pageSize + 1 < 2 ^ 64
  | .Write offset data => ∀ done ≤ data.length,
      offset + done < 2 ^ 64 ∧ (offset + done) / pageSize + 1 < 2 ^ 64
  | _ => True

theorem inRange_of_admissible {source : Source τ} {calls : List Call} {h : Held τ}
    (hcalls : Admissible source calls h) (pageSize : Nat) : ∀ call ∈ calls, call.InRange pageSize := by
  have hspan : ∀ offset length : Nat, offset + length < 2 ^ 63 → ∀ done ≤ length,
      offset + done < 2 ^ 64 ∧ (offset + done) / pageSize + 1 < 2 ^ 64 := by
    intro offset length hrange done hdone
    have hdiv := Nat.div_le_self (offset + done) pageSize
    omega
  induction calls generalizing h with
  | nil => exact nofun
  | cons first rest ih =>
      intro call hcall
      rcases List.mem_cons.mp hcall with rfl | hcall
      · cases call with
        | Read offset length => exact hspan offset length hcalls.1
        | Write offset data => exact hspan offset data.length hcalls.1
        | _ => trivial
      · exact ih hcalls.2 call hcall

-- Pages for a file of `pageCount` blocks, before the source was asked for anything.
def fresh (pageSize pageCount : Nat) (blocksPerFetch : Option PerFetch) (cap : Option Nat) (stats : Stats)
    (state : τ) : Held (τ × List Request) :=
  ⟨new pageSize pageCount blocksPerFetch cap, stats, (state, [])⟩

-- Whatever is called in whatever order, the pages stay well formed, the source is asked for
-- missing blocks of the file only, nothing panics and nothing overflows.
theorem pages_stay_formed (source : Source τ) (horderly : source.Orderly) (pageSize pageCount : Nat)
    (hmin : MIN_PAGE_SIZE ≤ pageSize) (hmax : pageSize ≤ MAX_PAGE_SIZE)
    (hcount : pageCount ≤ MAX_PAGE_COUNT) (blocksPerFetch : Option PerFetch) (cap : Option Nat)
    (stats : Stats) (state : τ) (calls : List Call)
    (hcalls : Admissible source.noting calls (fresh pageSize pageCount blocksPerFetch cap stats state)) :
    let first := fresh pageSize pageCount blocksPerFetch cap stats state
    let last := after source.noting calls first
    Formed last.pages ∧ last.pages.dirtyBlocks.map Prod.fst = last.pages.dirty.elems ∧
      (∀ request ∈ last.source.2, RequestProper request) ∧
      (∀ entry ∈ history source.noting calls first, entry.2 ≠ .hang) ∧
      last.pages.fileSize < 2 ^ 64 ∧ ∀ call ∈ calls, call.InRange pageSize := by
  intro first last
  have hfirst : Safe pageSize first :=
    ⟨Formed.new hmin hmax hcount blocksPerFetch cap, rfl, nofun⟩
  obtain ⟨hlast, hends⟩ := calls_safe horderly hfirst hcalls
  have hfits : last.pages.fileSize < 2 ^ 64 := hlast.formed.fits.trans (by decide)
  exact ⟨hlast.formed, map_fst_dirtyBlocks hlast.formed.dirty, hlast.asked, hends, hfits,
    inRange_of_admissible hcalls pageSize⟩

-- A source that answers every request with blocks of zeros.
def blank : Source Unit where
  fill first count := Prog.modify fun h =>
    h.mapPages (keepAll · (loadRun (fun _ => zeros h.pages.pageSize) first count))

theorem blank_orderly : blank.Orderly := by
  intro first count h _
  refine ⟨nofun, _, rfl, fun entry hentry => ?_⟩
  obtain ⟨hdata, hrun⟩ := mem_loadRun.mp hentry
  exact ⟨hrun, by rw [hdata, length_zeros]⟩

theorem pages_stay_formed_blank :
    let first := fresh 512 3 (some ⟨2, 64⟩) (some 1) {} ()
    let last := after blank.noting [.Write 1000 [7], .Read 0 2000, .Committed, .Truncate 600] first
    Formed last.pages ∧ last.pages.fileSize < 2 ^ 64 := by
  have h := pages_stay_formed blank blank_orderly 512 3 (by decide) (by decide) (by decide) (some ⟨2, 64⟩)
    (some 1) {} () [.Write 1000 [7], .Read 0 2000, .Committed, .Truncate 600]
    ⟨(by decide : 1000 + 1 < 2 ^ 63), (by decide : 0 + 2000 < 2 ^ 63), trivial,
      (by decide : 600 < 2 ^ 63), trivial⟩
  exact ⟨h.1, h.2.2.2.2.1⟩

end Pages

end RemoteVfs
