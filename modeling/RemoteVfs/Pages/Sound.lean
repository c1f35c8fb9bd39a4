import RemoteVfs.Pages.Lemmas
import Mathlib.Data.List.TakeWhile

namespace RemoteVfs.Pages

open Base Base.Prog

-- The blocks in memory fit the file, and those that are not dirty are the stored ones.
structure Sound (stored : Nat → Bytes) (pages : Pages) : Prop where
  pos : 0 < pages.pageSize
  sized : ∀ i data, pages.block i = some data → data.length = pages.pageSize
  below : ∀ i, pages.block i ≠ none → i < pages.pageCount
  dirtyHeld : ∀ i ∈ pages.dirty, pages.block i ≠ none
  clean : ∀ i data, i ∉ pages.dirty → pages.block i = some data → data = stored i
  storedSized : ∀ i, (stored i).length = pages.pageSize

-- What a block that is not in memory reads as.
def fallback (stored : Nat → Bytes) (pages : Pages) (i : Nat) : Bytes :=
  if pages.whole then zeros pages.pageSize else stored i

def content (stored : Nat → Bytes) (pages : Pages) (i : Nat) : Bytes :=
  (pages.block i).getD (pages.fallback stored i)

variable {stored : Nat → Bytes} {a b : Pages}

theorem Sound.reloads (hs : Sound stored a) (hr : Reloads stored a b) : Sound stored b where
  pos := hr.pageSize ▸ hs.pos
  sized i data h := by
    rw [hr.pageSize]
    rcases hr.block i with hi | ⟨-, -, hi | ⟨hi, -⟩⟩
    · exact hs.sized i data (hi ▸ h)
    · rw [hi] at h; cases h
    · rw [hi] at h; cases h; exact hs.storedSized i
  below i h := by
    rw [hr.pageCount]
    rcases hr.block i with hi | ⟨-, -, hi | ⟨-, hi⟩⟩
    · exact hs.below i (hi ▸ h)
    · exact absurd hi h
    · exact hi
  dirtyHeld i h := by
    rw [hr.dirty] at h
    rcases hr.block i with hi | ⟨hd, -⟩
    · rw [hi]; exact hs.dirtyHeld i h
    · exact absurd h hd
  clean i data hd h := by
    rw [hr.dirty] at hd
    rcases hr.block i with hi | ⟨-, -, hi | ⟨hi, -⟩⟩
    · exact hs.clean i data hd (hi ▸ h)
    · rw [hi] at h; cases h
    · rw [hi] at h; cases h; rfl
  storedSized := hr.pageSize ▸ hs.storedSized

theorem fallback_reloads (hr : Reloads stored a b) (i : Nat) :
    b.fallback stored i = a.fallback stored i := by
  simp only [fallback, hr.whole, hr.pageSize]

-- A clean block is its own fallback, so memory and store cannot be told apart.
theorem content_reloads (hs : Sound stored a) (hr : Reloads stored a b) (i : Nat) :
    b.content stored i = a.content stored i := by
  unfold content
  rw [fallback_reloads hr]
  rcases hr.block i with hi | ⟨hd, hw, hi⟩
  · rw [hi]
  · have ha : (a.block i).getD (a.fallback stored i) = stored i := by
      cases h : a.block i with
      | none => simp [fallback, hw]
      | some data => simp [hs.clean i data hd h]
    rw [ha]
    rcases hi with hi | ⟨hi, -⟩
    · simp [hi, fallback, hw]
    · simp [hi]

theorem length_content (hs : Sound stored a) (i : Nat) :
    (a.content stored i).length = a.pageSize := by
  unfold content
  cases h : a.block i with
  | some data => exact hs.sized i data h
  | none =>
      simp only [Option.getD_none, fallback]
      split_ifs
      · exact length_zeros _
      · exact hs.storedSized i

-- What `fill` is asked for.
structure Asks (pages : Pages) (first count : Nat) : Prop where
  limited : pages.whole = false
  nonempty : 0 < count
  below : first + count ≤ pages.pageCount
  absent : ∀ i, first ≤ i → i < first + count → pages.block i = none ∧ i ∉ pages.dirty

-- The blocks of a run, as a source returns them.
def loadRun (blocks : Nat → Bytes) (first count : Nat) : List (Nat × Bytes) :=
  (List.range' first count).map fun i => (i, blocks i)

theorem mem_loadRun {blocks : Nat → Bytes} {first count : Nat} {entry : Nat × Bytes} :
    entry ∈ loadRun blocks first count ↔
      entry.2 = blocks entry.1 ∧ first ≤ entry.1 ∧ entry.1 < first + count := by
  simp only [loadRun, List.mem_map, List.mem_range'_1]
  constructor
  · rintro ⟨i, hi, rfl⟩
    exact ⟨rfl, hi⟩
  · rintro ⟨hdata, hi⟩
    exact ⟨entry.1, hi, by rw [← hdata]⟩

-- A source that answers with the stored blocks.
theorem Asks.loaded {pages : Pages} {first count : Nat} (h : pages.Asks first count) :
    Reloads stored pages (pages.keepAll (loadRun stored first count)) ∧
      (pages.keepAll (loadRun stored first count)).block first ≠ none := by
  have hbelow := h.below
  have hpos := h.nonempty
  refine ⟨Reloads.keepAll h.limited _ fun entry hentry => ?_, ?_⟩
  · obtain ⟨hdata, hlo, hhi⟩ := mem_loadRun.mp hentry
    exact ⟨hdata, (h.absent _ hlo hhi).2, by omega⟩
  · exact (block_keepAll_ne_none _ _ _).mpr
      (Or.inr ⟨stored first, mem_loadRun.mpr ⟨rfl, le_refl _, by omega⟩⟩)

theorem Sound.new {pageSize pageCount : Nat} {blocksPerFetch : Option PerFetch} {cap : Option Nat}
    (hpos : 0 < pageSize) (hstored : ∀ i, (stored i).length = pageSize) :
    Sound stored (new pageSize pageCount blocksPerFetch cap) where
  pos := hpos
  sized i data h := by cases h
  below i h := absurd rfl h
  dirtyHeld i h := absurd h (SortedSet.notMem_empty i)
  clean i data _ h := by cases h
  storedSized := hstored

theorem Sound.keep (hs : Sound stored a) {i : Nat} (hi : i < a.pageCount) :
    Sound stored (a.keep i (stored i)) where
  pos := hs.pos
  sized j data h := by
    rw [block_keep] at h
    split_ifs at h
    · cases h; exact hs.storedSized i
    · exact hs.sized j data h
  below j h := by
    rw [block_keep] at h
    split_ifs at h with hj
    · exact hj.1 ▸ hi
    · exact hs.below j h
  dirtyHeld j h := by
    rw [block_keep]
    split_ifs
    · simp
    · exact hs.dirtyHeld j h
  clean j data hd h := by
    rw [block_keep] at h
    split_ifs at h with hj
    · cases h; rw [hj.1]
    · exact hs.clean j data hd h
  storedSized := hs.storedSized

theorem keepAll_same (loaded : List (Nat × Bytes)) :
    (a.keepAll loaded).dirty = a.dirty ∧ (a.keepAll loaded).pageCount = a.pageCount := by
  induction loaded generalizing a with
  | nil => exact ⟨rfl, rfl⟩
  | cons entry rest ih => exact ih (a := a.keep entry.1 entry.2)

theorem Sound.keepAll (hs : Sound stored a) {loaded : List (Nat × Bytes)}
    (h : ∀ entry ∈ loaded, entry.2 = stored entry.1 ∧ entry.1 < a.pageCount) :
    Sound stored (a.keepAll loaded) := by
  induction loaded generalizing a with
  | nil => exact hs
  | cons entry rest ih =>
      obtain ⟨hdata, hi⟩ := h entry List.mem_cons_self
      have hstep : Sound stored (a.keep entry.1 entry.2) := hdata ▸ hs.keep hi
      exact ih hstep fun other hother => h other (List.mem_cons_of_mem _ hother)

-- The blocks that are stored after a commit of the pages.
def Published (stored : Nat → Bytes) (pages : Pages) (stored' : Nat → Bytes) : Prop :=
  ∀ i, stored' i = if i < pages.pageCount then
    if i ∈ pages.dirty then (pages.block i).getD (stored i) else stored i
  else zeros pages.pageSize

-- Publishing makes the dirty blocks stored ones, so clearing the dirty set loses nothing.
theorem Sound.publish {stored' : Nat → Bytes} (hs : Sound stored a) (hp : Published stored a stored') :
    Sound stored' a.committed.2 where
  pos := hs.pos
  sized := hs.sized
  below := hs.below
  dirtyHeld i hi := absurd hi (SortedSet.notMem_empty i)
  clean i data _ hb := by
    have hi := hs.below i (by rw [show a.block i = some data from hb]; simp)
    rw [hp i, if_pos hi]
    split_ifs with hd
    · rw [show a.block i = some data from hb, Option.getD_some]
    · exact hs.clean i data hd hb
  storedSized i := by
    rw [hp i]
    split_ifs with hi hd
    · cases hb : a.block i with
      | none => exact hs.storedSized i
      | some data => exact hs.sized i data hb
    · exact hs.storedSized i
    · exact length_zeros _

theorem content_publish {stored' : Nat → Bytes} (hs : Sound stored a) (hp : Published stored a stored')
    {i : Nat} (hi : i < a.pageCount) : a.committed.2.content stored' i = a.content stored i := by
  have hblock : a.committed.2.block i = a.block i := rfl
  unfold content
  rw [hblock]
  cases hb : a.block i with
  | some data => rfl
  | none =>
      have hd : i ∉ a.dirty := fun hd => hs.dirtyHeld i hd hb
      have hstored : stored' i = stored i := by rw [hp i, if_pos hi, if_neg hd]
      simp only [Option.getD_none, fallback, hstored]
      rfl

theorem takeWhile_range' (p : Nat → Bool) (start count : Nat) :
    (List.range' start count).takeWhile p =
      List.range' start ((List.range' start count).takeWhile p).length := by
  induction count generalizing start with
  | zero => simp
  | succ count ih =>
      by_cases h : p start
      · simp only [List.range'_succ, List.takeWhile_cons, h, if_true, List.length_cons]
        rw [← ih]
      · simp [List.range'_succ, h]

theorem mem_missing (pages : Pages) {index perFetch i : Nat} (hlo : index ≤ i)
    (hhi : i < index + pages.missing index perFetch) : pages.has i = false := by
  have hmem : i ∈ (List.range' index (min perFetch (pages.pageCount - index))).takeWhile
      fun i => !pages.has i := by
    rw [takeWhile_range']
    exact List.mem_range'_1.mpr ⟨hlo, hhi⟩
  simpa using List.mem_takeWhile_imp hmem

theorem missing_le_min (pages : Pages) (index perFetch : Nat) :
    pages.missing index perFetch ≤ min perFetch (pages.pageCount - index) := by
  have h := (List.takeWhile_prefix (fun i => !pages.has i)
    (l := List.range' index (min perFetch (pages.pageCount - index)))).length_le
  rwa [List.length_range'] at h

theorem missing_le (pages : Pages) (index perFetch : Nat) :
    pages.missing index perFetch ≤ pages.pageCount - index :=
  (missing_le_min pages index perFetch).trans (Nat.min_le_right _ _)

theorem perFetch_pos {pages : Pages} (h : Fetches pages.blocksPerFetch) : 0 < pages.perFetch := by
  unfold Fetches at h
  unfold Pages.perFetch
  cases hcast : pages.blocksPerFetch.map PerFetch.asUsize with
  | none => simp [REFILL_BLOCKS]
  | some n =>
      rw [hcast] at h
      exact Nat.pos_of_ne_zero fun hzero => h (congrArg some hzero)

theorem missing_pos (pages : Pages) {index perFetch : Nat} (hp : 0 < perFetch)
    (hi : index < pages.pageCount) (hh : pages.has index = false) :
    0 < pages.missing index perFetch := by
  unfold missing
  obtain ⟨n, hn⟩ : ∃ n, min perFetch (pages.pageCount - index) = n + 1 :=
    ⟨min perFetch (pages.pageCount - index) - 1, by omega⟩
  simp [hn, List.range'_succ, hh]

end Pages

-- A source of the stored blocks: it keeps its own invariant, puts nothing into memory
-- but stored blocks of the run it is asked for, and leaves out a block only if that
-- block is blank. `fails` bounds the ways in which it may fail, `A` the pages for which it
-- is asked.
def Source.ServesIn {τ : Type} (source : Source τ) (stored : Nat → Bytes) (A : Pages → Prop)
    (I : τ → Prop) (fails : Option Broken → Prop) : Prop :=
  ∀ (before : Pages) (first count : Nat), Pages.Sound stored before →
    A before → before.Asks first count →
    Base.Prog.Triple (fun h => I h.source ∧ h.pages = before) (source.fill first count)
      fun o h => I h.source ∧ Pages.Reloads stored before h.pages ∧
        o.Meets fails fun _ => h.pages.block first ≠ none ∨ stored first = zeros before.pageSize

def Source.Serves {τ : Type} (source : Source τ) (stored : Nat → Bytes) (stable : Nat)
    (I : τ → Prop) (fails : Option Broken → Prop) : Prop :=
  source.ServesIn stored (fun before => before.stablePageCount = stable) I fails

namespace Pages

open Base Base.Prog

variable {τ : Type} {source : Source τ} {stored : Nat → Bytes} {A : Pages → Prop} {I : τ → Prop}
  {fails : Option Broken → Prop}

-- Loading blocks does not lead out of `A`.
def Lasts (stored : Nat → Bytes) (A : Pages → Prop) : Prop :=
  ∀ before after, Reloads stored before after → A before → A after

theorem lasts_stable (stored : Nat → Bytes) (stable : Nat) :
    Lasts stored fun pages => pages.stablePageCount = stable :=
  fun _ _ hr h => hr.stable.trans h

theorem Asks.makeRoom {pages : Pages} {first count : Nat} (h : pages.Asks first count)
    (incoming : Nat) (stats : Stats) : (pages.makeRoom incoming stats).1.Asks first count := by
  have hr : Reloads (fun _ => []) pages (pages.makeRoom incoming stats).1 :=
    Reloads.makeRoom pages incoming stats
  refine ⟨hr.whole.trans h.limited, h.nonempty, hr.pageCount ▸ h.below, ?_⟩
  intro i hlo hhi
  obtain ⟨hb, hd⟩ := h.absent i hlo hhi
  refine ⟨?_, hr.dirty ▸ hd⟩
  unfold Pages.makeRoom
  dsimp only
  split_ifs
  · exact hb
  · simp [block_evict, hb]

-- The state after a load, seen from the state before it.
def After (stored : Nat → Bytes) (I : τ → Prop) (before : Pages) (h : Held τ) : Prop :=
  I h.source ∧ Reloads stored before h.pages

theorem ensureLoaded_spec (hserves : source.ServesIn stored A I fails) (hlasts : Lasts stored A)
    {before : Pages} (hs : Sound stored before) (hA : A before) {index : Nat}
    (hi : index < before.pageCount) :
    Triple (fun h => I h.source ∧ h.pages = before) (ensureLoaded source index)
      fun o h => After stored I before h ∧
        o.Meets fails fun _ => Fetches before.blocksPerFetch → h.pages.block index ≠ none ∨
          before.fallback stored index = zeros before.pageSize := by
  rintro h ⟨hI, rfl⟩
  simp only [ensureLoaded, gets_bind]
  by_cases hhas : h.pages.has index
  · simp only [hhas, if_true, modify_apply]
    refine ⟨⟨hI, Reloads.touch _ _⟩, fun _ => Or.inl ?_⟩
    have hin : h.pages.block index ≠ none := by
      intro hn
      have hd : index ∈ h.pages.dirty := by
        by_contra hd
        rw [(has_eq_false_iff _ _).mpr ⟨hn, hd⟩] at hhas
        cases hhas
      exact hs.dirtyHeld index hd hn
    simpa [Held.mapPages, block_touch] using hin
  · rw [Bool.not_eq_true] at hhas
    by_cases hw : h.pages.whole
    · simp only [hhas, hw, if_true, Bool.false_eq_true, if_false, pure_apply]
      exact ⟨⟨hI, Reloads.refl _⟩, fun _ => Or.inr (by simp [fallback, hw])⟩
    · rw [Bool.not_eq_true] at hw
      by_cases hcount : h.pages.missing index h.pages.perFetch = 0
      · -- Nothing is asked for only if the cast left 0.
        simp only [hhas, hw, hcount, Bool.false_eq_true, if_false, if_true, pure_apply]
        refine ⟨⟨hI, Reloads.refl _⟩, fun hfetches => ?_⟩
        exact absurd hcount (Nat.ne_of_gt (missing_pos h.pages (perFetch_pos hfetches) hi hhas))
      have hle := missing_le h.pages index h.pages.perFetch
      have hasks : h.pages.Asks index (h.pages.missing index h.pages.perFetch) :=
        ⟨hw, by omega, by omega,
          fun i hlo hhi => (has_eq_false_iff _ _).mp (mem_missing h.pages hlo hhi)⟩
      simp only [hhas, hw, Bool.false_eq_true, if_false, hcount, modify_bind]
      have hroom : Reloads stored h.pages (h.makeRoom (h.pages.missing index h.pages.perFetch)).pages :=
        Reloads.makeRoom _ _ _
      obtain ⟨hI', hr, hm⟩ := hserves _ index _ (hs.reloads hroom) (hlasts _ _ hroom hA)
        (hasks.makeRoom _ h.stats) (h.makeRoom (h.pages.missing index h.pages.perFetch)) ⟨hI, rfl⟩
      refine ⟨⟨hI', hroom.trans hr⟩, ?_⟩
      refine hm.imp fun _ hheld _ => ?_
      simpa only [fallback, hw, Bool.false_eq_true, if_false, ← hroom.pageSize] using hheld

end Pages

end RemoteVfs
