import RemoteVfs.Pages.Flat

namespace RemoteVfs.Pages

open Base Base.Prog

-- Committed blocks behind the pages: what a fill loads from and a commit publishes to.
-- Blocks never committed, or cut off by a commit, are zeros.
structure BlockStore (τ : Type) where
  source : Source τ
  stored : τ → Nat → Bytes
  publish : Pages → τ → τ
  serves : ∀ t stable,
    source.Serves (stored t) stable (fun t' => stored t' = stored t) fun _ => True
  published : ∀ pages t, Published (stored t) pages (stored (publish pages t))

inductive Op where
  | Read (offset length : Nat)
  | Write (offset : Nat) (data : Bytes)
  | Truncate (size : Nat)
  | Commit
  deriving DecidableEq, Repr

-- Only a read answers with something: the bytes and whether all of them are inside the file.
abbrev Answer := Option (Bytes × Bool)

variable {τ : Type} (store : BlockStore τ)

def commit : Prog (Held τ) Broken Unit := do
  Prog.modify fun h =>
    { h with source := store.publish h.pages h.source, pages := h.pages.committed.2 }
  Prog.modify (Held.makeRoom 0)

def Op.run : Op → Prog (Held τ) Broken Answer
  | .Read offset length => do return some (← read store.source offset length)
  | .Write offset data => do write store.source offset data; return none
  | .Truncate size => do Prog.modify (Held.mapPages (truncate · size)); return none
  | .Commit => do commit store; return none

def transcript : List Op → Held τ → List (Op × Outcome Broken Answer)
  | [], _ => []
  | op :: rest, h => (op, (op.run store h).1) :: transcript rest (op.run store h).2

-- One step of the plain array. A failed write has overlaid some first part of its data.
def FlatStep (unit : Nat) (hu : 0 < unit) (file : FlatFile UInt8) (op : Op)
    (o : Outcome Broken Answer) (next : FlatFile UInt8) : Prop :=
  match op with
  | .Read offset length => next = file ∧ ∀ value, o = .ok value → value = some (file.read offset length)
  | .Write offset data => (∃ part, next = file.write unit hu offset (data.take part)) ∧
      ∀ value, o = .ok value → next = file.write unit hu offset data
  | .Truncate size => next = file.truncate unit size
  | .Commit => next = file

def Explained (unit : Nat) (hu : 0 < unit) :
    FlatFile UInt8 → List (Op × Outcome Broken Answer) → Prop
  | _, [] => True
  | file, (op, o) :: rest => ∃ next, FlatStep unit hu file op o next ∧ Explained unit hu next rest

-- The pages right after opening: some blocks of the store, all of them if nothing will be
-- loaded later.
structure Opened (h : Held τ) : Prop where
  sound : Sound (store.stored h.source) h.pages
  clean : ∀ i, i ∉ h.pages.dirty
  preloaded : h.pages.whole → ∀ i < h.pages.pageCount,
    h.pages.block i = some (store.stored h.source i)

-- Growing the file exposes no block that the store still has content for. Pages that were
-- preloaded without a memory limit never load, so there nothing is asked.
def Op.Blank (op : Op) (h : Held τ) : Prop :=
  match op with
  | .Write offset data => data ≠ [] →
      Clear (store.stored h.source) h.pages (offset / h.pages.pageSize)
  | .Truncate size => Clear (store.stored h.source) h.pages (divCeil size h.pages.pageSize)
  | _ => True

def BlankRun : List Op → Held τ → Prop
  | [], _ => True
  | op :: rest, h => op.Blank store h ∧ BlankRun rest (op.run store h).2

-- The pages stand for the file.
structure Shows (unit : Nat) (file : FlatFile UInt8) (h : Held τ) : Prop where
  sound : Sound (store.stored h.source) h.pages
  unit : h.pages.pageSize = unit
  fetches : Fetches h.pages.blocksPerFetch
  file : h.pages.file (store.stored h.source) = file

variable {store} {unit : Nat} {file : FlatFile UInt8} {h : Held τ}

theorem Opened.shows (ho : Opened store h) (hfetches : Fetches h.pages.blocksPerFetch) :
    Shows store h.pages.pageSize
      (.ofBlocks h.pages.pageSize h.pages.pageCount (store.stored h.source)) h where
  sound := ho.sound
  unit := rfl
  fetches := hfetches
  file := by
    apply FlatFile.ofBlocks_congr ho.sound.pos
    intro i hi
    unfold content fallback
    split_ifs with hw
    · simp [ho.preloaded hw i hi]
    · cases hb : h.pages.block i with
      | none => rfl
      | some data => exact ho.sound.clean i data (ho.clean i) hb

theorem Shows.of_reloads {h' : Held τ} (hs : Shows store unit file h)
    (hstored : store.stored h'.source = store.stored h.source)
    (hr : Reloads (store.stored h.source) h.pages h'.pages) : Shows store unit file h' where
  sound := hstored ▸ hs.sound.reloads hr
  unit := hr.pageSize.trans hs.unit
  fetches := hr.perFetch ▸ hs.fetches
  file := by rw [hstored, file_reloads hs.sound hr, hs.file]

private theorem serves_here (store : BlockStore τ) (h : Held τ) :
    store.source.Serves (store.stored h.source) h.pages.stablePageCount
      (fun t => store.stored t = store.stored h.source) fun _ => True :=
  store.serves h.source h.pages.stablePageCount

theorem read_shows (hs : Shows store unit file h) (hu : 0 < unit) (offset length : Nat) :
    ∃ next, FlatStep unit hu file (.Read offset length) ((Op.Read offset length).run store h).1 next ∧
      Shows store unit next ((Op.Read offset length).run store h).2 := by
  have hread := read_spec (serves_here store h) (lasts_stable _ _) hs.sound rfl offset length h ⟨rfl, Reloads.refl _⟩
  simp only [Op.run, bind_apply]
  generalize read store.source offset length h = run at hread ⊢
  rcases run with ⟨value | reason | _, h'⟩ <;> obtain ⟨⟨hstored, hr⟩, hm⟩ := hread
  · refine ⟨file, ⟨rfl, ?_⟩, hs.of_reloads hstored hr⟩
    rintro _ ⟨⟩
    rw [← hs.file]
    exact congrArg some (hm hs.fetches)
  · exact ⟨file, ⟨rfl, by rintro _ ⟨⟩⟩, hs.of_reloads hstored hr⟩
  · exact ⟨file, ⟨rfl, by rintro _ ⟨⟩⟩, hs.of_reloads hstored hr⟩

theorem WriteSoFar.shows {h' : Held τ} {offset done : Nat} {data : Bytes}
    (hs : Shows store unit file h) (hstored : store.stored h'.source = store.stored h.source)
    (hw : WriteSoFar (store.stored h.source) h.pages offset data done h'.pages)
    (hclear : Clear (store.stored h.source) h.pages (offset / h.pages.pageSize)) (hu : 0 < unit) :
    Shows store unit (file.write unit hu offset (data.take done)) h' where
  sound := hstored ▸ hw.sound
  unit := hw.shape.pageSize.trans hs.unit
  fetches := hw.shape.perFetch ▸ hs.fetches
  file := by
    obtain ⟨-, rfl, hfetches, rfl⟩ := hs
    rw [hstored, hw.file hfetches hclear hu]

theorem write_shows (hs : Shows store unit file h) (hu : 0 < unit) (offset : Nat) (data : Bytes)
    (hblank : (Op.Write offset data).Blank store h) :
    ∃ next, FlatStep unit hu file (.Write offset data) ((Op.Write offset data).run store h).1 next ∧
      Shows store unit next ((Op.Write offset data).run store h).2 := by
  by_cases hdata : data = []
  · subst hdata
    refine ⟨file, ⟨⟨0, by simp⟩, by simp⟩, ?_⟩
    exact hs.of_reloads rfl (Reloads.refl _)
  have hclear := hblank hdata
  have hwrite := write_spec (serves_here store h) hs.sound rfl offset data h ⟨rfl, Reloads.refl _⟩
  simp only [Op.run, bind_apply]
  generalize write store.source offset data h = run at hwrite ⊢
  rcases run with ⟨_ | reason | _, h'⟩ <;> obtain ⟨hstored, hm⟩ := hwrite
  · have hshows := hm.shows hs hstored hclear hu
    rw [List.take_length] at hshows
    exact ⟨_, ⟨⟨data.length, by rw [List.take_length]⟩, fun _ _ => rfl⟩, hshows⟩
  · obtain ⟨-, part, hpart⟩ := hm
    exact ⟨_, ⟨⟨part, rfl⟩, by rintro _ ⟨⟩⟩, hpart.shows hs hstored hclear hu⟩
  · obtain ⟨-, part, hpart⟩ := hm
    exact ⟨_, ⟨⟨part, rfl⟩, by rintro _ ⟨⟩⟩, hpart.shows hs hstored hclear hu⟩

theorem truncate_shows (hs : Shows store unit file h) (size : Nat)
    (hblank : (Op.Truncate size).Blank store h) :
    Shows store unit (file.truncate unit size) ((Op.Truncate size).run store h).2 := by
  have hfile := file_truncate hs.sound size hblank
  have hshape := shape_truncate h.pages size
  exact ⟨hs.sound.truncate size, hshape.pageSize.trans hs.unit, hshape.perFetch ▸ hs.fetches, by
    rw [← hs.unit, ← hs.file]; exact hfile⟩

theorem commit_shows (hs : Shows store unit file h) :
    Shows store unit file (Op.Commit.run store h).2 := by
  have hcommitted : Shows store unit file
      { h with source := store.publish h.pages h.source, pages := h.pages.committed.2 } := by
    have hp := store.published h.pages h.source
    refine ⟨hs.sound.publish hp, hs.unit, hs.fetches, ?_⟩
    rw [← hs.file]
    exact FlatFile.ofBlocks_congr hs.sound.pos fun i hi => content_publish hs.sound hp hi
  exact hcommitted.of_reloads rfl (Reloads.makeRoom _ _ _)

theorem step_shows (hs : Shows store unit file h) (hu : 0 < unit) (op : Op)
    (hblank : op.Blank store h) :
    ∃ next, FlatStep unit hu file op (op.run store h).1 next ∧
      Shows store unit next (op.run store h).2 := by
  cases op with
  | Read offset length => exact read_shows hs hu offset length
  | Write offset data => exact write_shows hs hu offset data hblank
  | Truncate size => exact ⟨_, rfl, truncate_shows hs size hblank⟩
  | Commit => exact ⟨_, rfl, commit_shows hs⟩

theorem run_explained (hu : 0 < unit) (ops : List Op) (hs : Shows store unit file h)
    (hblank : BlankRun store ops h) : Explained unit hu file (transcript store ops h) := by
  induction ops generalizing file h with
  | nil => trivial
  | cons op rest ih =>
      obtain ⟨next, hstep, hshows⟩ := step_shows hs hu op hblank.1
      exact ⟨next, hstep, ih hshows hblank.2⟩

section Memory

-- A store that holds its blocks in memory and never fails.
def memorySource : Source (Nat → Bytes) where
  fill first count := Prog.modify fun h => h.mapPages (keepAll · (loadRun h.source first count))

theorem memorySource_serves (blocks : Nat → Bytes) (stable : Nat) (fails : Option Broken → Prop) :
    memorySource.Serves blocks stable (· = blocks) fails := by
  rintro before first count hs - hasks h ⟨rfl, rfl⟩
  exact ⟨rfl, hasks.loaded.1, Or.inl hasks.loaded.2⟩

def memoryStore : BlockStore (Nat → Bytes) where
  source := memorySource
  stored blocks := blocks
  publish pages blocks i :=
    if i < pages.pageCount then
      if i ∈ pages.dirty then (pages.block i).getD (blocks i) else blocks i
    else zeros pages.pageSize
  serves blocks stable := memorySource_serves blocks stable _
  published _ _ _ := rfl

-- Two blocks of two bytes, loaded on demand.
def twoBlocks (perFetch : PerFetch) : Held (Nat → Bytes) where
  pages := new 2 2 (some perFetch) none
  stats := {}
  source i := if i = 1 then [7, 7] else [0, 0]

theorem twoBlocks_opened (perFetch : PerFetch) : Opened memoryStore (twoBlocks perFetch) where
  sound := by
    refine ⟨Nat.two_pos, ?_, ?_, ?_, ?_, ?_⟩
    · intro i data h; cases h
    · intro i h; exact absurd rfl h
    · intro i h; exact absurd h (SortedSet.notMem_empty i)
    · intro i data _ h; cases h
    · intro i
      simp only [memoryStore, twoBlocks, new]
      split_ifs <;> rfl
  clean i := SortedSet.notMem_empty i
  preloaded hw := absurd hw nofun

end Memory

-- Any sequence of operations in any mode reads as the plain array does, as long as growth
-- exposes blank blocks only and the cast leaves a number of blocks to load.
theorem reads_as_flat_file (store : BlockStore τ) (h : Held τ) (ho : Opened store h)
    (hfetches : Fetches h.pages.blocksPerFetch) (ops : List Op) (hblank : BlankRun store ops h) :
    Explained h.pages.pageSize ho.sound.pos
      (.ofBlocks h.pages.pageSize h.pages.pageCount (store.stored h.source))
      (transcript store ops h) :=
  run_explained ho.sound.pos ops (ho.shows hfetches) hblank

theorem reads_as_flat_file_two_blocks :
    Explained 2 (by decide) (.ofBlocks 2 2 ((twoBlocks ⟨1, 64⟩).source ·))
      (transcript memoryStore [.Write 1 [5, 6], .Truncate 2, .Commit, .Truncate 4, .Read 0 4]
        (twoBlocks ⟨1, 64⟩)) := by
  refine reads_as_flat_file memoryStore _ (twoBlocks_opened _) (by decide) _ ⟨?_, ?_, trivial, ?_, trivial,
    trivial⟩
  · intro _ j hlo hhi
    exact absurd (Nat.lt_of_le_of_lt hlo hhi) (by decide)
  · intro j hlo hhi
    exact absurd (Nat.lt_of_le_of_lt hlo hhi) (by decide)
  · intro j hlo hhi
    have hj : j = 1 := by
      have h1 : 1 ≤ j := hlo
      have h2 : j < 2 := hhi
      omega
    subst hj
    decide

-- A block cut off and exposed again in one transaction is loaded with its old content. Where
-- `usize` has 32 bits, 2^32 blocks per fetch are none, and a stored block reads as zeros.
theorem regrown_block_reads_as_stored :
    (Opened memoryStore (twoBlocks ⟨1, 64⟩) ∧
      ¬Explained 2 (by decide) (.ofBlocks 2 2 ((twoBlocks ⟨1, 64⟩).source ·))
        (transcript memoryStore [.Truncate 2, .Truncate 4, .Read 2 2] (twoBlocks ⟨1, 64⟩))) ∧
    Opened memoryStore (twoBlocks ⟨2 ^ 32, 32⟩) ∧
      ¬Explained 2 (by decide) (.ofBlocks 2 2 ((twoBlocks ⟨2 ^ 32, 32⟩).source ·))
        (transcript memoryStore [.Read 2 2] (twoBlocks ⟨2 ^ 32, 32⟩)) := by
  refine ⟨⟨twoBlocks_opened _, ?_⟩, twoBlocks_opened _, ?_⟩
  · rintro ⟨_, rfl, _, rfl, _, ⟨rfl, hread⟩, -⟩
    have hvalue := hread (some ([7, 7], true)) (by decide)
    exact absurd hvalue (by decide)
  · rintro ⟨_, ⟨rfl, hread⟩, -⟩
    have hvalue := hread (some ([0, 0], true)) (by decide)
    exact absurd hvalue (by decide)

end RemoteVfs.Pages
