import RemoteVfs.Pages.Moves
import RemoteVfs.Pages.Store

namespace RemoteVfs

open Base Base.Prog

variable {τ : Type}

-- A source that may store any blocks with `keep`, asked for or not, and may fail at any time.
def Source.OnlyKeeps (source : Source τ) : Prop :=
  ∀ (first count : Nat) (h : Held τ), ∃ loaded,
    (source.fill first count h).2.pages = h.pages.keepAll loaded

namespace Pages

-- The functions by which the rest of the program changes `Pages`.
inductive Call where
  | Keep (index : Nat) (data : Bytes)
  | Read (offset length : Nat)
  | Write (offset : Nat) (data : Bytes)
  | Truncate (size : Nat)
  | Committed
  | MakeRoom (incoming : Nat)
  | Emptied (pageCount : Nat)
  deriving DecidableEq, Repr

def Call.run (source : Source τ) : Call → Prog (Held τ) Broken Answer
  | .Keep index data => do Prog.modify (Held.mapPages (keep · index data)); return none
  | .Read offset length => do return some (← read source offset length)
  | .Write offset data => do write source offset data; return none
  | .Truncate size => do Prog.modify (Held.mapPages (truncate · size)); return none
  | .Committed => do Prog.modify (Held.mapPages fun pages => pages.committed.2); return none
  | .MakeRoom incoming => do Prog.modify (Held.makeRoom incoming); return none
  | .Emptied pageCount => do Prog.modify (Held.mapPages (emptied · pageCount)); return none

-- The state after the calls, and how each of them ended.
def after (source : Source τ) : List Call → Held τ → Held τ
  | [], h => h
  | call :: rest, h => after source rest (call.run source h).2

def history (source : Source τ) : List Call → Held τ → List (Call × Outcome Broken Answer)
  | [], _ => []
  | call :: rest, h => (call, (call.run source h).1) :: history source rest (call.run source h).2

-- If every dirty block is in memory, `dirty()` misses none.
theorem map_fst_dirtyBlocks {pages : Pages} (hheld : ∀ i ∈ pages.dirty, pages.block i ≠ none) :
    pages.dirtyBlocks.map Prod.fst = pages.dirty.elems := by
  unfold dirtyBlocks
  have hall : ∀ list : List Nat, (∀ i ∈ list, pages.block i ≠ none) →
      (list.filterMap fun i => (pages.block i).map (i, ·)).map Prod.fst = list := by
    intro list
    induction list with
    | nil => intro; rfl
    | cons i rest ih =>
        intro hlist
        obtain ⟨data, hdata⟩ := Option.ne_none_iff_exists'.mp (hlist i List.mem_cons_self)
        rw [List.filterMap_cons, hdata]
        simp only [Option.map_some, List.map_cons]
        rw [ih fun j hj => hlist j (List.mem_cons_of_mem _ hj)]
  exact hall _ hheld

-- The uncommitted changes stay as they are: blocks are looked at, evicted and loaded.
structure Spares (before after : Pages) : Prop where
  pageSize : after.pageSize = before.pageSize
  pageCount : after.pageCount = before.pageCount
  stable : after.stablePageCount = before.stablePageCount
  dirty : after.dirty = before.dirty
  sizeChanged : after.sizeChanged = before.sizeChanged
  block : ∀ i ∈ before.dirty, before.block i ≠ none → after.block i = before.block i

namespace Spares

variable {a b c : Pages}

theorem refl (a : Pages) : Spares a a := ⟨rfl, rfl, rfl, rfl, rfl, fun _ _ _ => rfl⟩

theorem trans (hab : Spares a b) (hbc : Spares b c) : Spares a c where
  pageSize := hbc.pageSize.trans hab.pageSize
  pageCount := hbc.pageCount.trans hab.pageCount
  stable := hbc.stable.trans hab.stable
  dirty := hbc.dirty.trans hab.dirty
  sizeChanged := hbc.sizeChanged.trans hab.sizeChanged
  block i hi hheld := by
    have hsame := hab.block i hi hheld
    rw [← hsame]
    exact hbc.block i (hab.dirty ▸ hi) (hsame ▸ hheld)

theorem of_reloads {stored : Nat → Bytes} (h : Reloads stored a b) : Spares a b where
  pageSize := h.pageSize
  pageCount := h.pageCount
  stable := h.stable
  dirty := h.dirty
  sizeChanged := h.sizeChanged
  block i hi _ := by
    rcases h.block i with hsame | ⟨hclean, -⟩
    · exact hsame
    · exact absurd hi hclean

-- A block in memory is not replaced by what a source stores.
theorem keep (a : Pages) (index : Nat) (data : Bytes) : Spares a (a.keep index data) where
  pageSize := rfl
  pageCount := rfl
  stable := rfl
  dirty := rfl
  sizeChanged := rfl
  block i _ hheld := by
    rw [block_keep, if_neg]
    rintro ⟨rfl, hnone⟩
    exact hheld hnone

theorem keepAll (a : Pages) (loaded : List (Nat × Bytes)) : Spares a (a.keepAll loaded) := by
  induction loaded generalizing a with
  | nil => exact refl a
  | cons entry rest ih => exact (keep a entry.1 entry.2).trans (ih _)

theorem touch (a : Pages) (index : Nat) : Spares a (a.touch index) :=
  of_reloads (Reloads.touch a index : Reloads (fun _ => []) a _)

theorem makeRoom (a : Pages) (incoming : Nat) (stats : Stats) :
    Spares a (a.makeRoom incoming stats).1 :=
  of_reloads (Reloads.makeRoom a incoming stats : Reloads (fun _ => []) a _)

-- What `dirty()` and `is_clean()` return.
theorem dirtyBlocks (h : Spares a b) (hheld : ∀ i ∈ a.dirty, a.block i ≠ none) :
    b.dirtyBlocks = a.dirtyBlocks := by
  unfold Pages.dirtyBlocks
  rw [h.dirty]
  apply List.filterMap_congr
  intro i hi
  rw [h.block i hi (hheld i hi)]

theorem isClean (h : Spares a b) : b.isClean = a.isClean := by
  unfold Pages.isClean
  rw [h.dirty, h.sizeChanged]

end Spares

def SparesHeld (before after : Held τ) : Prop := Spares before.pages after.pages

instance : IsPreorder (Held τ) SparesHeld where
  refl h := Spares.refl h.pages
  trans _ _ _ := Spares.trans

theorem stays_spares {source : Source τ} (hkeeps : source.OnlyKeeps) : Stays SparesHeld source where
  count h := Spares.refl h.pages
  touch h index _ := Spares.touch h.pages index
  load h first count _ _ := by
    obtain ⟨loaded, hloaded⟩ := hkeeps first count (h.makeRoom count)
    have hroom : Spares h.pages (h.makeRoom count).pages := Spares.makeRoom h.pages count h.stats
    unfold SparesHeld
    rw [hloaded]
    exact hroom.trans (Spares.keepAll _ loaded)

-- A source that stores blocks nobody asked for and then fails.
def scatter : Source Unit where
  fill first _ := do
    Prog.modify (Held.mapPages (keepAll · [(0, [9, 9]), (first + 5, [9, 9])]))
    Prog.fail (.Refused "no answer")

def scattered : Held Unit := ⟨new 2 3 (some ⟨1, 64⟩) (some 1), {}, ()⟩

end Pages

end RemoteVfs
