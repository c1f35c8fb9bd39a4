import Mathlib.Data.List.Sort
import Mathlib.Order.Defs.LinearOrder

namespace RemoteVfs.Base

-- An ordered set that is iterated in ascending order, as a strictly ascending list.
structure SortedSet (α : Type) [LinearOrder α] where
  elems : List α
  sorted : elems.Pairwise (· < ·)
  deriving DecidableEq

namespace SortedSet

variable {α : Type} [LinearOrder α]

def empty : SortedSet α := ⟨[], List.Pairwise.nil⟩

instance : Membership α (SortedSet α) := ⟨fun set a => a ∈ set.elems⟩

instance (a : α) (set : SortedSet α) : Decidable (a ∈ set) :=
  inferInstanceAs (Decidable (a ∈ set.elems))

def insertList (a : α) : List α → List α
  | [] => [a]
  | b :: rest => if a < b then a :: b :: rest else if a = b then b :: rest else b :: insertList a rest

theorem mem_insertList {a b : α} {l : List α} : b ∈ insertList a l ↔ b = a ∨ b ∈ l := by
  induction l with
  | nil => simp [insertList]
  | cons c rest ih =>
      unfold insertList
      split_ifs with hlt heq
      · simp
      · subst heq; simp
      · simp only [List.mem_cons, ih]; tauto

theorem sorted_insertList (a : α) {l : List α} (h : l.Pairwise (· < ·)) :
    (insertList a l).Pairwise (· < ·) := by
  induction l with
  | nil => simp [insertList]
  | cons b rest ih =>
      obtain ⟨hb, hrest⟩ := List.pairwise_cons.mp h
      unfold insertList
      split_ifs with hlt heq
      · refine List.pairwise_cons.mpr ⟨?_, h⟩
        intro c hc
        rcases List.mem_cons.mp hc with rfl | hc
        · exact hlt
        · exact hlt.trans (hb c hc)
      · exact h
      · refine List.pairwise_cons.mpr ⟨?_, ih hrest⟩
        intro c hc
        rcases mem_insertList.mp hc with rfl | hc
        · exact lt_of_le_of_ne (not_lt.mp hlt) (Ne.symm heq)
        · exact hb c hc

def insert (a : α) (set : SortedSet α) : SortedSet α :=
  ⟨insertList a set.elems, sorted_insertList a set.sorted⟩

def filter (keep : α → Bool) (set : SortedSet α) : SortedSet α :=
  ⟨set.elems.filter keep, set.sorted.filter _⟩

@[simp] theorem mem_elems {a : α} {set : SortedSet α} : a ∈ set.elems ↔ a ∈ set := Iff.rfl

@[simp] theorem notMem_empty (a : α) : a ∉ (empty : SortedSet α) := List.not_mem_nil

@[simp] theorem mem_insert {a b : α} {set : SortedSet α} : b ∈ set.insert a ↔ b = a ∨ b ∈ set :=
  mem_insertList

@[simp] theorem mem_filter {a : α} {keep : α → Bool} {set : SortedSet α} :
    a ∈ set.filter keep ↔ a ∈ set ∧ keep a = true := List.mem_filter

end SortedSet

end RemoteVfs.Base
