import Mathlib.Data.List.Sort
import Mathlib.Order.Defs.LinearOrder

namespace RemoteVfs.Base

-- A store of values that is kept in the order of its keys.
structure SortedMap (α β : Type) [LinearOrder α] where
  entries : List (α × β)
  sorted : entries.Pairwise (·.1 < ·.1)
  deriving DecidableEq

namespace SortedMap

variable {α β : Type} [LinearOrder α]

def empty : SortedMap α β := ⟨[], List.Pairwise.nil⟩

def get (map : SortedMap α β) (key : α) : Option β := (map.entries.find? (·.1 = key)).map (·.2)

def putList (key : α) (value : β) : List (α × β) → List (α × β)
  | [] => [(key, value)]
  | entry :: rest =>
    if key < entry.1 then (key, value) :: entry :: rest
    else if key = entry.1 then (key, value) :: rest
    else entry :: putList key value rest

theorem mem_putList {key : α} {value : β} {entry : α × β} {entries : List (α × β)}
    (h : entry ∈ putList key value entries) : entry = (key, value) ∨ entry ∈ entries := by
  induction entries with
  | nil => simpa [putList] using h
  | cons first rest ih =>
      unfold putList at h
      split_ifs at h with hlt heq
      · simpa using h
      · simp only [List.mem_cons] at h ⊢
        tauto
      · simp only [List.mem_cons] at h ⊢
        tauto

theorem sorted_putList (key : α) (value : β) {entries : List (α × β)}
    (h : entries.Pairwise (·.1 < ·.1)) : (putList key value entries).Pairwise (·.1 < ·.1) := by
  induction entries with
  | nil => simp [putList]
  | cons first rest ih =>
      obtain ⟨hfirst, hrest⟩ := List.pairwise_cons.mp h
      unfold putList
      split_ifs with hlt heq
      · refine List.pairwise_cons.mpr ⟨?_, h⟩
        intro entry hentry
        rcases List.mem_cons.mp hentry with rfl | hentry
        · exact hlt
        · exact hlt.trans (hfirst entry hentry)
      · subst heq
        exact List.pairwise_cons.mpr ⟨hfirst, hrest⟩
      · refine List.pairwise_cons.mpr ⟨?_, ih hrest⟩
        intro entry hentry
        rcases mem_putList hentry with rfl | hentry
        · exact lt_of_le_of_ne (not_lt.mp hlt) (Ne.symm heq)
        · exact hfirst entry hentry

def put (map : SortedMap α β) (key : α) (value : β) : SortedMap α β :=
  ⟨putList key value map.entries, sorted_putList key value map.sorted⟩

def retain (keep : α → Bool) (map : SortedMap α β) : SortedMap α β :=
  ⟨map.entries.filter (keep ·.1), map.sorted.filter _⟩

-- The entries with keys from `first` to `last`.
def between (map : SortedMap α β) (first last : α) : List (α × β) :=
  map.entries.filter fun entry => first ≤ entry.1 ∧ entry.1 ≤ last

theorem find_putList (key : α) (value : β) (other : α) (entries : List (α × β)) :
    (putList key value entries).find? (·.1 = other) =
      if key = other then some (key, value) else entries.find? (·.1 = other) := by
  induction entries with
  | nil => by_cases h : key = other <;> simp [putList, h]
  | cons first rest ih =>
      unfold putList
      split_ifs with hlt heq hother hother hother <;> grind

@[simp] theorem get_put (map : SortedMap α β) (key : α) (value : β) (other : α) :
    (map.put key value).get other = if key = other then some value else map.get other := by
  rw [get, put, find_putList]
  split_ifs <;> rfl

@[simp] theorem get_retain (keep : α → Bool) (map : SortedMap α β) (key : α) :
    (map.retain keep).get key = if keep key then map.get key else none := by
  rw [get, retain, List.find?_filter]
  by_cases hkeep : keep key = true
  · rw [if_pos hkeep, get]
    congr 2
    funext entry
    by_cases h : entry.1 = key
    · simp [h, hkeep]
    · simp [h]
  · rw [if_neg hkeep, List.find?_eq_none.mpr ?_]
    · rfl
    · intro entry _ h
      simp only [decide_eq_true_eq] at h
      exact hkeep (h.2 ▸ h.1)

theorem get_eq_some_iff (map : SortedMap α β) (key : α) (value : β) :
    map.get key = some value ↔ (key, value) ∈ map.entries := by
  obtain ⟨entries, hsorted⟩ := map
  rw [get]
  induction entries with
  | nil => simp
  | cons first rest ih =>
      obtain ⟨hfirst, hrest⟩ := List.pairwise_cons.mp hsorted
      rw [List.find?_cons]
      by_cases h : first.1 = key
      · have hnot : (key, value) ∉ rest := fun hmem => (hfirst _ hmem).ne h
        obtain ⟨firstKey, firstValue⟩ := first
        subst h
        simp [hnot, eq_comm]
      · have hne : (key, value) ≠ first := fun heq => h (by rw [← heq])
        simpa [h, hne] using ih hrest

-- The keys of a range of numbers, one after another.
theorem between_eq (map : SortedMap Nat β) (first last : Nat) :
    map.between first last =
      (List.range' first (last + 1 - first)).filterMap fun key => (map.get key).map (key, ·) := by
  have hleft : (map.between first last).Pairwise (·.1 < ·.1) := map.sorted.filter _
  have hright : ((List.range' first (last + 1 - first)).filterMap
      fun key => (map.get key).map (key, ·)).Pairwise (·.1 < ·.1) := by
    refine List.Pairwise.filterMap _ ?_ (List.pairwise_lt_range' ..)
    intro a b hab x hx y hy
    simp only [Option.map_eq_some_iff] at hx hy
    obtain ⟨_, -, rfl⟩ := hx
    obtain ⟨_, -, rfl⟩ := hy
    exact hab
  have hnodup : ∀ {l : List (Nat × β)}, l.Pairwise (·.1 < ·.1) → l.Nodup :=
    fun h => h.imp fun hlt heq => hlt.ne (congrArg Prod.fst heq)
  refine List.Perm.eq_of_pairwise (fun a b _ _ hab hba => absurd hab hba.asymm) hleft hright ?_
  rw [List.perm_ext_iff_of_nodup (hnodup hleft) (hnodup hright)]
  rintro ⟨key, value⟩
  simp only [between, List.mem_filter, List.mem_filterMap, List.mem_range'_1, decide_eq_true_eq,
    ← get_eq_some_iff, Option.map_eq_some_iff, Prod.mk.injEq]
  constructor
  · rintro ⟨hget, hlow, hhigh⟩
    exact ⟨key, ⟨hlow, by omega⟩, value, hget, rfl, rfl⟩
  · rintro ⟨_, ⟨hlow, hhigh⟩, _, hget, rfl, rfl⟩
    exact ⟨hget, hlow, by omega⟩

end SortedMap

end RemoteVfs.Base
