import RemoteVfs.Pages.Lemmas

namespace RemoteVfs.Pages

open Base

variable (pages : Pages)

-- The blocks in memory that are not modified since the last commit.
def clean : List Nat := pages.blocks.keys.filter (· ∉ pages.dirty)

theorem mem_keys_iff {i : Nat} : i ∈ pages.blocks.keys ↔ pages.block i ≠ none := by
  rw [← AList.mem_keys, ← AList.lookup_isSome, Option.isSome_iff_ne_none, ne_eq, ne_eq,
    block_eq_none_iff]

theorem mem_clean {i : Nat} : i ∈ pages.clean ↔ pages.block i ≠ none ∧ i ∉ pages.dirty := by
  rw [clean, List.mem_filter, mem_keys_iff, decide_eq_true_eq]

theorem nodup_clean : pages.clean.Nodup := pages.blocks.keys_nodup.filter _

theorem length_clean_le : pages.clean.length ≤ pages.held := List.length_filter_le _ _

theorem map_snd_ages : pages.ages.map Prod.snd = pages.clean := by
  unfold ages clean
  rw [List.map_map, AList.keys, List.keys, List.filter_map]
  rfl

theorem length_ages : pages.ages.length = pages.clean.length := by
  rw [← map_snd_ages, List.length_map]

-- The candidates in the order in which they are evicted.
def queue : List (Nat × Nat) := pages.ages.insertionSort older

theorem queue_perm : pages.queue.Perm pages.ages := List.perm_insertionSort _ _

theorem oldest_eq (count : Nat) : pages.oldest count = (pages.queue.map Prod.snd).take count := by
  rw [oldest, List.map_take]
  rfl

theorem length_oldest {count : Nat} (h : count ≤ pages.clean.length) :
    (pages.oldest count).length = count := by
  rw [oldest_eq, List.length_take, List.length_map, pages.queue_perm.length_eq, length_ages]
  omega

theorem nodup_queue : (pages.queue.map Prod.snd).Nodup := by
  rw [(pages.queue_perm.map Prod.snd).nodup_iff, map_snd_ages]
  exact pages.nodup_clean

theorem nodup_oldest (count : Nat) : (pages.oldest count).Nodup := by
  rw [oldest_eq]
  exact pages.nodup_queue.sublist (List.take_sublist _ _)

theorem oldest_subset (count : Nat) : pages.oldest count ⊆ pages.clean := by
  intro i hi
  rw [oldest_eq] at hi
  rw [← map_snd_ages]
  exact (pages.queue_perm.map Prod.snd).subset (List.mem_of_mem_take hi)

-- Taking distinct members out of a list without duplicates.
theorem length_filter_notMem {α : Type} [DecidableEq α] {list part : List α} (hlist : list.Nodup)
    (hpart : part.Nodup) (hsub : part ⊆ list) :
    (list.filter (· ∉ part)).length = list.length - part.length := by
  have hin : (list.filter (· ∈ part)).Perm part := by
    rw [List.perm_ext_iff_of_nodup (hlist.filter _) hpart]
    intro a
    rw [List.mem_filter, decide_eq_true_eq]
    exact ⟨And.right, fun ha => ⟨hsub ha, ha⟩⟩
  have hsplit := List.length_eq_length_filter_add (l := list) fun a => decide (a ∈ part)
  have hout : (list.filter fun a => !decide (a ∈ part)) = list.filter (· ∉ part) := by
    apply List.filter_congr
    intro a _
    rw [decide_not]
  rw [hin.length_eq, hout] at hsplit
  omega

theorem keys_retain (blocks : BlockMap) (keep : Nat → Bool) :
    (blocks.retain keep).keys = blocks.keys.filter keep := by
  unfold AList.keys List.keys
  rw [List.filter_map]
  rfl

theorem keys_evict (count : Nat) :
    (pages.evict count).blocks.keys = pages.blocks.keys.filter (· ∉ pages.oldest count) :=
  keys_retain pages.blocks _

theorem clean_evict (count : Nat) :
    (pages.evict count).clean = pages.clean.filter (· ∉ pages.oldest count) := by
  rw [clean, keys_evict, clean, List.filter_filter, List.filter_filter]
  apply List.filter_congr
  intro i _
  rw [Bool.and_comm]
  rfl

theorem held_evict {count : Nat} (h : count ≤ pages.clean.length) :
    (pages.evict count).held = pages.held - count := by
  have hsub : pages.oldest count ⊆ pages.blocks.keys :=
    fun i hi => (List.mem_filter.mp (pages.oldest_subset count hi)).1
  rw [held, keys_evict, length_filter_notMem pages.blocks.keys_nodup (pages.nodup_oldest count) hsub,
    pages.length_oldest h, held]

theorem length_clean_evict {count : Nat} (h : count ≤ pages.clean.length) :
    (pages.evict count).clean.length = pages.clean.length - count := by
  rw [clean_evict, length_filter_notMem pages.nodup_clean (pages.nodup_oldest count)
    (pages.oldest_subset count), pages.length_oldest h]

-- Room is made for all of the incoming blocks, or no clean block is left.
theorem makeRoom_fits {cap : Nat} (hcap : pages.cap = some cap) (incoming : Nat) (stats : Stats) :
    (pages.makeRoom incoming stats).1.held + incoming ≤ max cap 1 ∨
      (pages.makeRoom incoming stats).1.clean.length = 0 := by
  have hle := pages.length_clean_le
  have hexcess : pages.excess incoming = if pages.held + incoming ≤ max cap 1 then 0
      else min (pages.held - (max cap 1 - max cap 1 / 8 - incoming)) pages.clean.length := by
    rw [excess, hcap, length_ages]
    rfl
  unfold makeRoom
  dsimp only
  by_cases hzero : pages.excess incoming = 0
  · rw [if_pos hzero]
    by_cases hfits : pages.held + incoming ≤ max cap 1
    · exact Or.inl hfits
    · rw [if_neg hfits] at hexcess
      dsimp only
      omega
  · have hfits : ¬pages.held + incoming ≤ max cap 1 := fun hfits => hzero (by rw [hexcess, if_pos hfits])
    rw [if_neg hfits] at hexcess
    have hcount : pages.excess incoming ≤ pages.clean.length := by omega
    rw [if_neg hzero]
    dsimp only
    rw [pages.held_evict hcount, pages.length_clean_evict hcount]
    omega

end RemoteVfs.Pages
