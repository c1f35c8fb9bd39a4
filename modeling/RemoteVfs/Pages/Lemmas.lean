import RemoteVfs.Pages
import RemoteVfs.Base.Program.Rules

namespace RemoteVfs.Pages

open Base

variable (pages : Pages)

@[simp] theorem length_zeros (n : Nat) : (zeros n).length = n := List.length_replicate

theorem block_eq_none_iff (index : Nat) :
    pages.block index = none ↔ pages.blocks.lookup index = none := by
  simp [block]

theorem has_eq_false_iff (index : Nat) :
    pages.has index = false ↔ pages.block index = none ∧ index ∉ pages.dirty := by
  simp [has, block]

theorem lookup_insert_eq (blocks : BlockMap) (i j : Nat) (b : Block) :
    (blocks.insert i b).lookup j = if j = i then some b else blocks.lookup j := by
  by_cases h : j = i
  · subst h; simp
  · simp [h, AList.lookup_insert_ne]

theorem block_touch (i j : Nat) : (pages.touch i).block j = pages.block j := by
  unfold touch block
  cases h : pages.blocks.lookup i with
  | none => simp
  | some b =>
      simp only [lookup_insert_eq]
      by_cases hj : j = i
      · subst hj; simp [h]
      · simp [hj]

theorem block_keep (i j : Nat) (data : Bytes) :
    (pages.keep i data).block j =
      if j = i ∧ pages.block i = none then some data else pages.block j := by
  unfold keep block
  cases h : pages.blocks.lookup i with
  | none =>
      simp only [lookup_insert_eq]
      by_cases hj : j = i
      · subst hj; simp
      · simp [hj]
  | some b => simp

theorem block_keepAll_ne_none (loaded : List (Nat × Bytes)) (i : Nat) :
    (pages.keepAll loaded).block i ≠ none ↔
      pages.block i ≠ none ∨ ∃ data, (i, data) ∈ loaded := by
  induction loaded generalizing pages with
  | nil => simp [keepAll]
  | cons entry rest ih =>
      rw [show pages.keepAll (entry :: rest) = (pages.keep entry.1 entry.2).keepAll rest from rfl,
        ih, block_keep]
      by_cases hi : i = entry.1
      · subst hi
        by_cases hb : pages.block entry.1 = none
        · simp only [hb, and_self, if_true, ne_eq, reduceCtorEq, not_false_eq_true, true_or,
            not_true_eq_false, false_or, true_iff]
          exact ⟨entry.2, List.mem_cons_self⟩
        · simp [hb]
      · have hne : ∀ data, (i, data) ≠ entry := fun data h => hi (h ▸ rfl)
        simp [hi, hne]

theorem block_put (i j within : Nat) (chunk : Bytes) :
    (pages.put i within chunk).block j =
      if j = i then some (overlay ((pages.block i).getD (zeros pages.pageSize)) within chunk)
      else pages.block j := by
  unfold put
  simp only [block, lookup_insert_eq]
  by_cases hj : j = i <;> simp [hj]

theorem block_retain (keep : Nat → Bool) (j : Nat) :
    { pages with blocks := pages.blocks.retain keep }.block j =
      if keep j then pages.block j else none := by
  simp only [block, AList.lookup_retain]
  cases keep j <;> simp

theorem length_overlay (data chunk : Bytes) (within : Nat) (h : within + chunk.length ≤ data.length) :
    (overlay data within chunk).length = data.length := by
  simp only [overlay, List.length_append, List.length_take, List.length_drop]
  omega

theorem getD_overlay (data chunk : Bytes) (within k : Nat)
    (h : within + chunk.length ≤ data.length) :
    (overlay data within chunk).getD k 0 =
      if within ≤ k ∧ k < within + chunk.length then chunk.getD (k - within) 0 else data.getD k 0 := by
  have hw : (data.take within).length = within := by rw [List.length_take]; omega
  unfold overlay
  by_cases hlo : k < within
  · rw [if_neg (by omega), List.getD_append _ _ _ _ (by rw [List.length_append]; omega),
      List.getD_append _ _ _ _ (by omega)]
    simp [List.getD_eq_getElem?_getD, hlo]
  · by_cases hhi : k < within + chunk.length
    · rw [if_pos ⟨by omega, hhi⟩, List.getD_append _ _ _ _ (by rw [List.length_append]; omega),
        List.getD_append_right _ _ _ _ (by omega), hw]
    · rw [if_neg (by omega), List.getD_append_right _ _ _ _ (by rw [List.length_append]; omega)]
      simp only [List.length_append, hw, List.getD_eq_getElem?_getD, List.getElem?_drop]
      congr 2
      omega

-- Only clean blocks are evicted: the candidates leave the dirty ones out.
theorem not_dirty_of_mem_oldest (count i : Nat) (h : i ∈ pages.oldest count) : i ∉ pages.dirty := by
  unfold oldest at h
  obtain ⟨age, hage, rfl⟩ := List.mem_map.mp h
  have hin : age ∈ pages.ages := List.mem_insertionSort _ |>.mp (List.mem_of_mem_take hage)
  unfold ages at hin
  obtain ⟨entry, hentry, rfl⟩ := List.mem_map.mp hin
  simpa using (List.mem_filter.mp hentry).2

theorem block_evict (count j : Nat) :
    (pages.evict count).block j = if j ∈ pages.oldest count then none else pages.block j := by
  unfold evict
  rw [block_retain]
  by_cases h : j ∈ pages.oldest count <;> simp [h]

theorem makeRoom_of_cap_none (h : pages.cap = none) (incoming : Nat) (stats : Stats) :
    pages.makeRoom incoming stats = (pages, stats) := by
  simp [makeRoom, excess, h]

-- Pages that differ only in which clean blocks are in memory: some were evicted, some
-- were loaded with their stored content.
structure Reloads (stored : Nat → Bytes) (before after : Pages) : Prop where
  pageSize : after.pageSize = before.pageSize
  pageCount : after.pageCount = before.pageCount
  stable : after.stablePageCount = before.stablePageCount
  dirty : after.dirty = before.dirty
  sizeChanged : after.sizeChanged = before.sizeChanged
  perFetch : after.blocksPerFetch = before.blocksPerFetch
  cap : after.cap = before.cap
  block : ∀ j, after.block j = before.block j ∨
    (j ∉ before.dirty ∧ before.whole = false ∧
      (after.block j = none ∨ after.block j = some (stored j) ∧ j < before.pageCount))

namespace Reloads

variable {stored : Nat → Bytes} {a b c : Pages}

theorem refl (a : Pages) : Reloads stored a a :=
  ⟨rfl, rfl, rfl, rfl, rfl, rfl, rfl, fun _ => Or.inl rfl⟩

theorem whole (h : Reloads stored a b) : b.whole = a.whole := by
  simp [Pages.whole, h.perFetch, h.cap]

theorem trans (hab : Reloads stored a b) (hbc : Reloads stored b c) : Reloads stored a c where
  pageSize := hbc.pageSize.trans hab.pageSize
  pageCount := hbc.pageCount.trans hab.pageCount
  stable := hbc.stable.trans hab.stable
  dirty := hbc.dirty.trans hab.dirty
  sizeChanged := hbc.sizeChanged.trans hab.sizeChanged
  perFetch := hbc.perFetch.trans hab.perFetch
  cap := hbc.cap.trans hab.cap
  block j := by
    rcases hbc.block j with hj | ⟨hd, hw, hj⟩
    · rw [hj]; exact hab.block j
    · rw [hab.dirty] at hd
      rw [hab.whole] at hw
      rw [hab.pageCount] at hj
      exact Or.inr ⟨hd, hw, hj⟩

instance : IsPreorder Pages (Reloads stored) where
  refl := refl
  trans _ _ _ := trans

-- A block that was not in memory before is the stored one.
theorem block_of_absent (h : Reloads stored a b) {i : Nat} {data : Bytes} (ha : a.block i = none)
    (hb : b.block i = some data) : data = stored i := by
  rcases h.block i with heq | ⟨-, -, hnone | ⟨heq, -⟩⟩
  · rw [heq, ha] at hb
    cases hb
  · rw [hnone] at hb
    cases hb
  · rw [heq] at hb
    exact (Option.some.inj hb).symm

theorem touch (a : Pages) (i : Nat) : Reloads stored a (a.touch i) :=
  ⟨rfl, rfl, rfl, rfl, rfl, rfl, rfl, fun j => Or.inl (block_touch a i j)⟩

theorem keep (hw : a.whole = false) {i : Nat} (hd : i ∉ a.dirty) (hi : i < a.pageCount) :
    Reloads stored a (a.keep i (stored i)) := by
  refine ⟨rfl, rfl, rfl, rfl, rfl, rfl, rfl, fun j => ?_⟩
  rw [block_keep]
  by_cases h : j = i ∧ a.block i = none
  · obtain ⟨rfl, _⟩ := h
    simp_all
  · simp [h]

theorem keepAll (hw : a.whole = false) (loaded : List (Nat × Bytes))
    (h : ∀ entry ∈ loaded, entry.2 = stored entry.1 ∧ entry.1 ∉ a.dirty ∧ entry.1 < a.pageCount) :
    Reloads stored a (a.keepAll loaded) := by
  induction loaded generalizing a with
  | nil => exact refl a
  | cons entry rest ih =>
      obtain ⟨hdata, hd, hi⟩ := h entry List.mem_cons_self
      have hstep : Reloads stored a (a.keep entry.1 entry.2) := hdata ▸ keep hw hd hi
      refine hstep.trans (ih (hstep.whole.trans hw) ?_)
      intro other hother
      rw [hstep.dirty, hstep.pageCount]
      exact h other (List.mem_cons_of_mem _ hother)

theorem makeRoom (a : Pages) (incoming : Nat) (stats : Stats) :
    Reloads stored a (a.makeRoom incoming stats).1 := by
  by_cases hc : a.cap = none
  · rw [makeRoom_of_cap_none a hc]; exact refl a
  have hw : a.whole = false := by
    simp only [Pages.whole, Bool.and_eq_false_iff, Option.isNone_eq_false_iff]
    exact Or.inr (Option.isSome_iff_ne_none.mpr hc)
  unfold Pages.makeRoom
  dsimp only
  split_ifs with h0
  · exact refl a
  · refine ⟨rfl, rfl, rfl, rfl, rfl, rfl, rfl, fun j => ?_⟩
    rw [block_evict]
    by_cases hj : j ∈ a.oldest (a.excess incoming)
    · exact Or.inr ⟨not_dirty_of_mem_oldest a _ j hj, hw, Or.inl (if_pos hj)⟩
    · exact Or.inl (if_neg hj)

end Reloads

end RemoteVfs.Pages
