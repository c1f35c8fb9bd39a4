import RemoteVfs.Pages.Moves

namespace RemoteVfs.Pages

open Base Base.Prog

variable {τ : Type} {i : Nat} {a b : Pages}

-- A block of the file that is never shown as zeros in its place: it is in memory if it was
-- written, or if nothing is ever loaded.
structure Resident (i : Nat) (pages : Pages) : Prop where
  below : i < pages.pageCount
  dirty : i ∈ pages.dirty → pages.block i ≠ none
  whole : pages.whole = true → pages.block i ≠ none
  perFetch : Fetches pages.blocksPerFetch

namespace Resident

theorem drops (h : Resident i a) (hdrops : Drops a b) : Resident i b where
  below := by
    rw [hdrops.pageCount]
    exact h.below
  dirty hdirty := by
    rw [hdrops.dirty] at hdirty
    rcases hdrops.block i with hsame | ⟨hclean, -, -⟩
    · rw [hsame]
      exact h.dirty hdirty
    · exact absurd hdirty hclean
  whole hwhole := by
    rw [hdrops.shape.whole] at hwhole
    rcases hdrops.block i with hsame | ⟨-, hlimited, -⟩
    · rw [hsame]
      exact h.whole hwhole
    · rw [hwhole] at hlimited
      cases hlimited
  perFetch := by
    rw [hdrops.shape.perFetch]
    exact h.perFetch

theorem keepAll (h : Resident i a) (loaded : List (Nat × Bytes)) : Resident i (a.keepAll loaded) := by
  obtain ⟨hdirty, hcount⟩ := keepAll_same (a := a) loaded
  have hblock : a.block i ≠ none → (a.keepAll loaded).block i ≠ none :=
    fun hblock => (block_keepAll_ne_none a loaded i).mpr (Or.inl hblock)
  refine ⟨by rw [hcount]; exact h.below, fun hd => hblock (h.dirty (hdirty ▸ hd)), fun hwhole => ?_, ?_⟩
  · rw [(shape_keepAll a loaded).whole] at hwhole
    exact hblock (h.whole hwhole)
  · rw [(shape_keepAll a loaded).perFetch]
    exact h.perFetch

theorem put (h : Resident i a) (index within : Nat) (chunk : Bytes) :
    Resident i (a.put index within chunk) := by
  have hblock : i = index ∨ a.block i ≠ none → (a.put index within chunk).block i ≠ none := by
    intro hcase
    rw [block_put]
    split_ifs with hindex
    · simp
    · exact hcase.resolve_left hindex
  refine ⟨?_, fun hdirty => hblock ?_, fun hwhole => hblock (Or.inr ?_), h.perFetch⟩
  · rw [pageCount_put]
    exact Nat.lt_of_lt_of_le h.below (le_max_left _ _)
  · rcases SortedSet.mem_insert.mp hdirty with hindex | hold
    · exact Or.inl hindex
    · exact Or.inr (h.dirty hold)
  · rw [(shape_put a index within chunk).whole] at hwhole
    exact h.whole hwhole

-- The block is not cut off.
theorem truncate (h : Resident i a) {size : Nat} (hsize : i < divCeil size a.pageSize) :
    Resident i (a.truncate size) := by
  have hblock : (a.truncate size).block i = a.block i := block_truncate_of_lt a size hsize
  refine ⟨by rw [pageCount_truncate]; exact hsize, fun hdirty => ?_, fun hwhole => ?_, ?_⟩
  · rw [hblock]
    refine h.dirty ?_
    unfold Pages.truncate at hdirty
    dsimp only at hdirty
    split_ifs at hdirty
    · exact (SortedSet.mem_filter.mp hdirty).1
    · exact hdirty
  · rw [hblock]
    rw [(shape_truncate a size).whole] at hwhole
    exact h.whole hwhole
  · rw [(shape_truncate a size).perFetch]
    exact h.perFetch

theorem committed (h : Resident i a) : Resident i a.committed.2 where
  below := h.below
  dirty hdirty := absurd hdirty (SortedSet.notMem_empty i)
  whole := h.whole
  perFetch := h.perFetch

end Resident

-- A load that succeeds brings at least its first block.
def Brings (source : Source τ) : Prop :=
  ∀ (h after : Held τ) (first count : Nat), 0 < count → source.fill first count h = (.ok (), after) →
    after.pages.block first ≠ none

variable {source : Source τ}

theorem ensureLoaded_resident (hbrings : Brings source) {h after : Held τ} (hres : Resident i h.pages)
    (hload : ensureLoaded source i h = (.ok (), after)) : after.pages.block i ≠ none := by
  simp only [ensureLoaded, gets_bind] at hload
  by_cases hhas : h.pages.has i = true
  · simp only [hhas, if_true, modify_apply] at hload
    cases hload
    change (h.pages.touch i).block i ≠ none
    rw [block_touch]
    intro hnone
    have hdirty : i ∈ h.pages.dirty := by
      by_contra hclean
      rw [(has_eq_false_iff _ _).mpr ⟨hnone, hclean⟩] at hhas
      cases hhas
    exact hres.dirty hdirty hnone
  by_cases hwhole : h.pages.whole = true
  · simp only [hhas, hwhole, if_true, Bool.false_eq_true, if_false, pure_apply] at hload
    cases hload
    exact hres.whole hwhole
  rw [Bool.not_eq_true] at hhas
  have hcount := missing_pos h.pages (perFetch_pos hres.perFetch) hres.below hhas
  simp only [hhas, hwhole, Bool.false_eq_true, if_false, Nat.ne_of_gt hcount, modify_bind] at hload
  exact hbrings _ after i _ hcount hload

-- The bytes of the block that a read has put together so far are those of `content`.
def ShowsBlock (size i : Nat) (content : Bytes) (offset : Nat) (buf : Bytes) : Prop :=
  ∀ k < buf.length, (offset + k) / size = i → buf.getD k 0 = content.getD ((offset + k) % size) 0

theorem ShowsBlock.append {size offset : Nat} {content buf more : Bytes}
    (h : ShowsBlock size i content offset buf)
    (hmore : ∀ k < more.length, (offset + buf.length + k) / size = i →
      more.getD k 0 = content.getD ((offset + buf.length + k) % size) 0) :
    ShowsBlock size i content offset (buf ++ more) := by
  intro k hk hblock
  rw [List.length_append] at hk
  by_cases hold : k < buf.length
  · rw [List.getD_append _ _ _ _ hold]
    exact h k hold hblock
  · rw [List.getD_append_right _ _ _ _ (by omega)]
    have hposition : offset + buf.length + (k - buf.length) = offset + k := by omega
    have := hmore (k - buf.length) (by omega) (by rw [hposition]; exact hblock)
    rwa [hposition] at this

-- The positions that follow `p` in its block.
theorem within_block {p k size : Nat} (hk : k < size - p % size) :
    (p + k) / size = p / size ∧ (p + k) % size = p % size + k := by
  have hp := Nat.div_add_mod p size
  have hsum : p + k = size * (p / size) + (p % size + k) := by omega
  have hlt : p % size + k < size := by omega
  rw [hsum, Nat.mul_add_div (by omega), Nat.mul_add_mod, Nat.div_eq_of_lt hlt, Nat.mod_eq_of_lt hlt]
  exact ⟨rfl, rfl⟩

variable {inv : Held τ → Prop} {size : Nat} {content : Bytes}

-- One round reads from one block.
theorem readStep_block (hstays : Stays (Carries inv) source) (hbrings : Brings source)
    (hres : ∀ h, inv h → Resident i h.pages) (hsize : ∀ h, inv h → h.pages.pageSize = size)
    (hgood : ∀ h data, inv h → h.pages.block i = some data → data = content)
    (offset length : Nat) (buf : Bytes) :
    Triple (fun h => inv h ∧ buf.length ≤ length ∧ ShowsBlock size i content offset buf)
      (readStep source offset length buf)
      (Ends inv (orDone (fun next _ => next.length ≤ length ∧ ShowsBlock size i content offset next)
        fun value _ => value.1.length = length ∧ ShowsBlock size i content offset value.1)) := by
  rintro h ⟨hinv, hfits, hshows⟩
  unfold readStep
  by_cases hdone : length ≤ buf.length
  · simp only [hdone, if_true, modify_bind, pure_apply]
    exact ⟨hstays.count h hinv, le_antisymm hfits hdone, hshows⟩
  simp only [hdone, if_false, gets_bind, hsize h hinv]
  by_cases hzero : size = 0
  · simp only [hzero, if_true]
    exact ⟨hinv, trivial⟩
  simp only [hzero, if_false]
  by_cases hpast : h.pages.pageCount ≤ (offset + buf.length) / size
  · simp only [hpast, if_true, pure_apply]
    refine ⟨hinv, ?_, hshows.append fun k _ hblock => ?_⟩
    · rw [List.length_append, length_zeros]
      omega
    -- The block lies inside the file, so no byte past the end belongs to it.
    · have hbelow := (hres h hinv).below
      have hle : (offset + buf.length) / size ≤ (offset + buf.length + k) / size :=
        Nat.div_le_div_right (by omega)
      omega
  simp only [hpast, if_false]
  have hmoved := ensureLoaded_stays hstays ((offset + buf.length) / size) h hinv
  have hfound : ∀ after, (offset + buf.length) / size = i →
      ensureLoaded source ((offset + buf.length) / size) h = (.ok (), after) →
      after.pages.block i ≠ none := by
    intro after hindex hload
    rw [hindex] at hload
    exact ensureLoaded_resident hbrings (hres h hinv) hload
  rw [bind_apply]
  generalize ensureLoaded source ((offset + buf.length) / size) h = run at hmoved hfound ⊢
  rcases run with ⟨_ | reason | _, after⟩
  · simp only [gets_bind]
    set position := offset + buf.length
    set n := min (size - position % size) (length - buf.length) with hn
    cases hblock : after.pages.block (position / size) with
    | none =>
        refine ⟨hmoved, ?_, hshows.append fun k hk hindex => ?_⟩
        · rw [List.length_append, length_zeros]
          omega
        · rw [length_zeros] at hk
          obtain ⟨hdiv, -⟩ := within_block (show k < size - position % size by omega)
          rw [hdiv] at hindex
          exact absurd (hindex ▸ hblock) (hfound after hindex rfl)
    | some data =>
        dsimp only
        split_ifs with hshort
        · exact ⟨hmoved, trivial⟩
        · refine ⟨hmoved, ?_, hshows.append fun k hk hindex => ?_⟩
          · rw [List.length_append, List.length_take, List.length_drop]
            omega
          · rw [List.length_take, List.length_drop] at hk
            obtain ⟨hdiv, hmod⟩ := within_block (show k < size - position % size by omega)
            rw [hdiv] at hindex
            have hdata : data = content := hgood after data hmoved (hindex ▸ hblock)
            rw [hmod, ← hdata]
            simp only [List.getD_eq_getElem?_getD, List.getElem?_take, List.getElem?_drop]
            rw [if_pos (by omega)]
  · exact ⟨hmoved, trivial⟩
  · exact ⟨hmoved, trivial⟩

theorem read_block (hstays : Stays (Carries inv) source) (hbrings : Brings source)
    (hres : ∀ h, inv h → Resident i h.pages) (hsize : ∀ h, inv h → h.pages.pageSize = size)
    (hgood : ∀ h data, inv h → h.pages.block i = some data → data = content)
    (offset length : Nat) :
    Triple inv (read source offset length)
      (Ends inv fun value _ => value.1.length = length ∧ ShowsBlock size i content offset value.1) := by
  refine Triple.mono (Ends.loop
    (fun buf _ => buf.length ≤ length ∧ ShowsBlock size i content offset buf)
    (readStep_block hstays hbrings hres hsize hgood offset length) (length + 1) [])
    (fun h hinv => ⟨hinv, Nat.zero_le _, fun k hk => absurd hk (Nat.not_lt_zero k)⟩) fun _ _ h => h

end RemoteVfs.Pages
