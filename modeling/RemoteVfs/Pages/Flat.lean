import RemoteVfs.Pages.Sound

namespace RemoteVfs.Pages

open Base Base.Prog

variable {stored : Nat → Bytes} {a b pages : Pages}

-- The file that `read` shows.
def file (stored : Nat → Bytes) (pages : Pages) : FlatFile UInt8 :=
  .ofBlocks pages.pageSize pages.pageCount (pages.content stored)

theorem lt_fileSize_iff (hpos : 0 < pages.pageSize) (p : Nat) :
    p < pages.fileSize ↔ p / pages.pageSize < pages.pageCount :=
  (Nat.div_lt_iff_lt_mul hpos).symm

theorem cell_file (hpos : 0 < pages.pageSize) (p : Nat) :
    (pages.file stored).cell p = if p / pages.pageSize < pages.pageCount then
      (pages.content stored (p / pages.pageSize)).getD (p % pages.pageSize) 0 else 0 :=
  FlatFile.cell_ofBlocks hpos _ _ p

theorem file_reloads (hs : Sound stored a) (hr : Reloads stored a b) :
    b.file stored = a.file stored := by
  unfold file
  rw [hr.pageSize, hr.pageCount]
  exact FlatFile.ofBlocks_congr hs.pos fun i _ => content_reloads hs hr i

-- A range inside one block is a slice of that block.
theorem cells_of_block (hs : Sound stored pages) {index within n : Nat}
    (hi : index < pages.pageCount) (hn : within + n ≤ pages.pageSize) :
    (pages.file stored).cells (index * pages.pageSize + within) n =
      ((pages.content stored index).drop within).take n := by
  have hlen := length_content hs index
  apply List.ext_getElem
  · simp only [FlatFile.length_cells, List.length_take, List.length_drop, hlen]
    omega
  · intro k hk _
    rw [FlatFile.length_cells] at hk
    have hpos := hs.pos
    have hdiv : (index * pages.pageSize + within + k) / pages.pageSize = index := by
      rw [Nat.add_assoc, Nat.mul_comm, Nat.mul_add_div hpos, Nat.div_eq_of_lt (by omega)]
      omega
    have hmod : (index * pages.pageSize + within + k) % pages.pageSize = within + k := by
      rw [Nat.add_assoc, Nat.mul_comm, Nat.mul_add_mod, Nat.mod_eq_of_lt (by omega)]
    simp only [FlatFile.cells, List.getElem_map, List.getElem_range, cell_file hpos, hdiv, hmod, hi,
      if_true, List.getElem_take, List.getElem_drop]
    rw [List.getD_eq_getElem _ _ (by omega)]

section Read

variable {τ : Type} {source : Source τ} {A : Pages → Prop} {I : τ → Prop}
  {fails : Option Broken → Prop}

-- The bytes read so far are those of the file, and none of them lies past its end.
structure ReadSoFar (stored : Nat → Bytes) (before : Pages) (offset length : Nat) (buf : Bytes) :
    Prop where
  bytes : Fetches before.blocksPerFetch → buf = (before.file stored).cells offset buf.length
  inside : buf ≠ [] → offset + buf.length ≤ before.fileSize
  fits : buf.length ≤ length

theorem ReadSoFar.step (hs : Sound stored pages) {offset length : Nat} {buf : Bytes}
    (h : ReadSoFar stored pages offset length buf) (hmore : buf.length < length) (chunk : Bytes)
    (hi : (offset + buf.length) / pages.pageSize < pages.pageCount)
    (hlen : chunk.length =
      min (pages.pageSize - (offset + buf.length) % pages.pageSize) (length - buf.length))
    (hchunk : Fetches pages.blocksPerFetch → chunk =
      ((pages.content stored ((offset + buf.length) / pages.pageSize)).drop
        ((offset + buf.length) % pages.pageSize)).take chunk.length) :
    ReadSoFar stored pages offset length (buf ++ chunk) ∧ buf.length < (buf ++ chunk).length := by
  set index := (offset + buf.length) / pages.pageSize with hindex
  set within := (offset + buf.length) % pages.pageSize with hwithin
  set n := min (pages.pageSize - within) (length - buf.length) with hn
  have hlt : within < pages.pageSize := Nat.mod_lt _ hs.pos
  have hposition : index * pages.pageSize + within = offset + buf.length := by
    rw [Nat.mul_comm]; exact Nat.div_add_mod _ _
  have hcells := cells_of_block hs hi (show within + n ≤ pages.pageSize by omega)
  rw [hposition] at hcells
  have hend : (index + 1) * pages.pageSize ≤ pages.fileSize := Nat.mul_le_mul_right _ hi
  rw [Nat.add_mul, Nat.one_mul] at hend
  refine ⟨⟨fun hfetches => ?_, fun _ => ?_, ?_⟩, ?_⟩
  · rw [List.length_append, FlatFile.cells_add, ← h.bytes hfetches, hlen, hcells, ← hlen,
      ← hchunk hfetches]
  · rw [List.length_append, hlen]; omega
  · rw [List.length_append, hlen]; omega
  · rw [List.length_append, hlen]; omega

theorem readStep_spec (hserves : source.ServesIn stored A I fails) (hlasts : Lasts stored A)
    {before : Pages} (hs : Sound stored before) (hA : A before) (offset length : Nat) (buf : Bytes) :
    Triple (fun h => After stored I before h ∧ ReadSoFar stored before offset length buf)
      (readStep source offset length buf)
      (andThen
        (orDone
          (fun next h => (After stored I before h ∧ ReadSoFar stored before offset length next) ∧
            length - next.length < length - buf.length)
          fun value h => After stored I before h ∧
            (Fetches before.blocksPerFetch → value = (before.file stored).read offset length))
        fun o h => After stored I before h ∧ o.Meets fails fun value =>
          Fetches before.blocksPerFetch → value = (before.file stored).read offset length) := by
  rintro h ⟨⟨hI, hr⟩, hsofar⟩
  have hfits := hsofar.fits
  unfold readStep
  by_cases hdone : length ≤ buf.length
  · simp only [hdone, if_true, modify_bind, pure_apply, andThen, orDone]
    refine ⟨⟨hI, hr⟩, fun hfetches => ?_⟩
    have hl : buf.length = length := by omega
    have hflag : length = 0 ∨ offset + length ≤ (before.file stored).size := by
      by_cases hb : buf = []
      · left; rw [← hl, hb]; rfl
      · right; rw [← hl]; exact hsofar.inside hb
    rw [FlatFile.read, decide_eq_true hflag, ← hl, ← hsofar.bytes hfetches]
  simp only [hdone, if_false, gets_bind]
  have hpos : h.pages.pageSize ≠ 0 := by rw [hr.pageSize]; exact Nat.ne_of_gt hs.pos
  simp only [hpos, if_false]
  by_cases hpast : h.pages.pageCount ≤ (offset + buf.length) / h.pages.pageSize
  · simp only [hpast, if_true, pure_apply, andThen, orDone]
    refine ⟨⟨hI, hr⟩, fun hfetches => ?_⟩
    rw [hr.pageSize, hr.pageCount] at hpast
    have hend : (before.file stored).size ≤ offset + buf.length := by
      have := (lt_fileSize_iff hs.pos (offset + buf.length)).not
      exact Nat.le_of_not_lt (this.mpr (by omega))
    have hcells := FlatFile.cells_past_end (before.file stored) hend (length - buf.length)
    have hsplit := FlatFile.cells_add (before.file stored) offset buf.length (length - buf.length)
    rw [show buf.length + (length - buf.length) = length by omega, hcells, ← hsofar.bytes hfetches] at hsplit
    rw [FlatFile.read, hsplit, decide_eq_false (by omega)]
    rfl
  simp only [hpast, if_false]
  have hi : (offset + buf.length) / before.pageSize < before.pageCount := by
    rw [hr.pageSize, hr.pageCount] at hpast; omega
  have hload := ensureLoaded_spec hserves hlasts (hs.reloads hr) (hlasts _ _ hr hA)
    (show (offset + buf.length) / h.pages.pageSize < h.pages.pageCount by omega) h ⟨hI, rfl⟩
  rw [bind_apply]
  generalize ensureLoaded source _ h = run at hload ⊢
  rcases run with ⟨_ | e | _, h'⟩ <;> obtain ⟨⟨hI', hr'⟩, hm⟩ := hload
  · have hr2 := hr.trans hr'
    have hs' := hs.reloads hr2
    simp only [gets_bind]
    have hcontent := content_reloads hs hr2 ((offset + buf.length) / before.pageSize)
    cases hblock : h'.pages.block ((offset + buf.length) / h.pages.pageSize) with
    | none =>
        simp only [pure_apply, andThen, orDone]
        rw [hr.pageSize] at hblock
        obtain ⟨hnext, hlt⟩ := hsofar.step hs (by omega)
          (zeros (min (h.pages.pageSize - (offset + buf.length) % h.pages.pageSize)
            (length - buf.length))) hi (by rw [length_zeros, hr.pageSize]) (fun hfetches => by
          have hzero := (hm (hr.perFetch ▸ hfetches)).resolve_left (by rw [hr.pageSize, hblock]; simp)
          rw [hr.pageSize, fallback_reloads hr] at hzero
          rw [← hcontent, content, hblock, Option.getD_none, fallback_reloads hr2, hzero, length_zeros,
            hr.pageSize, zeros, zeros, List.drop_replicate, List.take_replicate]
          congr 1
          omega)
        have := hnext.fits
        exact ⟨⟨⟨hI', hr2⟩, hnext⟩, by omega⟩
    | some data =>
        have hlen := (hs'.sized _ _ hblock).trans hr2.pageSize
        have hmod := Nat.mod_lt (offset + buf.length) (Nat.pos_of_ne_zero hpos)
        have hroom : ¬data.length < (offset + buf.length) % h.pages.pageSize +
            min (h.pages.pageSize - (offset + buf.length) % h.pages.pageSize)
              (length - buf.length) := by
          rw [hlen, ← hr.pageSize]; omega
        simp only [hroom, if_false, pure_apply, andThen, orDone]
        rw [hr.pageSize] at hblock ⊢
        obtain ⟨hnext, hlt⟩ := hsofar.step hs (by omega)
          ((data.drop ((offset + buf.length) % before.pageSize)).take
            (min (before.pageSize - (offset + buf.length) % before.pageSize) (length - buf.length)))
          hi (by rw [List.length_take, List.length_drop]; omega) (fun _ => by
            rw [← hcontent, content, hblock, Option.getD_some, List.length_take, List.length_drop]
            congr 1
            omega)
        have := hnext.fits
        exact ⟨⟨⟨hI', hr2⟩, hnext⟩, by omega⟩
  · exact ⟨⟨hI', hr.trans hr'⟩, hm⟩
  · exact ⟨⟨hI', hr.trans hr'⟩, hm⟩

theorem read_spec (hserves : source.ServesIn stored A I fails) (hlasts : Lasts stored A)
    {before : Pages} (hs : Sound stored before) (hA : A before) (offset length : Nat) :
    Triple (After stored I before) (read source offset length)
      fun o h => After stored I before h ∧ o.Meets fails fun value =>
        Fetches before.blocksPerFetch → value = (before.file stored).read offset length := by
  intro h hafter
  exact Triple.loopDown
    (fun buf h => After stored I before h ∧ ReadSoFar stored before offset length buf)
    (fun o h => After stored I before h ∧ o.Meets fails fun value =>
      Fetches before.blocksPerFetch → value = (before.file stored).read offset length)
    (fun buf => length - buf.length) (readStep_spec hserves hlasts hs hA offset length)
    (length + 1) [] (by simp) h ⟨hafter, ⟨fun _ => rfl, by simp, by simp⟩⟩

end Read

-- What no read, write or truncate changes.
structure SameShape (before after : Pages) : Prop where
  pageSize : after.pageSize = before.pageSize
  stable : after.stablePageCount = before.stablePageCount
  perFetch : after.blocksPerFetch = before.blocksPerFetch
  cap : after.cap = before.cap
  -- A change of the size is remembered.
  size : after.sizeChanged = false → before.sizeChanged = false ∧ after.pageCount = before.pageCount

theorem SameShape.refl (a : Pages) : SameShape a a := ⟨rfl, rfl, rfl, rfl, fun h => ⟨h, rfl⟩⟩

theorem SameShape.trans {c : Pages} (hab : SameShape a b) (hbc : SameShape b c) : SameShape a c where
  pageSize := hbc.pageSize.trans hab.pageSize
  stable := hbc.stable.trans hab.stable
  perFetch := hbc.perFetch.trans hab.perFetch
  cap := hbc.cap.trans hab.cap
  size h := ⟨(hab.size (hbc.size h).1).1, (hbc.size h).2.trans (hab.size (hbc.size h).1).2⟩

theorem Reloads.shape (hr : Reloads stored a b) : SameShape a b :=
  ⟨hr.pageSize, hr.stable, hr.perFetch, hr.cap, fun h => ⟨hr.sizeChanged ▸ h, hr.pageCount⟩⟩

theorem SameShape.whole (h : SameShape a b) : b.whole = a.whole := by
  simp [Pages.whole, h.perFetch, h.cap]

theorem SameShape.fallback (h : SameShape a b) (i : Nat) :
    b.fallback stored i = a.fallback stored i := by
  simp only [Pages.fallback, h.whole, h.pageSize]

theorem shape_keepAll (pages : Pages) (loaded : List (Nat × Bytes)) :
    SameShape pages (pages.keepAll loaded) := by
  induction loaded generalizing pages with
  | nil => exact SameShape.refl _
  | cons entry rest ih =>
      have hkeep : SameShape pages (pages.keep entry.1 entry.2) :=
        ⟨rfl, rfl, rfl, rfl, fun h => ⟨h, rfl⟩⟩
      exact hkeep.trans (ih _)

theorem shape_makeRoom (pages : Pages) (incoming : Nat) (stats : Stats) :
    SameShape pages (pages.makeRoom incoming stats).1 := by
  have hr : Reloads (fun _ => []) pages (pages.makeRoom incoming stats).1 :=
    Reloads.makeRoom pages incoming stats
  exact hr.shape

section Write

-- The content a write of part of the block starts from.
def base (pages : Pages) (index : Nat) : Bytes := (pages.block index).getD (zeros pages.pageSize)

theorem length_base (hs : Sound stored pages) (index : Nat) :
    (pages.base index).length = pages.pageSize := by
  unfold base
  cases h : pages.block index with
  | none => exact length_zeros _
  | some data => exact hs.sized index data h

theorem block_none_of_le (hs : Sound stored pages) {i : Nat} (h : pages.pageCount ≤ i) :
    pages.block i = none := by
  by_contra hne
  have := hs.below i hne
  omega

theorem shape_put (pages : Pages) (index within : Nat) (chunk : Bytes) :
    SameShape pages (pages.put index within chunk) := by
  refine ⟨rfl, rfl, rfl, rfl, fun h => ?_⟩
  simp only [put, Bool.or_eq_false_iff, decide_eq_false_iff_not] at h
  exact ⟨h.1, if_neg h.2⟩

theorem pageCount_put (pages : Pages) (index within : Nat) (chunk : Bytes) :
    (pages.put index within chunk).pageCount = max pages.pageCount (index + 1) := by
  simp only [put]
  split_ifs <;> omega

theorem Sound.put (hs : Sound stored pages) {index within : Nat} {chunk : Bytes}
    (hfit : within + chunk.length ≤ pages.pageSize) :
    Sound stored (pages.put index within chunk) where
  pos := hs.pos
  sized i data h := by
    rw [block_put] at h
    split_ifs at h with hi
    · cases h
      have hb := length_base hs index
      exact (length_overlay _ _ _ (by rw [← base, hb]; exact hfit)).trans hb
    · exact hs.sized i data h
  below i h := by
    rw [pageCount_put]
    rw [block_put] at h
    split_ifs at h with hi
    · omega
    · have := hs.below i h
      omega
  dirtyHeld i h := by
    rw [block_put]
    split_ifs with hi
    · simp
    · have hd : i ∈ pages.dirty := by
        rcases SortedSet.mem_insert.mp h with h | h
        · exact absurd h hi
        · exact h
      exact hs.dirtyHeld i hd
  clean i data hd h := by
    have hnot : i ≠ index ∧ i ∉ pages.dirty := by
      simpa [Pages.put, not_or] using hd
    rw [block_put, if_neg hnot.1] at h
    exact hs.clean i data hnot.2 h
  storedSized := hs.storedSized

-- No block between the end of the file and `index` has other content than zeros.
def Clear (stored : Nat → Bytes) (pages : Pages) (index : Nat) : Prop :=
  ∀ j, pages.pageCount ≤ j → j < index → pages.fallback stored j = zeros pages.pageSize

theorem content_put_ne {index within i : Nat} {chunk : Bytes} (h : i ≠ index) :
    (pages.put index within chunk).content stored i = pages.content stored i := by
  simp only [content, block_put, if_neg h, (shape_put pages index within chunk).fallback]

theorem roundUp_block {ps index within n : Nat} (hn : 0 < n) (hfit : within + n ≤ ps) :
    roundUp ps (index * ps + within + n) = (index + 1) * ps := by
  have hd : divCeil (index * ps + within + n) ps = index + 1 := by
    unfold divCeil
    rw [show index * ps + within + n + ps - 1 = ps * index + (within + n - 1 + ps) by
        rw [Nat.mul_comm ps]; omega,
      Nat.mul_add_div (by omega), Nat.add_div_right _ (by omega), Nat.div_eq_of_lt (by omega)]
  rw [roundUp, hd]

theorem getD_zeros (n k : Nat) : (zeros n).getD k 0 = 0 := by
  simp only [zeros, List.getD_eq_getElem?_getD, List.getElem?_replicate]
  split_ifs <;> rfl

theorem file_put (hs : Sound stored pages) {index within : Nat} {chunk : Bytes}
    (hfit : within + chunk.length ≤ pages.pageSize) (hchunk : chunk ≠ [])
    (hclear : Clear stored pages index)
    (hloaded : index < pages.pageCount → chunk.length < pages.pageSize →
      pages.base index = pages.content stored index) :
    (pages.put index within chunk).file stored =
      (pages.file stored).write pages.pageSize hs.pos (index * pages.pageSize + within) chunk := by
  have hpos := hs.pos
  have hlen : 0 < chunk.length := List.length_pos_iff.mpr hchunk
  ext p
  · have hr : roundUp pages.pageSize (index * pages.pageSize + within + chunk.length) =
        (index + 1) * pages.pageSize := roundUp_block hlen hfit
    simp only [file, FlatFile.ofBlocks, pageCount_put, (shape_put pages index within chunk).pageSize,
      FlatFile.write, FlatFile.grown, if_neg hchunk, hr]
    exact (Nat.mul_max_mul_right _ _ _).symm
  rw [cell_file (show 0 < (pages.put index within chunk).pageSize from hpos), pageCount_put]
  simp only [(shape_put pages index within chunk).pageSize, FlatFile.write, cell_file hpos]
  have hp : p / pages.pageSize * pages.pageSize + p % pages.pageSize = p := by
    rw [Nat.mul_comm]; exact Nat.div_add_mod _ _
  have hk : p % pages.pageSize < pages.pageSize := Nat.mod_lt _ hpos
  by_cases hj : p / pages.pageSize = index
  · -- The written block: the chunk, and around it the old content.
    rw [hj] at hp ⊢
    rw [if_pos (by omega : index < max pages.pageCount (index + 1))]
    have hcontent : (pages.put index within chunk).content stored index =
        overlay (pages.base index) within chunk := by
      simp [content, block_put, base]
    rw [hcontent, getD_overlay _ _ _ _ (by rw [length_base hs]; exact hfit)]
    by_cases hin : within ≤ p % pages.pageSize ∧ p % pages.pageSize < within + chunk.length
    · rw [if_pos hin, if_pos (by omega),
        show p - (index * pages.pageSize + within) = p % pages.pageSize - within by omega]
    · rw [if_neg hin, if_neg (by omega)]
      split_ifs with hi
      · rw [hloaded hi (by omega)]
      · rw [base, block_none_of_le hs (by omega), Option.getD_none, getD_zeros]
  · -- Another block: unchanged, or one that the growth exposes.
    have hout : ¬(index * pages.pageSize + within ≤ p ∧
        p < index * pages.pageSize + within + chunk.length) := by
      rintro ⟨hlo, hhi⟩
      apply hj
      exact Nat.div_eq_of_lt_le (by omega) (by rw [Nat.add_mul]; omega)
    rw [if_neg hout, content_put_ne hj]
    by_cases hi : p / pages.pageSize < pages.pageCount
    · rw [if_pos hi, if_pos (by omega)]
    · rw [if_neg hi]
      split_ifs with hmax
      · rw [content, block_none_of_le hs (by omega), Option.getD_none,
          hclear _ (by omega) (by omega), getD_zeros]
      · rfl

variable {τ : Type} {source : Source τ} {stable : Nat} {I : τ → Prop}
  {fails : Option Broken → Prop}

-- Where a write stands after `done` bytes. The file is the expected one if blocks are loaded and
-- the write exposes none that the store has other content for.
structure WriteSoFar (stored : Nat → Bytes) (before : Pages) (offset : Nat) (data : Bytes)
    (done : Nat) (now : Pages) : Prop where
  sound : Sound stored now
  shape : SameShape before now
  fits : done ≤ data.length
  start : done = 0 → now.pageCount = before.pageCount
  gapless : 0 < done → (offset + done) / before.pageSize ≤ now.pageCount
  file : Fetches before.blocksPerFetch → Clear stored before (offset / before.pageSize) → ∀ hpos,
    now.file stored = (before.file stored).write before.pageSize hpos offset (data.take done)

theorem WriteSoFar.reloads {before now later : Pages} {offset done : Nat} {data : Bytes}
    (h : WriteSoFar stored before offset data done now) (hr : Reloads stored now later) :
    WriteSoFar stored before offset data done later where
  sound := h.sound.reloads hr
  shape := h.shape.trans hr.shape
  fits := h.fits
  start h0 := hr.pageCount.trans (h.start h0)
  gapless h0 := hr.pageCount ▸ h.gapless h0
  file hfetches hclear hpos := (file_reloads h.sound hr).trans (h.file hfetches hclear hpos)

theorem WriteSoFar.clear {before now : Pages} {offset done : Nat} {data : Bytes}
    (h : WriteSoFar stored before offset data done now)
    (hclear : Clear stored before (offset / before.pageSize)) :
    Clear stored now ((offset + done) / now.pageSize) := by
  intro j hlo hhi
  rw [h.shape.fallback, h.shape.pageSize]
  rw [h.shape.pageSize] at hhi
  by_cases h0 : done = 0
  · rw [h.start h0] at hlo
    exact hclear j hlo (by simpa [h0] using hhi)
  · have := h.gapless (by omega)
    omega

theorem WriteSoFar.put {before now : Pages} {offset done : Nat} {data : Bytes}
    (h : WriteSoFar stored before offset data done now) (hmore : done < data.length)
    {index within n : Nat} (hindex : index = (offset + done) / now.pageSize)
    (hwithin : within = (offset + done) % now.pageSize)
    (hn : n = min (now.pageSize - within) (data.length - done))
    (hloaded : Fetches before.blocksPerFetch → index < now.pageCount → n < now.pageSize →
      now.base index = now.content stored index) :
    WriteSoFar stored before offset data (done + n)
      (now.put index within ((data.drop done).take n)) := by
  have hpos := h.sound.pos
  have hlt : within < now.pageSize := hwithin ▸ Nat.mod_lt _ hpos
  have hlen : ((data.drop done).take n).length = n := by
    rw [List.length_take, List.length_drop]; omega
  have hposition : index * now.pageSize + within = offset + done := by
    rw [hindex, hwithin, Nat.mul_comm]; exact Nat.div_add_mod _ _
  refine ⟨h.sound.put (by omega), h.shape.trans (shape_put _ _ _ _), by omega, by omega, ?_, ?_⟩
  · intro _
    rw [pageCount_put, ← h.shape.pageSize, ← Nat.add_assoc, ← hposition, Nat.add_assoc,
      Nat.mul_comm, Nat.mul_add_div hpos]
    have : (within + n) / now.pageSize ≤ 1 := Nat.div_le_of_le_mul (by omega)
    omega
  · intro hfetches hclear hpos'
    have hchunk : (data.drop done).take n ≠ [] := List.ne_nil_of_length_pos (by omega)
    have hsplit : data.take (done + n) = data.take done ++ (data.drop done).take n := List.take_add
    have htake : (data.take done).length = done := by rw [List.length_take]; omega
    rw [file_put h.sound (by omega) hchunk (hindex ▸ h.clear hclear)
      (fun hi hlt => hloaded hfetches hi (by omega)), hsplit, ← FlatFile.write_write, htake, hposition,
      ← h.file hfetches hclear hpos']
    congr 1
    exact h.shape.pageSize

theorem place_eq (h : Held τ) (hs : Sound stored h.pages) {index within : Nat} {chunk : Bytes}
    (hfit : within + chunk.length ≤ h.pages.pageSize) :
    place index within chunk h = (.ok (), h.mapPages (Pages.put · index within chunk)) := by
  have hroom : ¬(h.pages.block index).any fun data => data.length < within + chunk.length := by
    cases hb : h.pages.block index with
    | none => simp
    | some data =>
        have := hs.sized index data hb
        simp only [Option.any_some, decide_eq_true_eq]
        omega
  simp only [place, gets_bind, hroom, if_false, modify_apply, Bool.false_eq_true]

-- A failed write has stored a part of its data.
def Written (stored : Nat → Bytes) (I : τ → Prop) (fails : Option Broken → Prop) (before : Pages)
    (offset : Nat) (data : Bytes) (o : Outcome Broken Unit) (h : Held τ) : Prop :=
  I h.source ∧ o.Meets
    (fun reason => fails reason ∧ ∃ part, WriteSoFar stored before offset data part h.pages)
    fun _ => WriteSoFar stored before offset data data.length h.pages

theorem Written.part {before : Pages} {offset : Nat} {data : Bytes} {o : Outcome Broken Unit}
    {h : Held τ} (hw : Written stored I fails before offset data o h) :
    I h.source ∧ ∃ part, WriteSoFar stored before offset data part h.pages := by
  obtain ⟨hI, hmeets⟩ := hw
  cases o with
  | ok value => exact ⟨hI, data.length, hmeets⟩
  | err reason => exact ⟨hI, hmeets.2⟩
  | hang => exact ⟨hI, hmeets.2⟩

theorem writeStep_spec (hserves : source.Serves stored stable I fails) {before : Pages}
    (hst : before.stablePageCount = stable) (offset : Nat) (data : Bytes) (done : Nat) :
    Triple (fun h => I h.source ∧ WriteSoFar stored before offset data done h.pages)
      (writeStep source offset data done)
      (andThen
        (orDone
          (fun next h => (I h.source ∧ WriteSoFar stored before offset data next h.pages) ∧
            data.length - next < data.length - done)
          fun _ => Written stored I fails before offset data (.ok ()))
        (Written stored I fails before offset data)) := by
  rintro h ⟨hI, hsofar⟩
  have hfits := hsofar.fits
  unfold writeStep
  by_cases hdone : data.length ≤ done
  · obtain rfl : done = data.length := by omega
    simp only [hdone, if_true, modify_bind, pure_apply, andThen, orDone]
    exact ⟨hI, hsofar⟩
  have hpos := hsofar.sound.pos
  have hzero : h.pages.pageSize ≠ 0 := Nat.ne_of_gt hpos
  simp only [hdone, if_false, gets_bind, hzero]
  generalize hindex : (offset + done) / h.pages.pageSize = index
  generalize hwithin : (offset + done) % h.pages.pageSize = within
  generalize hn : min (h.pages.pageSize - within) (data.length - done) = n
  have hlt : within < h.pages.pageSize := hwithin ▸ Nat.mod_lt _ hpos
  have hchunk : ((data.drop done).take n).length = n := by
    rw [List.length_take, List.length_drop]; omega
  -- The rest of the round, once the block is loaded or needs no load.
  have hrest : ∀ h' : Held τ, I h'.source → Reloads stored h.pages h'.pages →
      (Fetches before.blocksPerFetch → index < h.pages.pageCount → n < h.pages.pageSize →
        h'.pages.base index = h'.pages.content stored index) →
      ∃ h'', place index within ((data.drop done).take n) h' = (.ok (), h'') ∧ I h''.source ∧
        WriteSoFar stored before offset data (done + n) h''.pages := by
    intro h' hI' hr hloaded
    have hsofar' := hsofar.reloads hr
    refine ⟨_, place_eq h' hsofar'.sound (by rw [hr.pageSize]; omega), hI',
      hsofar'.put (by omega) ?_ ?_ ?_ ?_⟩
    · rw [hr.pageSize]; exact hindex.symm
    · rw [hr.pageSize]; exact hwithin.symm
    · rw [hr.pageSize]; exact hn.symm
    · rw [hr.pageSize, hr.pageCount]; exact hloaded
  by_cases hpart : n < h.pages.pageSize ∧ index < h.pages.pageCount
  · simp only [hpart, and_self, if_true]
    have hload := ensureLoaded_spec hserves (lasts_stable _ _) hsofar.sound (hsofar.shape.stable.trans hst)
      hpart.2 h ⟨hI, rfl⟩
    rw [bind_apply]
    generalize ensureLoaded source index h = run at hload ⊢
    rcases run with ⟨_ | e | _, h'⟩ <;> obtain ⟨⟨hI', hr⟩, hm⟩ := hload
    · obtain ⟨h'', hplace, hI'', hsofar''⟩ := hrest h' hI' hr (fun hfetches _ _ => by
        unfold base content
        cases hb : h'.pages.block index with
        | some d => rfl
        | none =>
            have hz := (hm (hsofar.shape.perFetch ▸ hfetches)).resolve_left (by rw [hb]; simp)
            rw [Option.getD_none, Option.getD_none, fallback_reloads hr, hz, hr.pageSize])
      simp only [bind_ok _ hplace]
      exact ⟨⟨hI'', hsofar''⟩, by omega⟩
    · exact ⟨hI', hm, done, hsofar.reloads hr⟩
    · exact ⟨hI', hm, done, hsofar.reloads hr⟩
  · simp only [hpart, if_false]
    obtain ⟨h'', hplace, hI'', hsofar''⟩ := hrest h hI (Reloads.refl _)
      (fun _ hi hlt => absurd ⟨hlt, hi⟩ hpart)
    simp only [bind_ok _ hplace]
    exact ⟨⟨hI'', hsofar''⟩, by omega⟩

theorem write_spec (hserves : source.Serves stored stable I fails) {before : Pages}
    (hs : Sound stored before) (hst : before.stablePageCount = stable) (offset : Nat)
    (data : Bytes) :
    Triple (After stored I before) (write source offset data)
      (Written stored I fails before offset data) := by
  rintro h ⟨hI, hr⟩
  refine Triple.loopDown
    (fun done h => I h.source ∧ WriteSoFar stored before offset data done h.pages)
    (Written stored I fails before offset data)
    (fun done => data.length - done) (writeStep_spec hserves hst offset data)
    (data.length + 1) 0 (by omega) h ⟨hI, hs.reloads hr, hr.shape, by omega, ?_, by omega, ?_⟩
  · exact fun _ => hr.pageCount
  · intro _ _ _
    rw [List.take_zero, FlatFile.write_nil]
    exact file_reloads hs hr

end Write

section Truncate

theorem shape_truncate (pages : Pages) (size : Nat) : SameShape pages (pages.truncate size) := by
  unfold truncate
  dsimp only
  split_ifs
  · exact ⟨rfl, rfl, rfl, rfl, fun h => by cases h⟩
  · exact SameShape.refl _

theorem pageCount_truncate (pages : Pages) (size : Nat) :
    (pages.truncate size).pageCount = divCeil size pages.pageSize := by
  unfold truncate
  dsimp only
  split_ifs with h
  · rfl
  · omega

-- A truncation to the same number of blocks changes nothing.
theorem truncate_cases (pages : Pages) (size : Nat) :
    pages.truncate size = pages ∨
      (∀ i, (pages.truncate size).block i =
        if i < divCeil size pages.pageSize then pages.block i else none) ∧
      ∀ i, i ∈ (pages.truncate size).dirty ↔ i ∈ pages.dirty ∧ i < divCeil size pages.pageSize := by
  unfold truncate
  dsimp only
  split_ifs with h
  · refine Or.inr ⟨fun i => ?_, fun i => ?_⟩
    · by_cases hi : i < divCeil size pages.pageSize
      · simp [block, hi]
      · simp [block, hi]
    · simp
  · exact Or.inl rfl

theorem block_truncate_of_lt (pages : Pages) (size : Nat) {i : Nat}
    (hi : i < divCeil size pages.pageSize) : (pages.truncate size).block i = pages.block i := by
  rcases truncate_cases pages size with hsame | ⟨hblock, -⟩
  · rw [hsame]
  · rw [hblock, if_pos hi]

-- The block is dropped if it was inside the file before.
theorem block_truncate_of_below (size : Nat) {i : Nat}
    (hbelow : pages.block i ≠ none → i < pages.pageCount) :
    (pages.truncate size).block i =
      if i < divCeil size pages.pageSize then pages.block i else none := by
  by_cases hi : i < divCeil size pages.pageSize
  · rw [if_pos hi, block_truncate_of_lt pages size hi]
  · rw [if_neg hi]
    unfold truncate
    dsimp only
    split_ifs with h
    · simp [block, hi]
    · by_contra hheld
      have := hbelow hheld
      omega

theorem block_truncate (hs : Sound stored pages) (size i : Nat) :
    (pages.truncate size).block i =
      if i < divCeil size pages.pageSize then pages.block i else none :=
  block_truncate_of_below size (hs.below i)

theorem mem_dirty_truncate_of_below (size : Nat) {i : Nat}
    (hbelow : i ∈ pages.dirty → i < pages.pageCount) :
    i ∈ (pages.truncate size).dirty ↔ i ∈ pages.dirty ∧ i < divCeil size pages.pageSize := by
  unfold truncate
  dsimp only
  split_ifs with h
  · simp
  · refine ⟨fun hd => ⟨hd, ?_⟩, And.left⟩
    have := hbelow hd
    omega

theorem mem_dirty_truncate (hs : Sound stored pages) (size i : Nat) :
    i ∈ (pages.truncate size).dirty ↔ i ∈ pages.dirty ∧ i < divCeil size pages.pageSize :=
  mem_dirty_truncate_of_below size fun hd => hs.below i (hs.dirtyHeld i hd)

theorem Sound.truncate (hs : Sound stored pages) (size : Nat) :
    Sound stored (pages.truncate size) where
  pos := (shape_truncate pages size).pageSize ▸ hs.pos
  sized i data h := by
    rw [block_truncate hs] at h
    rw [(shape_truncate pages size).pageSize]
    split_ifs at h
    exact hs.sized i data h
  below i h := by
    rw [block_truncate hs] at h
    rw [pageCount_truncate]
    split_ifs at h with hi
    · exact hi
    · exact absurd rfl h
  dirtyHeld i h := by
    obtain ⟨hd, hi⟩ := (mem_dirty_truncate hs size i).mp h
    rw [block_truncate hs, if_pos hi]
    exact hs.dirtyHeld i hd
  clean i data hd h := by
    rw [block_truncate hs] at h
    split_ifs at h with hi
    exact hs.clean i data (fun hin => hd ((mem_dirty_truncate hs size i).mpr ⟨hin, hi⟩)) h
  storedSized := (shape_truncate pages size).pageSize ▸ hs.storedSized

theorem content_truncate (hs : Sound stored pages) (size : Nat) {i : Nat}
    (hi : i < divCeil size pages.pageSize) :
    (pages.truncate size).content stored i = pages.content stored i := by
  rw [content, content, block_truncate hs, if_pos hi, (shape_truncate pages size).fallback]

theorem file_truncate (hs : Sound stored pages) (size : Nat)
    (hclear : Clear stored pages (divCeil size pages.pageSize)) :
    (pages.truncate size).file stored = (pages.file stored).truncate pages.pageSize size := by
  have hshape := shape_truncate pages size
  have hpos := hs.pos
  ext p
  · simp only [file, FlatFile.ofBlocks, pageCount_truncate, hshape.pageSize, FlatFile.truncate, roundUp]
  · rw [cell_file (show 0 < (pages.truncate size).pageSize from hshape.pageSize ▸ hpos),
      pageCount_truncate, hshape.pageSize]
    simp only [FlatFile.truncate, roundUp, cell_file hpos]
    have hiff : p / pages.pageSize < divCeil size pages.pageSize ↔
        p < divCeil size pages.pageSize * pages.pageSize := Nat.div_lt_iff_lt_mul hpos
    by_cases hp : p / pages.pageSize < divCeil size pages.pageSize
    · rw [if_pos hp, if_pos (hiff.mp hp), content_truncate hs size hp]
      split_ifs with hi
      · rfl
      · rw [content, block_none_of_le hs (by omega), Option.getD_none, hclear _ (by omega) hp,
          getD_zeros]
    · rw [if_neg hp, if_neg (fun h => hp (hiff.mpr h))]

end Truncate

end RemoteVfs.Pages
