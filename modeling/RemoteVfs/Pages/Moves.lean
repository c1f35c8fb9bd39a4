import RemoteVfs.Pages.Flat

namespace RemoteVfs.Pages

open Base Base.Prog

variable {τ : Type}

-- Blocks are looked at and evicted. Without a memory limit none is evicted.
structure Drops (before after : Pages) : Prop where
  shape : SameShape before after
  pageCount : after.pageCount = before.pageCount
  dirty : after.dirty = before.dirty
  block : ∀ j, after.block j = before.block j ∨
    (j ∉ before.dirty ∧ before.whole = false ∧ after.block j = none)

theorem Drops.refl (pages : Pages) : Drops pages pages :=
  ⟨SameShape.refl _, rfl, rfl, fun _ => Or.inl rfl⟩

theorem drops_touch (pages : Pages) (index : Nat) : Drops pages (pages.touch index) :=
  ⟨(Reloads.touch pages index : Reloads (fun _ => []) _ _).shape, rfl, rfl,
    fun j => Or.inl (block_touch pages index j)⟩

theorem drops_makeRoom (pages : Pages) (incoming : Nat) (stats : Stats) :
    Drops pages (pages.makeRoom incoming stats).1 := by
  have hr : Reloads (fun _ => []) pages (pages.makeRoom incoming stats).1 :=
    Reloads.makeRoom pages incoming stats
  refine ⟨hr.shape, hr.pageCount, hr.dirty, fun j => ?_⟩
  rcases hr.block j with hsame | ⟨hclean, hlimited, hnone | ⟨hsome, -⟩⟩
  · exact Or.inl hsame
  · exact Or.inr ⟨hclean, hlimited, hnone⟩
  · unfold Pages.makeRoom at hsome ⊢
    dsimp only at hsome ⊢
    split_ifs at hsome ⊢
    · exact Or.inl rfl
    · rw [block_evict] at hsome ⊢
      split_ifs at hsome ⊢
      · exact Or.inl rfl

-- A relation that reading stays inside if its steps do: a look at a block in memory, and a
-- load after room was made for it.
structure Stays (R : Held τ → Held τ → Prop) (source : Source τ) : Prop where
  count : ∀ h : Held τ, R h h.count
  touch : ∀ (h : Held τ) (index : Nat), h.pages.has index = true → R h (h.mapPages (touch · index))
  load : ∀ (h : Held τ) (first count : Nat), h.pages.Asks first count →
    count ≤ h.pages.perFetch →
    R h (source.fill first count (h.makeRoom count)).2

-- A relation that reading stays inside if loading does.
structure Admits (R : Held τ → Held τ → Prop) (source : Source τ) : Prop where
  drops : ∀ a b : Held τ, b.source = a.source → Drops a.pages b.pages → R a b
  fill : ∀ (h : Held τ) (first count : Nat), h.pages.Asks first count →
    R h (source.fill first count h).2

-- The block and the bytes of one round of `write` with blocks of `size` bytes. Every round but
-- the first starts at the beginning of a block.
structure Chunk (offset : Nat) (data : Bytes) (size index within : Nat) (chunk : Bytes) : Prop where
  pos : 0 < size
  round : ∃ done < data.length, (done = 0 ∨ (offset + done) % size = 0) ∧
    index = (offset + done) / size ∧ within = (offset + done) % size ∧
    chunk = (data.drop done).take (min (size - within) (data.length - done))

theorem Chunk.length {offset size index within : Nat} {data chunk : Bytes}
    (h : Chunk offset data size index within chunk) : within < size ∧ within + chunk.length ≤ size := by
  obtain ⟨done, -, -, -, rfl, rfl⟩ := h.round
  have hlt := Nat.mod_lt (offset + done) h.pos
  rw [List.length_take]
  omega

variable {R : Held τ → Held τ → Prop} [IsPreorder (Held τ) R] {source : Source τ}

theorem Admits.stays (hR : Admits R source) : Stays R source where
  count h := hR.drops h h.count rfl (Drops.refl _)
  touch h _ _ := hR.drops h _ rfl (drops_touch _ _)
  load h first count hasks _ :=
    IsTrans.trans _ _ _ (hR.drops h (h.makeRoom count) rfl (drops_makeRoom _ _ h.stats))
      (hR.fill (h.makeRoom count) first count (hasks.makeRoom count h.stats))

-- The run of missing blocks that `ensure_loaded` asks for.
theorem asks_missing {pages : Pages} (hw : pages.whole = false) (index perFetch : Nat)
    (hcount : pages.missing index perFetch ≠ 0) :
    pages.Asks index (pages.missing index perFetch) := by
  have hle := missing_le pages index perFetch
  exact ⟨hw, by omega, by omega,
    fun i hlo hhi => (has_eq_false_iff _ _).mp (mem_missing pages hlo hhi)⟩

theorem ensureLoaded_stays (hR : Stays R source) (index : Nat) :
    Moves R (ensureLoaded source index) := by
  intro h
  simp only [ensureLoaded, gets_bind]
  by_cases hhas : h.pages.has index
  · simp only [hhas, if_true]
    exact hR.touch h index hhas
  by_cases hw : h.pages.whole
  · simp only [hhas, hw, if_true]
    exact Std.Refl.refl h
  simp only [hhas, hw, if_false, Bool.false_eq_true]
  by_cases hcount : h.pages.missing index h.pages.perFetch = 0
  · simp only [hcount, if_true]
    exact Std.Refl.refl h
  simp only [hcount, if_false, modify_bind]
  rw [Bool.not_eq_true] at hw
  exact hR.load h index _ (asks_missing hw index _ hcount) ((missing_le_min _ _ _).trans (Nat.min_le_left _ _))

theorem read_stays (hR : Stays R source) (offset length : Nat) :
    Moves R (read source offset length) := by
  refine Moves.loop (fun buf h => ?_) _ _
  unfold readStep
  by_cases hdone : length ≤ buf.length
  · simp only [hdone, if_true]
    exact hR.count h
  simp only [hdone, if_false, gets_bind]
  by_cases hzero : h.pages.pageSize = 0
  · simp only [hzero, if_true]
    exact Std.Refl.refl h
  simp only [hzero, if_false]
  by_cases hpast : h.pages.pageCount ≤ (offset + buf.length) / h.pages.pageSize
  · simp only [hpast, if_true]
    exact Std.Refl.refl h
  simp only [hpast, if_false]
  have hload := ensureLoaded_stays hR ((offset + buf.length) / h.pages.pageSize) h
  rw [bind_apply]
  generalize ensureLoaded source _ h = run at hload ⊢
  rcases run with ⟨_ | _ | _, h'⟩
  · refine IsTrans.trans _ _ _ hload ?_
    simp only [gets_bind]
    cases h'.pages.block ((offset + buf.length) / h.pages.pageSize) with
    | none => exact Std.Refl.refl h'
    | some block =>
        dsimp only
        split_ifs <;> exact Std.Refl.refl h'
  · exact hload
  · exact hload

theorem read_admits (hR : Admits R source) (offset length : Nat) :
    Moves R (read source offset length) := read_stays hR.stays offset length

theorem place_carries {inv : Held τ → Prop} {index within : Nat} {chunk : Bytes}
    (hput : ∀ h, inv h → (∀ block, h.pages.block index = some block →
      within + chunk.length ≤ block.length) → inv (h.mapPages (put · index within chunk))) :
    Moves (Carries inv) (place index within chunk : Prog (Held τ) Broken Unit) := by
  intro h hinv
  unfold place
  rw [gets_bind]
  by_cases hshort : (h.pages.block index).any (·.length < within + chunk.length) = true
  · rw [if_pos hshort]
    exact hinv
  · rw [if_neg hshort]
    refine hput h hinv fun block hblock => ?_
    simpa [hblock] using hshort

-- A round ends at the end of its block or at the end of the write.
theorem next_round {size : Nat} (hpos : 0 < size) (offset done length : Nat) :
    (offset + (done + min (size - (offset + done) % size) (length - done))) % size = 0 ∨
      length ≤ done + min (size - (offset + done) % size) (length - done) := by
  have hlt := Nat.mod_lt (offset + done) hpos
  by_cases hend : length ≤ done + min (size - (offset + done) % size) (length - done)
  · exact Or.inr hend
  · refine Or.inl ?_
    have hmin : min (size - (offset + done) % size) (length - done) = size - (offset + done) % size := by
      omega
    have hdiv := Nat.div_add_mod (offset + done) size
    have hsum : offset + (done + (size - (offset + done) % size)) =
        size * ((offset + done) / size + 1) := by
      rw [Nat.mul_add]
      omega
    rw [hmin, hsum, Nat.mul_mod_right]

-- Writing keeps an invariant that loading keeps and that each chunk keeps.
theorem write_carries {inv : Held τ → Prop} {size offset : Nat} {data : Bytes}
    (hR : Stays (Carries inv) source) (hsize : ∀ h, inv h → h.pages.pageSize = size)
    (hput : ∀ h index within chunk, inv h → Chunk offset data size index within chunk →
      (∀ block, h.pages.block index = some block → within + chunk.length ≤ block.length) →
      inv (h.mapPages (put · index within chunk))) :
    Moves (Carries inv) (write source offset data) := by
  -- The loop is at the start of the write, at a block boundary, or at its end.
  refine Carries.loop (fun done => done = 0 ∨ (offset + done) % size = 0 ∨ data.length ≤ done)
    (fun done hreached h hinv => ?_) _ (Or.inl rfl)
  unfold writeStep
  by_cases hdone : data.length ≤ done
  · simp only [hdone, if_true]
    exact ⟨hR.count h hinv, trivial⟩
  simp only [hdone, if_false, gets_bind]
  rw [hsize h hinv]
  by_cases hzero : size = 0
  · simp only [hzero, if_true]
    exact ⟨hinv, trivial⟩
  simp only [hzero, if_false]
  have hplace : Triple inv (do
      place ((offset + done) / size) ((offset + done) % size)
        ((data.drop done).take (min (size - (offset + done) % size) (data.length - done)))
      return .inl (done + min (size - (offset + done) % size) (data.length - done)) :
      Prog (Held τ) Broken (Nat ⊕ Unit))
      (Ends inv (orDone (fun done _ => done = 0 ∨ (offset + done) % size = 0 ∨ data.length ≤ done)
        fun _ _ => True)) := by
    refine Ends.bind (Carries.ends (place_carries fun h hinv hfits => ?_) fun _ h => h) fun _ => ?_
    · exact hput h _ _ _ hinv ⟨by omega, done, by omega, by omega, rfl, rfl, rfl⟩ hfits
    · refine Ends.pure fun h hinv => ⟨hinv.1, Or.inr ?_⟩
      exact next_round (by omega) offset done data.length
  split_ifs with hpart
  · have hload := ensureLoaded_stays hR ((offset + done) / size) h hinv
    rw [bind_apply]
    generalize ensureLoaded source _ h = run at hload ⊢
    rcases run with ⟨_ | _ | _, h'⟩
    · exact hplace h' hload
    · exact ⟨hload, trivial⟩
    · exact ⟨hload, trivial⟩
  · exact hplace h hinv

-- Writing fails only where loading does.
theorem write_fails {bad : Broken → Held τ → Prop} (hfill : ∀ first count, Fails bad (source.fill first count))
    (offset : Nat) (data : Bytes) : Fails bad (write source offset data) := by
  have hload : ∀ index, Fails bad (ensureLoaded source index) := by
    intro index
    refine Fails.bind (Fails.gets _) fun pages => Fails.ite (Fails.modify _) ?_
    refine Fails.ite (Fails.pure _) (Fails.ite (Fails.pure _) ?_)
    exact Fails.bind (Fails.modify _) fun _ => hfill _ _
  have hplace : ∀ index within chunk, Fails bad (place index within chunk : Prog (Held τ) Broken Unit) := by
    intro index within chunk
    refine Fails.bind (Fails.gets _) fun block => Fails.ite ?_ (Fails.modify _)
    exact fun _ _ _ h => by cases h
  refine Fails.loop (fun done => ?_) _ _
  refine Fails.ite (Fails.bind (Fails.modify _) fun _ => Fails.pure _) ?_
  refine Fails.bind (Fails.gets _) fun pages => Fails.ite (fun _ _ _ h => by cases h) ?_
  refine Fails.ite (Fails.bind (hload _) fun _ => ?_) ?_
  · exact Fails.bind (hplace _ _ _) fun _ => Fails.pure _
  · exact Fails.bind (hplace _ _ _) fun _ => Fails.pure _

-- A relation that also holds each chunk of a write.
theorem write_stays (hR : Stays R source)
    (hput : ∀ (h : Held τ) (index within : Nat) (chunk : Bytes),
      R h (h.mapPages (put · index within chunk))) (offset : Nat) (data : Bytes) :
    Moves R (write source offset data) := by
  refine Moves.loop (fun done h => ?_) _ _
  unfold writeStep
  by_cases hdone : data.length ≤ done
  · simp only [hdone, if_true]
    exact hR.count h
  simp only [hdone, if_false, gets_bind]
  by_cases hzero : h.pages.pageSize = 0
  · simp only [hzero, if_true]
    exact Std.Refl.refl h
  simp only [hzero, if_false]
  have hplace : ∀ chunk index within n, Moves R (do
      place index within chunk
      return .inl (done + n) : Prog (Held τ) Broken (Nat ⊕ Unit)) := by
    intro chunk index within n
    refine Moves.bind (Moves.bind (Moves.gets _) fun block => ?_) fun _ => Moves.pure _
    exact Moves.ite (fun h => Std.Refl.refl h) (Moves.modify fun h => hput h index within chunk)
  split_ifs with hpart
  · have hload := ensureLoaded_stays hR ((offset + done) / h.pages.pageSize) h
    rw [bind_apply]
    generalize ensureLoaded source _ h = run at hload ⊢
    rcases run with ⟨_ | _ | _, h'⟩
    · exact IsTrans.trans _ _ _ hload (hplace _ _ _ _ h')
    · exact hload
    · exact hload
  · exact hplace _ _ _ _ h

-- A relation that reading and writing stay inside if loading does.
structure Respects (R : Held τ → Held τ → Prop) (source : Source τ) : Prop where
  pages : ∀ a b : Held τ, b.source = a.source → SameShape a.pages b.pages → R a b
  fill : ∀ (h : Held τ) (first count : Nat), h.pages.Asks first count →
    R h (source.fill first count h).2

theorem Respects.admits {R : Held τ → Held τ → Prop} (hR : Respects R source) : Admits R source :=
  ⟨fun a b hsource hdrops => hR.pages a b hsource hdrops.shape, hR.fill⟩

theorem read_respects (hR : Respects R source) (offset length : Nat) :
    Moves R (read source offset length) := read_admits hR.admits offset length

theorem write_respects (hR : Respects R source) (offset : Nat) (data : Bytes) :
    Moves R (write source offset data) :=
  write_stays hR.admits.stays (fun h _ _ _ => hR.pages h _ rfl (shape_put _ _ _ _)) offset data

section Guards

-- A property of the source that reading and writing keep if loading does.
variable {inv lost : τ → Prop} (hlost : ∀ source, inv source → lost source)
  (hfill : ∀ first count, Guards (fun h : Held τ => lost h.source) (fun h => inv h.source)
    (source.fill first count))

include hfill

theorem ensureLoaded_guards (index : Nat) :
    Guards (fun h : Held τ => lost h.source) (fun h => inv h.source) (ensureLoaded source index) := by
  refine Guards.bind (Guards.gets _) fun pages => Guards.ite (fun _ h => h) (Guards.ite (Guards.pure _) ?_)
  exact Guards.ite (Guards.pure _) (Guards.bind (fun _ h => h) fun _ => hfill _ _)

include hlost

theorem read_guards (offset length : Nat) :
    Guards (fun h : Held τ => lost h.source) (fun h => inv h.source) (read source offset length) := by
  have hstuck : Guards (fun h : Held τ => lost h.source) (fun h => inv h.source)
      (Prog.stuck : Prog (Held τ) Broken (Bytes ⊕ Bytes × Bool)) := fun h hinv => hlost h.source hinv
  refine Guards.loop (fun buf => ?_) (fun h : Held τ => hlost h.source) _ _
  unfold readStep
  by_cases hdone : length ≤ buf.length
  · simp only [hdone, if_true]
    exact Guards.bind (fun _ h => h) fun _ => Guards.pure _
  · simp only [hdone, if_false]
    refine Guards.bind (Guards.gets _) fun pages => Guards.ite hstuck (Guards.ite (Guards.pure _) ?_)
    refine Guards.bind (ensureLoaded_guards hfill _) fun _ => Guards.bind (Guards.gets _) fun block => ?_
    cases block with
    | none => exact Guards.pure _
    | some data => exact Guards.ite hstuck (Guards.pure _)

theorem write_guards (offset : Nat) (data : Bytes) :
    Guards (fun h : Held τ => lost h.source) (fun h => inv h.source) (write source offset data) := by
  have hplace : ∀ index within chunk n, Guards (fun h : Held τ => lost h.source) (fun h => inv h.source) (do
      place index within chunk
      return .inl n : Prog (Held τ) Broken (Nat ⊕ Unit)) := by
    intro index within chunk n
    refine Guards.bind (Guards.bind (Guards.gets _) fun block => Guards.ite ?_ fun _ h => h) fun _ => Guards.pure _
    exact fun h hinv => hlost h.source hinv
  refine Guards.loop (fun done => ?_) (fun h : Held τ => hlost h.source) _ _
  unfold writeStep
  by_cases hdone : data.length ≤ done
  · simp only [hdone, if_true]
    exact Guards.bind (fun _ h => h) fun _ => Guards.pure _
  · simp only [hdone, if_false]
    refine Guards.bind (Guards.gets _) fun pages => Guards.ite (fun h hinv => hlost h.source hinv) ?_
    exact Guards.ite (Guards.bind (ensureLoaded_guards hfill _) fun _ => hplace _ _ _ _) (hplace _ _ _ _)

end Guards

end RemoteVfs.Pages
