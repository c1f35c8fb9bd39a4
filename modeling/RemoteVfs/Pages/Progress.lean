import RemoteVfs.Pages.Moves

namespace RemoteVfs.Pages

open Base Base.Prog

variable {τ : Type}

-- What reading and writing need to come to an end: blocks of full size, and loads that keep
-- them so. A load that does not come back is left at `lost`.
structure Proceeds (size : Nat) (inv lost : Held τ → Prop) (source : Source τ) : Prop where
  pos : 0 < size
  pageSize : ∀ h, inv h → h.pages.pageSize = size
  block : ∀ h i data, inv h → h.pages.block i = some data → data.length = size
  count : ∀ h, inv h → inv h.count
  load : ∀ index, Triple inv (ensureLoaded source index) (Settles lost inv fun _ => inv)

variable {size : Nat} {inv lost : Held τ → Prop} {source : Source τ}

-- One round reads at least one byte.
theorem readStep_settles (hgo : Proceeds size inv lost source) (offset length : Nat) (buf : Bytes) :
    Triple inv (readStep source offset length buf)
      (Settles lost inv (orDone (fun next h => inv h ∧ length - next.length < length - buf.length)
        fun _ => inv)) := by
  intro h hinv
  have hpos := hgo.pos
  unfold readStep
  by_cases hdone : length ≤ buf.length
  · rw [if_pos hdone]
    exact hgo.count h hinv
  rw [if_neg hdone, gets_bind, hgo.pageSize h hinv, if_neg (Nat.ne_of_gt hpos)]
  by_cases hpast : h.pages.pageCount ≤ (offset + buf.length) / size
  · rw [if_pos hpast]
    exact hinv
  rw [if_neg hpast]
  have hlt := Nat.mod_lt (offset + buf.length) hpos
  set n := min (size - (offset + buf.length) % size) (length - buf.length) with hn
  refine Settles.bind (hgo.load _) (fun _ => ?_) h hinv
  refine Triple.gets fun block => ?_
  rintro h' ⟨hafter, rfl⟩
  cases hblock : h'.pages.block ((offset + buf.length) / size) with
  | none =>
      refine ⟨hafter, ?_⟩
      rw [List.length_append, length_zeros]
      omega
  | some data =>
      have hdata := hgo.block h' _ data hafter hblock
      dsimp only
      rw [if_neg (by omega)]
      refine ⟨hafter, ?_⟩
      rw [List.length_append, List.length_take, List.length_drop]
      omega

theorem read_settles (hgo : Proceeds size inv lost source) (offset length : Nat) :
    Triple inv (read source offset length) (Settles lost inv fun _ => inv) := by
  refine Triple.loopDown (fun _ => inv) _ (fun buf : Bytes => length - buf.length) (fun buf => ?_) _ _
    (by simp)
  refine (readStep_settles hgo offset length buf).mono (fun _ h => h) fun o h hstep => ?_
  rcases o with (_ | _) | _ | _ <;> exact hstep

theorem place_settles (hgo : Proceeds size inv lost source) {index within : Nat} {chunk : Bytes}
    (hfits : within + chunk.length ≤ size)
    (hput : ∀ h, inv h → inv (h.mapPages (put · index within chunk))) :
    Triple inv (place index within chunk : Prog (Held τ) Broken Unit)
      (Settles lost inv fun _ => inv) := by
  intro h hinv
  unfold place
  rw [gets_bind, if_neg]
  · exact hput h hinv
  · cases hblock : h.pages.block index with
    | none => simp
    | some data =>
        have hdata := hgo.block h index data hinv hblock
        simp only [Option.any_some, decide_eq_true_eq]
        omega

-- The chunks of a write lie inside it, each in one block.
theorem writeStep_settles (hgo : Proceeds size inv lost source) {offset : Nat} {data : Bytes}
    (hput : ∀ position chunk, position + chunk.length ≤ offset + data.length →
      position % size + chunk.length ≤ size → ∀ h, inv h →
        inv (h.mapPages (put · (position / size) (position % size) chunk))) (done : Nat) :
    Triple inv (writeStep source offset data done)
      (Settles lost inv (orDone (fun next h => inv h ∧ data.length - next < data.length - done)
        fun _ => inv)) := by
  intro h hinv
  have hpos := hgo.pos
  unfold writeStep
  by_cases hdone : data.length ≤ done
  · rw [if_pos hdone]
    exact hgo.count h hinv
  rw [if_neg hdone, gets_bind, hgo.pageSize h hinv, if_neg (Nat.ne_of_gt hpos)]
  have hlt := Nat.mod_lt (offset + done) hpos
  set n := min (size - (offset + done) % size) (data.length - done) with hn
  have hlen : ((data.drop done).take n).length = n := by
    rw [List.length_take, List.length_drop]
    omega
  have hplace : Triple inv (do
      place ((offset + done) / size) ((offset + done) % size) ((data.drop done).take n)
      return .inl (done + n) : Prog (Held τ) Broken (Nat ⊕ Unit))
      (Settles lost inv (orDone (fun next h => inv h ∧ data.length - next < data.length - done)
        fun _ => inv)) := by
    refine Settles.bind (place_settles hgo (by omega) (hput _ _ (by omega) (by omega))) fun _ => ?_
    exact Triple.pure fun h hafter => ⟨hafter, by omega⟩
  split_ifs
  · exact Settles.bind (hgo.load _) (fun _ => hplace) h hinv
  · exact hplace h hinv

theorem write_settles (hgo : Proceeds size inv lost source) (offset : Nat) (data : Bytes)
    (hput : ∀ position chunk, position + chunk.length ≤ offset + data.length →
      position % size + chunk.length ≤ size → ∀ h, inv h →
        inv (h.mapPages (put · (position / size) (position % size) chunk))) :
    Triple inv (write source offset data) (Settles lost inv fun _ => inv) := by
  refine Triple.loopDown (fun _ => inv) _ (fun done => data.length - done) (fun done => ?_) _ _ (by simp)
  refine (writeStep_settles hgo hput done).mono (fun _ h => h) fun o h hstep => ?_
  rcases o with (_ | _) | _ | _ <;> exact hstep

end RemoteVfs.Pages
