import RemoteVfs.Base.Program
import Mathlib.Order.Defs.Unbundled

namespace RemoteVfs.Base.Prog

variable {σ τ ε δ α β : Type}

-- Partial correctness over all three ends of a run. A statement about unfinished
-- runs is one about `hang`.
def Triple (pre : σ → Prop) (body : Prog σ ε α) (post : Outcome ε α → σ → Prop) : Prop :=
  ∀ s, pre s → post (body s).1 (body s).2

-- The assertion between two programs: a value goes on, an error or a hang is final.
def andThen (mid : α → σ → Prop) (post : Outcome ε β → σ → Prop) : Outcome ε α → σ → Prop
  | .ok value, s => mid value s
  | .err reason, s => post (.err reason) s
  | .hang, s => post .hang s

-- The assertion after one round of a loop.
def orDone (again : β → σ → Prop) (done : α → σ → Prop) : β ⊕ α → σ → Prop
  | .inl state => again state
  | .inr value => done value

namespace Triple

variable {pre : σ → Prop} {post : Outcome ε α → σ → Prop}

theorem mono {pre' : σ → Prop} {post' : Outcome ε α → σ → Prop} {body : Prog σ ε α}
    (h : Triple pre body post) (hpre : ∀ s, pre' s → pre s)
    (hpost : ∀ o s, post o s → post' o s) : Triple pre' body post' :=
  fun s hs => hpost _ _ (h s (hpre s hs))

theorem pure {value : α} (h : ∀ s, pre s → post (.ok value) s) :
    Triple pre (Pure.pure value : Prog σ ε α) post := h

theorem and {post' : Outcome ε α → σ → Prop} {body : Prog σ ε α} (h : Triple pre body post)
    (h' : Triple pre body post') : Triple pre body fun o s => post o s ∧ post' o s :=
  fun s hs => ⟨h s hs, h' s hs⟩

theorem fail {reason : ε} (h : ∀ s, pre s → post (.err reason) s) :
    Triple pre (Prog.fail reason : Prog σ ε α) post := h

theorem modify {change : σ → σ} {post : Outcome ε Unit → σ → Prop}
    (h : ∀ s, pre s → post (.ok ()) (change s)) :
    Triple pre (Prog.modify change : Prog σ ε Unit) post := h

theorem bind {first : Prog σ ε α} {next : α → Prog σ ε β} {mid : α → σ → Prop}
    {post : Outcome ε β → σ → Prop} (hfirst : Triple pre first (andThen mid post))
    (hnext : ∀ value, Triple (mid value) (next value) post) :
    Triple pre (first >>= next) post := by
  intro s hs
  have h := hfirst s hs
  rw [bind_apply]
  generalize first s = run at h ⊢
  rcases run with ⟨_ | _ | _, s'⟩
  · exact hnext _ s' h
  · exact h
  · exact h

-- Reading the state binds the state itself.
theorem gets {view : σ → α} {next : α → Prog σ ε β} {post : Outcome ε β → σ → Prop}
    (h : ∀ value, Triple (fun s => pre s ∧ view s = value) (next value) post) :
    Triple pre (Prog.gets view >>= next) post :=
  fun s hs => h (view s) s ⟨hs, rfl⟩

theorem get {next : σ → Prog σ ε β} {post : Outcome ε β → σ → Prop}
    (h : ∀ value, Triple (fun s => pre s ∧ s = value) (next value) post) :
    Triple pre (Prog.get >>= next) post :=
  fun s hs => h s s ⟨hs, rfl⟩

theorem ite {c : Prop} [Decidable c] {yes no : Prog σ ε α}
    (hyes : c → Triple pre yes post) (hno : ¬c → Triple pre no post) :
    Triple pre (if c then yes else no) post := by
  by_cases h : c
  · simpa [h] using hyes h
  · simpa [h] using hno h

theorem attempt {body : Prog σ ε α} {post : Outcome δ (Except ε α) → σ → Prop}
    (h : Triple pre body fun
      | .ok value => post (.ok (.ok value))
      | .err reason => post (.ok (.error reason))
      | .hang => post .hang) :
    Triple pre (Prog.attempt body) post := by
  intro s hs
  have h := h s hs
  unfold Prog.attempt
  generalize body s = run at h ⊢
  rcases run with ⟨_ | _ | _, s'⟩ <;> exact h

theorem handle {body : Prog σ ε α} {handler : ε → Prog σ δ α} {mid : ε → σ → Prop}
    {post : Outcome δ α → σ → Prop}
    (h : Triple pre body fun
      | .ok value => post (.ok value)
      | .err reason => mid reason
      | .hang => post .hang)
    (hh : ∀ reason, Triple (mid reason) (handler reason) post) :
    Triple pre (Prog.handle body handler) post := by
  intro s hs
  have h := h s hs
  unfold Prog.handle
  generalize body s = run at h ⊢
  rcases run with ⟨_ | _ | _, s'⟩
  · exact h
  · exact hh _ s' h
  · exact h

theorem zoom {view : σ → τ} {put : τ → σ → σ} {body : Prog τ ε α}
    (h : ∀ s, pre s → Triple (· = view s) body fun o part => post o (put part s)) :
    Triple pre (Prog.zoom view put body) post :=
  fun s hs => h s hs (view s) rfl

-- The induction is on the loop bound. The invariant may use the loop's own state.
theorem loop {body : β → Prog σ ε (β ⊕ α)} (inv : β → σ → Prop)
    (post : Outcome ε α → σ → Prop)
    (hbody : ∀ state, Triple (inv state) (body state)
      (andThen (orDone inv fun value => post (.ok value)) post))
    (hhang : ∀ state s, inv state s → post .hang s) (fuel : Nat) (state : β) :
    Triple (inv state) (Prog.loop body fuel state) post := by
  induction fuel generalizing state with
  | zero => exact fun s hs => hhang state s hs
  | succ fuel ih =>
      rw [loop_succ]
      apply bind (hbody state)
      rintro (next | value)
      · exact ih next
      · exact fun s hs => hs

-- A loop whose measure goes down never uses its bound up.
theorem loopMeasure {body : β → Prog σ ε (β ⊕ α)} (inv : β → σ → Prop)
    (post : Outcome ε α → σ → Prop) (measure : β → σ → Nat)
    (hbody : ∀ state n, Triple (fun s => inv state s ∧ measure state s = n) (body state)
      (andThen (orDone (fun next s => inv next s ∧ measure next s < n)
        fun value => post (.ok value)) post))
    (fuel : Nat) (state : β) :
    Triple (fun s => inv state s ∧ measure state s < fuel) (Prog.loop body fuel state) post := by
  induction fuel generalizing state with
  | zero => exact fun s hs => absurd hs.2 (Nat.not_lt_zero _)
  | succ fuel ih =>
      rintro s ⟨hs, hfuel⟩
      rw [loop_succ]
      refine bind (hbody state (measure state s)) ?_ s ⟨hs, rfl⟩
      rintro (next | value)
      · rintro s' ⟨hs', hlt⟩
        exact ih next s' ⟨hs', by omega⟩
      · exact fun s' hs' => hs'

theorem loopDown {body : β → Prog σ ε (β ⊕ α)} (inv : β → σ → Prop)
    (post : Outcome ε α → σ → Prop) (measure : β → Nat)
    (hbody : ∀ state, Triple (inv state) (body state)
      (andThen (orDone (fun next s => inv next s ∧ measure next < measure state)
        fun value => post (.ok value)) post))
    (fuel : Nat) (state : β) (hfuel : measure state < fuel) :
    Triple (inv state) (Prog.loop body fuel state) post := by
  refine Triple.mono (loopMeasure inv post (fun state _ => measure state) (fun state n => ?_) fuel state)
    (fun s hs => ⟨hs, hfuel⟩) fun _ _ h => h
  rintro s ⟨hs, rfl⟩
  exact hbody state s hs

end Triple

-- The condition holds at the start of every round of a loop.
def Along (body : β → Prog σ ε (β ⊕ α)) (admitted : β → σ → Prop) : Nat → β → σ → Prop
  | 0, _, _ => True
  | fuel + 1, state, s => admitted state s ∧
      ∀ next s', body state s = (.ok (.inl next), s') → Along body admitted fuel next s'

theorem Triple.loopAlong {body : β → Prog σ ε (β ⊕ α)} {admitted : β → σ → Prop}
    (inv : β → σ → Prop) (post : Outcome ε α → σ → Prop)
    (hbody : ∀ state, Triple (fun s => inv state s ∧ admitted state s) (body state)
      (andThen (orDone inv fun value => post (.ok value)) post))
    (hhang : ∀ state s, inv state s → post .hang s) (fuel : Nat) (state : β) :
    Triple (fun s => inv state s ∧ Along body admitted fuel state s) (Prog.loop body fuel state)
      post := by
  induction fuel generalizing state with
  | zero => exact fun s hs => hhang state s hs.1
  | succ fuel ih =>
      rintro s ⟨hinv, hadmitted, hrest⟩
      have h := hbody state s ⟨hinv, hadmitted⟩
      rw [loop_succ, bind_apply]
      cases hrun : body state s with
      | mk result s' =>
          rw [hrun] at h
          rcases result with (next | value) | reason | _
          · exact ih next s' ⟨h, hrest next s' hrun⟩
          · exact h
          · exact h
          · exact h

-- The run keeps `keep` however it ends, and a value it ends with is good.
def Ends (keep : σ → Prop) (good : α → σ → Prop) (o : Outcome ε α) (s : σ) : Prop :=
  keep s ∧ o.Meets (fun _ => True) (good · s)

namespace Ends

variable {keep pre : σ → Prop} {good : α → σ → Prop}

theorem mono {pre' : σ → Prop} {good' : α → σ → Prop} {body : Prog σ ε α}
    (h : Triple pre body (Ends keep good)) (hpre : ∀ s, pre' s → pre s)
    (hgood : ∀ value s, keep s → good value s → good' value s) :
    Triple pre' body (Ends keep good') := by
  refine h.mono hpre fun o s ⟨hkeep, hmeets⟩ => ⟨hkeep, ?_⟩
  cases o with
  | ok value => exact hgood value s hkeep hmeets
  | err reason => exact hmeets
  | hang => exact hmeets

-- Nothing is asked.
theorem any (body : Prog σ ε α) :
    Triple (fun _ => True) body (Ends (fun _ => True) fun _ _ => True) := by
  intro s _
  refine ⟨trivial, ?_⟩
  cases (body s).1 with
  | ok value => trivial
  | err reason => trivial
  | hang => trivial

theorem fail {reason : ε} (h : ∀ s, pre s → keep s) :
    Triple pre (Prog.fail reason : Prog σ ε α) (Ends keep good) :=
  fun s hs => ⟨h s hs, trivial⟩

theorem pure {value : α} (h : ∀ s, pre s → keep s ∧ good value s) :
    Triple pre (Pure.pure value : Prog σ ε α) (Ends keep good) := h

theorem bind {first : Prog σ ε β} {next : β → Prog σ ε α} {mid : β → σ → Prop}
    (hfirst : Triple pre first (Ends keep mid))
    (hnext : ∀ value, Triple (fun s => keep s ∧ mid value s) (next value) (Ends keep good)) :
    Triple pre (first >>= next) (Ends keep good) := by
  refine Triple.bind (hfirst.mono (fun _ h => h) fun o s h => ?_) hnext
  cases o with
  | ok value => exact h
  | err reason => exact h
  | hang => exact h

-- A run that stops early meets the last assertion because it keeps `keep`.
theorem followed {first : Prog σ ε β} {next : β → Prog σ ε α} {mid : β → σ → Prop}
    {post : Outcome ε α → σ → Prop} (hfirst : Triple pre first (Ends keep mid))
    (hstop : ∀ o s, keep s → (∀ value, o ≠ .ok value) → post o s)
    (hnext : ∀ value, Triple (fun s => keep s ∧ mid value s) (next value) post) :
    Triple pre (first >>= next) post := by
  refine Triple.bind (hfirst.mono (fun _ h => h) fun o s h => ?_) hnext
  cases o with
  | ok value => exact h
  | err reason => exact hstop _ _ h.1 (by simp)
  | hang => exact hstop _ _ h.1 (by simp)

theorem handle {body : Prog σ ε α} {handler : ε → Prog σ δ α}
    (h : Triple pre body (Ends keep good))
    (hh : ∀ reason, Triple keep (handler reason) (Ends keep good)) :
    Triple pre (Prog.handle body handler) (Ends keep good) := by
  refine Triple.handle (h.mono (fun _ h => h) fun o s h => ?_) hh
  cases o with
  | ok value => exact h
  | err reason => exact h.1
  | hang => exact h

-- An error keeps `keep` and nothing else.
theorem attempt {body : Prog σ ε α} (h : Triple pre body (Ends keep good)) :
    Triple pre (Prog.attempt body : Prog σ δ (Except ε α))
      (Ends keep fun result s => ∀ value, result = .ok value → good value s) := by
  refine Triple.attempt (h.mono (fun _ h => h) fun o s h => ?_)
  cases o with
  | ok value => exact ⟨h.1, fun _ heq => by cases heq; exact h.2⟩
  | err reason => exact ⟨h.1, fun _ heq => by cases heq⟩
  | hang => exact ⟨h.1, trivial⟩

theorem loop {body : β → Prog σ ε (β ⊕ α)} (inv : β → σ → Prop)
    (hbody : ∀ state, Triple (fun s => keep s ∧ inv state s) (body state)
      (Ends keep (orDone inv good))) (fuel : Nat) (state : β) :
    Triple (fun s => keep s ∧ inv state s) (Prog.loop body fuel state) (Ends keep good) := by
  refine Triple.loop (fun state s => keep s ∧ inv state s) _ (fun state => ?_)
    (fun _ _ h => ⟨h.1, trivial⟩) fuel state
  refine (hbody state).mono (fun _ h => h) fun o s h => ?_
  rcases o with (_ | _) | _ | _ <;> exact h

end Ends

-- However the run ends: with a good value, with an error that keeps `keep`, or lost somewhere.
def Settles (lost keep : σ → Prop) (good : α → σ → Prop) : Outcome ε α → σ → Prop
  | .ok value, s => good value s
  | .err _, s => keep s
  | .hang, s => lost s

-- The same outcome, seen from another state.
theorem Settles.imp {lost keep : σ → Prop} {good : α → σ → Prop} {lost' keep' : τ → Prop} {good' : α → τ → Prop}
    {o : Outcome ε α} {s : σ} {t : τ} (h : Settles lost keep good o s) (hlost : lost s → lost' t)
    (hkeep : keep s → keep' t) (hgood : ∀ value, good value s → good' value t) :
    Settles lost' keep' good' o t := by
  cases o with
  | ok value => exact hgood value h
  | err reason => exact hkeep h
  | hang => exact hlost h

-- The same holds however the run ends.
theorem settles_same {keep : σ → Prop} {o : Outcome ε α} {s : σ} :
    Settles keep keep (fun _ => keep) o s ↔ keep s := by
  cases o with
  | ok value => exact Iff.rfl
  | err reason => exact Iff.rfl
  | hang => exact Iff.rfl

theorem Settles.bind {lost keep pre : σ → Prop} {good : α → σ → Prop} {first : Prog σ ε β}
    {next : β → Prog σ ε α} {mid : β → σ → Prop} (hfirst : Triple pre first (Settles lost keep mid))
    (hnext : ∀ value, Triple (mid value) (next value) (Settles lost keep good)) :
    Triple pre (first >>= next) (Settles lost keep good) := by
  refine Triple.bind (hfirst.mono (fun _ h => h) fun o s h => ?_) hnext
  cases o with
  | ok value => exact h
  | err reason => exact h
  | hang => exact h

theorem Settles.attempt {lost keep keep' pre : σ → Prop} {good : α → σ → Prop} {body : Prog σ ε α}
    (h : Triple pre body (Settles lost keep good)) :
    Triple pre (Prog.attempt body : Prog σ δ (Except ε α)) (Settles lost keep' fun result s =>
      match result with
      | .ok value => good value s
      | .error _ => keep s) := by
  refine Triple.attempt (h.mono (fun _ h => h) fun o s h => ?_)
  cases o with
  | ok value => exact h
  | err reason => exact h
  | hang => exact h

theorem Settles.handle {lost mid keep pre : σ → Prop} {good : α → σ → Prop} {body : Prog σ ε α}
    {handler : ε → Prog σ δ α} (h : Triple pre body (Settles lost mid good))
    (hh : ∀ reason, Triple mid (handler reason) (Settles lost keep good)) :
    Triple pre (Prog.handle body handler) (Settles lost keep good) := by
  refine Triple.handle (h.mono (fun _ h => h) fun o s h => ?_) hh
  cases o with
  | ok value => exact h
  | err reason => exact h
  | hang => exact h

theorem Settles.loop {lost keep : σ → Prop} {good : α → σ → Prop} {body : β → Prog σ ε (β ⊕ α)}
    (inv : β → σ → Prop)
    (hbody : ∀ state, Triple (inv state) (body state) (Settles lost keep (orDone inv good)))
    (hlost : ∀ state s, inv state s → lost s) (fuel : Nat) (state : β) :
    Triple (inv state) (Prog.loop body fuel state) (Settles lost keep good) := by
  refine Triple.loop inv _ (fun state => ?_) hlost fuel state
  refine (hbody state).mono (fun _ h => h) fun o s h => ?_
  rcases o with (_ | _) | _ | _ <;> exact h

theorem Settles.weaken {lost keep pre : σ → Prop} {good good' : α → σ → Prop} {body : Prog σ ε α}
    (h : Triple pre body (Settles lost keep good)) (hgood : ∀ value s, good value s → good' value s) :
    Triple pre body (Settles lost keep good') :=
  h.mono (fun _ h => h) fun _ s h => h.imp (fun h => h) (fun h => h) fun value => hgood value s

-- What a run on a part of the state leaves there.
theorem Settles.zoom {view : σ → τ} {put : τ → σ → σ} {lost keep pre : τ → Prop} {good : α → τ → Prop}
    {body : Prog τ ε α} (hput : ∀ part s, view (put part s) = part)
    (h : Triple pre body (Settles lost keep good)) :
    Triple (fun s => pre (view s)) (Prog.zoom view put body)
      (Settles (fun s => lost (view s)) (fun s => keep (view s)) fun value s => good value (view s)) := by
  refine Triple.zoom fun s hs => h.mono ?_ fun o part ho => ?_
  · rintro part rfl
    exact hs
  · rw [← hput part s] at ho
    exact ho.imp (fun h => h) (fun h => h) fun _ h => h

-- The run keeps the invariant. One that hangs is left somewhere in between.
def Guards (lost inv : σ → Prop) (body : Prog σ ε α) : Prop :=
  Triple inv body (Settles lost inv fun _ => inv)

namespace Guards

variable {lost inv : σ → Prop}

theorem pure (value : α) : Guards lost inv (Pure.pure value : Prog σ ε α) := fun _ h => h

theorem fail (reason : ε) : Guards lost inv (Prog.fail reason : Prog σ ε α) := fun _ h => h

theorem gets (view : σ → α) : Guards lost inv (Prog.gets view : Prog σ ε α) := fun _ h => h

theorem bind {first : Prog σ ε β} {next : β → Prog σ ε α} (hfirst : Guards lost inv first)
    (hnext : ∀ value, Guards lost inv (next value)) : Guards lost inv (first >>= next) :=
  Settles.bind hfirst hnext

theorem ite {c : Prop} [Decidable c] {yes no : Prog σ ε α} (hyes : Guards lost inv yes)
    (hno : Guards lost inv no) : Guards lost inv (if c then yes else no) :=
  Triple.ite (fun _ => hyes) fun _ => hno

theorem handle {body : Prog σ ε α} {handler : ε → Prog σ δ α} (h : Guards lost inv body)
    (hh : ∀ reason, Guards lost inv (handler reason)) : Guards lost inv (Prog.handle body handler) :=
  Settles.handle h hh

theorem attempt {body : Prog σ ε α} (h : Guards lost inv body) :
    Guards lost inv (Prog.attempt body : Prog σ δ (Except ε α)) := by
  refine Settles.weaken (Settles.attempt h) fun result s hs => ?_
  cases result with
  | ok value => exact hs
  | error reason => exact hs

theorem loop {body : β → Prog σ ε (β ⊕ α)} (h : ∀ state, Guards lost inv (body state))
    (hlost : ∀ s, inv s → lost s) (fuel : Nat) (state : β) :
    Guards lost inv (Prog.loop body fuel state) := by
  refine Settles.loop (fun _ => inv) (fun state => Settles.weaken (h state) ?_) (fun _ => hlost) fuel state
  rintro (_ | _) s hs
  · exact hs
  · exact hs

end Guards

-- The run comes to an end: with a good value, or with an error that keeps `keep`.
def Stops (keep : σ → Prop) (good : α → σ → Prop) : Outcome ε α → σ → Prop
  | .ok value, s => good value s
  | .err _, s => keep s
  | .hang, _ => False

-- A run that is never lost comes to an end.
theorem settles_iff_stops {pre keep : σ → Prop} {good : α → σ → Prop} {body : Prog σ ε α} :
    Triple pre body (Settles (fun _ => False) keep good) ↔ Triple pre body (Stops keep good) := by
  have hsame : ∀ o s, Settles (fun _ => False) keep good (o : Outcome ε α) s ↔ Stops keep good o s := by
    intro o s
    cases o with
    | ok value => exact Iff.rfl
    | err reason => exact Iff.rfl
    | hang => exact Iff.rfl
  exact ⟨fun h => h.mono (fun _ h => h) fun o s => (hsame o s).mp,
    fun h => h.mono (fun _ h => h) fun o s => (hsame o s).mpr⟩

-- The state after a run that only ends with a value.
abbrev Returns (good : α → σ → Prop) : Outcome ε α → σ → Prop := Stops (fun _ => False) good

-- However the run ends: with a good value, or somewhere in between at `keep`. It hangs only
-- in case of `stuck`.
def Halts (stuck : Prop) (keep : σ → Prop) (good : α → σ → Prop) : Outcome ε α → σ → Prop
  | .ok value, s => good value s
  | .err _, s => keep s
  | .hang, s => stuck ∧ keep s

namespace Halts

variable {stuck : Prop} {keep pre : σ → Prop} {good : α → σ → Prop}

theorem bind {first : Prog σ ε β} {next : β → Prog σ ε α} {mid : β → σ → Prop}
    (hfirst : Triple pre first (Halts stuck keep mid))
    (hnext : ∀ value, Triple (mid value) (next value) (Halts stuck keep good)) :
    Triple pre (first >>= next) (Halts stuck keep good) := by
  refine Triple.bind (hfirst.mono (fun _ h => h) fun o s h => ?_) hnext
  cases o with
  | ok value => exact h
  | err reason => exact h
  | hang => exact h

theorem mono {keep' : σ → Prop} {good' : α → σ → Prop} {body : Prog σ ε α}
    (h : Triple pre body (Halts stuck keep good)) (hkeep : ∀ s, keep s → keep' s)
    (hgood : ∀ value s, good value s → good' value s) :
    Triple pre body (Halts stuck keep' good') := by
  refine Triple.mono h (fun _ h => h) fun o s h => ?_
  cases o with
  | ok value => exact hgood value s h
  | err reason => exact hkeep s h
  | hang => exact ⟨h.1, hkeep s h.2⟩

theorem pure {value : α} (h : ∀ s, pre s → good value s) :
    Triple pre (Pure.pure value : Prog σ ε α) (Halts stuck keep good) := Triple.pure h

-- A run that cannot hang comes to an end.
theorem stops {body : Prog σ ε α} (h : Triple pre body (Halts stuck keep good)) (hstuck : ¬stuck) :
    Triple pre body (Stops keep good) := by
  refine Triple.mono h (fun _ h => h) fun o s h => ?_
  cases o with
  | ok value => exact h
  | err reason => exact h
  | hang => exact hstuck h.1

end Halts

namespace Stops

variable {keep pre : σ → Prop} {good : α → σ → Prop}

theorem bind {first : Prog σ ε β} {next : β → Prog σ ε α} {mid : β → σ → Prop}
    (hfirst : Triple pre first (Stops keep mid))
    (hnext : ∀ value, Triple (mid value) (next value) (Stops keep good)) :
    Triple pre (first >>= next) (Stops keep good) := by
  refine Triple.bind (hfirst.mono (fun _ h => h) fun o s h => ?_) hnext
  cases o with
  | ok value => exact h
  | err reason => exact h
  | hang => exact h.elim

theorem mono {keep' : σ → Prop} {good' : α → σ → Prop} {body : Prog σ ε α}
    (h : Triple pre body (Stops keep good)) (hkeep : ∀ s, keep s → keep' s)
    (hgood : ∀ value s, good value s → good' value s) : Triple pre body (Stops keep' good') := by
  refine Triple.mono h (fun _ h => h) fun o s h => ?_
  cases o with
  | ok value => exact hgood value s h
  | err reason => exact hkeep s h
  | hang => exact h

theorem attempt {body : Prog σ ε α} (h : Triple pre body (Stops keep good)) :
    Triple pre (Prog.attempt body : Prog σ δ (Except ε α)) (Returns fun result s =>
      match result with
      | .ok value => good value s
      | .error _ => keep s) := by
  refine Triple.attempt (h.mono (fun _ h => h) fun o s h => ?_)
  cases o with
  | ok value => exact h
  | err reason => exact h
  | hang => exact h

-- A program that only ends with a value is always followed by the next one.
theorem followed {first : Prog σ ε β} {next : β → Prog σ ε α} {mid : β → σ → Prop}
    {post : Outcome ε α → σ → Prop} (hfirst : Triple pre first (Returns mid))
    (hnext : ∀ value, Triple (mid value) (next value) post) : Triple pre (first >>= next) post := by
  refine Triple.bind (hfirst.mono (fun _ h => h) fun o s h => ?_) hnext
  cases o with
  | ok value => exact h
  | err reason => exact h.elim
  | hang => exact h.elim

end Stops

-- A program that stays inside a relation between states, however it ends. Used with
-- preorders: what only grows, what never changes, which invariants are kept.
def Moves (R : σ → σ → Prop) (body : Prog σ ε α) : Prop :=
  ∀ s, R s (body s).2

namespace Moves

variable {R : σ → σ → Prop}

theorem mono {R' : σ → σ → Prop} {body : Prog σ ε α} (h : Moves R body)
    (hR : ∀ s s', R s s' → R' s s') : Moves R' body :=
  fun s => hR _ _ (h s)

theorem pure [IsPreorder σ R] (value : α) : Moves R (Pure.pure value : Prog σ ε α) :=
  fun s => Std.Refl.refl s

theorem fail [IsPreorder σ R] (reason : ε) : Moves R (Prog.fail reason : Prog σ ε α) :=
  fun s => Std.Refl.refl s

theorem gets [IsPreorder σ R] (view : σ → α) : Moves R (Prog.gets view : Prog σ ε α) :=
  fun s => Std.Refl.refl s

theorem modify {change : σ → σ} (h : ∀ s, R s (change s)) :
    Moves R (Prog.modify change : Prog σ ε Unit) := h

theorem bind [IsPreorder σ R] {first : Prog σ ε α} {next : α → Prog σ ε β}
    (hfirst : Moves R first) (hnext : ∀ value, Moves R (next value)) :
    Moves R (first >>= next) := by
  intro s
  have h := hfirst s
  rw [bind_apply]
  generalize first s = run at h ⊢
  rcases run with ⟨_ | _ | _, s'⟩
  · exact IsTrans.trans _ _ _ h (hnext _ s')
  · exact h
  · exact h

theorem ite {c : Prop} [Decidable c] {yes no : Prog σ ε α}
    (hyes : Moves R yes) (hno : Moves R no) : Moves R (if c then yes else no) := by
  by_cases h : c
  · simpa [h] using hyes
  · simpa [h] using hno

theorem attempt {body : Prog σ ε α} (h : Moves R body) :
    Moves R (Prog.attempt body : Prog σ δ (Except ε α)) := by
  intro s
  have h := h s
  unfold Prog.attempt
  generalize body s = run at h ⊢
  rcases run with ⟨_ | _ | _, s'⟩ <;> exact h

theorem handle [IsPreorder σ R] {body : Prog σ ε α} {handler : ε → Prog σ δ α}
    (h : Moves R body) (hh : ∀ reason, Moves R (handler reason)) :
    Moves R (Prog.handle body handler) := by
  intro s
  have h := h s
  unfold Prog.handle
  generalize body s = run at h ⊢
  rcases run with ⟨_ | _ | _, s'⟩
  · exact h
  · exact IsTrans.trans _ _ _ h (hh _ s')
  · exact h

theorem zoom {S : τ → τ → Prop} {view : σ → τ} {put : τ → σ → σ} {body : Prog τ ε α}
    (h : Moves S body) (hput : ∀ s part, S (view s) part → R s (put part s)) :
    Moves R (Prog.zoom view put body) :=
  fun s => hput s _ (h (view s))

theorem loop [IsPreorder σ R] {body : β → Prog σ ε (β ⊕ α)}
    (hbody : ∀ state, Moves R (body state)) (fuel : Nat) (state : β) :
    Moves R (Prog.loop body fuel state) := by
  induction fuel generalizing state with
  | zero => exact fun s => Std.Refl.refl s
  | succ fuel ih =>
      rw [loop_succ]
      apply bind (hbody state)
      rintro (next | value)
      · exact ih next
      · exact pure value

-- An invariant is the relation that carries it from one state to the next.
theorem triple {R : σ → σ → Prop} {body : Prog σ ε α} (h : Moves R body)
    {pre : σ → Prop} {post : Outcome ε α → σ → Prop}
    (hpost : ∀ s o s', pre s → R s s' → post o s') : Triple pre body post :=
  fun s hs => hpost s _ _ hs (h s)

end Moves

-- A part of the state that does not change.
def Same (view : σ → β) (before after : σ) : Prop := view after = view before

instance (view : σ → β) : IsPreorder σ (Same view) where
  refl _ := rfl
  trans _ _ _ hab hbc := Eq.trans hbc hab

-- The relation that carries an invariant from one state to the next.
def Carries (inv : σ → Prop) (before after : σ) : Prop := inv before → inv after

instance (inv : σ → Prop) : IsPreorder σ (Carries inv) where
  refl _ h := h
  trans _ _ _ hab hbc h := hbc (hab h)

theorem Carries.ends {inv pre : σ → Prop} {body : Prog σ ε α} (h : Moves (Carries inv) body)
    (hpre : ∀ s, pre s → inv s) : Triple pre body (Ends inv fun _ _ => True) := by
  intro s hs
  refine ⟨h s (hpre s hs), ?_⟩
  cases (body s).1 with
  | ok value => trivial
  | err reason => trivial
  | hang => trivial

theorem Carries.guards {lost inv : σ → Prop} {body : Prog σ ε α} (h : Moves (Carries inv) body)
    (hlost : ∀ s, inv s → lost s) : Guards lost inv body :=
  fun s hs => (settles_same.mpr (h s hs)).imp (hlost _) (fun h => h) fun _ h => h

-- A relation is kept if everything that can be reached from a state is.
theorem Moves.guards {R : σ → σ → Prop} [IsPreorder σ R] {body : Prog σ ε α} (h : Moves R body) (first : σ) :
    Guards (R first) (R first) body :=
  fun s hs => settles_same.mpr (Trans.trans hs (h s))

theorem Moves.of_guards {R : σ → σ → Prop} [IsPreorder σ R] {body : Prog σ ε α}
    (h : ∀ first, Guards (R first) (R first) body) : Moves R body :=
  fun s => settles_same.mp (h s s (Std.Refl.refl s))

theorem Carries.halts {inv : σ → Prop} {body : Prog σ ε α} (h : Moves (Carries inv) body) :
    Triple inv body (Halts True inv fun _ => inv) := by
  intro s hs
  have hafter := h s hs
  generalize body s = run at hafter ⊢
  rcases run with ⟨value | reason | _, after⟩
  · exact hafter
  · exact hafter
  · exact ⟨trivial, hafter⟩

-- The rounds of a loop see only the loop states that are reached.
theorem Carries.loop {inv : σ → Prop} {body : β → Prog σ ε (β ⊕ α)} (reached : β → Prop)
    (hbody : ∀ state, reached state → Triple inv (body state)
      (Ends inv (orDone (fun next _ => reached next) fun _ _ => True)))
    (fuel : Nat) {state : β} (hstate : reached state) :
    Moves (Carries inv) (Prog.loop body fuel state) := by
  intro s hs
  exact (Ends.loop (fun state _ => reached state) (fun state s h => hbody state h.2 s h.1) fuel state s
    ⟨hs, hstate⟩).1

-- The errors with which a program may end, wherever it starts.
def Raises (errors : ε → Prop) (body : Prog σ ε α) : Prop :=
  ∀ s reason, (body s).1 = .err reason → errors reason

namespace Raises

variable {errors : ε → Prop}

theorem pure (value : α) : Raises errors (Pure.pure value : Prog σ ε α) :=
  fun _ _ h => by cases h

theorem gets (view : σ → α) : Raises errors (Prog.gets view : Prog σ ε α) :=
  fun _ _ h => by cases h

theorem modify (change : σ → σ) : Raises errors (Prog.modify change : Prog σ ε Unit) :=
  fun _ _ h => by cases h

theorem fail {reason : ε} (h : errors reason) : Raises errors (Prog.fail reason : Prog σ ε α) := by
  intro _ other heq
  cases heq
  exact h

theorem bind {first : Prog σ ε α} {next : α → Prog σ ε β} (hfirst : Raises errors first)
    (hnext : ∀ value, Raises errors (next value)) : Raises errors (first >>= next) := by
  intro s reason
  have h := hfirst s
  rw [bind_apply]
  generalize first s = run at h ⊢
  rcases run with ⟨_ | _ | _, s'⟩
  · exact hnext _ s' reason
  · intro heq
    cases heq
    exact h _ rfl
  · exact fun heq => by cases heq

theorem ite {c : Prop} [Decidable c] {yes no : Prog σ ε α}
    (hyes : Raises errors yes) (hno : Raises errors no) : Raises errors (if c then yes else no) := by
  by_cases h : c
  · simpa [h] using hyes
  · simpa [h] using hno

theorem attempt (body : Prog σ δ α) : Raises errors (Prog.attempt body : Prog σ ε (Except δ α)) := by
  intro s reason
  unfold Prog.attempt
  generalize body s = run
  rcases run with ⟨_ | _ | _, s'⟩ <;> exact fun heq => by cases heq

theorem zoom {view : σ → τ} {put : τ → σ → σ} {body : Prog τ ε α} (h : Raises errors body) :
    Raises errors (Prog.zoom view put body) :=
  fun s => h (view s)

theorem loop {body : β → Prog σ ε (β ⊕ α)} (hbody : ∀ state, Raises errors (body state))
    (fuel : Nat) (state : β) : Raises errors (Prog.loop body fuel state) := by
  induction fuel generalizing state with
  | zero => exact fun _ _ h => by cases h
  | succ fuel ih =>
      rw [loop_succ]
      apply bind (hbody state)
      rintro (next | value)
      · exact ih next
      · exact pure value

end Raises

-- Where a program that starts anywhere may fail, and how.
def Fails (bad : ε → σ → Prop) (body : Prog σ ε α) : Prop :=
  ∀ s reason s', body s = (.err reason, s') → bad reason s'

namespace Fails

variable {bad : ε → σ → Prop}

theorem of_raises {body : Prog σ ε α} (h : Raises (fun _ => False) body) : Fails bad body :=
  fun s reason _ hrun => (h s reason (by rw [hrun])).elim

theorem pure (value : α) : Fails bad (Pure.pure value : Prog σ ε α) :=
  fun _ _ _ h => by cases h

theorem gets (view : σ → α) : Fails bad (Prog.gets view : Prog σ ε α) :=
  fun _ _ _ h => by cases h

theorem modify (change : σ → σ) : Fails bad (Prog.modify change : Prog σ ε Unit) :=
  fun _ _ _ h => by cases h

theorem fail {reason : ε} (h : ∀ s, bad reason s) : Fails bad (Prog.fail reason : Prog σ ε α) := by
  intro s other s' heq
  cases heq
  exact h s

theorem bind {first : Prog σ ε α} {next : α → Prog σ ε β} (hfirst : Fails bad first)
    (hnext : ∀ value, Fails bad (next value)) : Fails bad (first >>= next) := by
  intro s reason s' hrun
  cases hone : first s with
  | mk result mid =>
      cases result with
      | ok value =>
          rw [bind_ok _ hone] at hrun
          exact hnext value mid reason s' hrun
      | err other =>
          rw [bind_err _ hone] at hrun
          cases hrun
          exact hfirst s _ _ hone
      | hang =>
          rw [bind_hang _ hone] at hrun
          cases hrun

theorem ite {c : Prop} [Decidable c] {yes no : Prog σ ε α}
    (hyes : Fails bad yes) (hno : Fails bad no) : Fails bad (if c then yes else no) := by
  by_cases h : c
  · rw [if_pos h]
    exact hyes
  · rw [if_neg h]
    exact hno

theorem attempt (body : Prog σ δ α) : Fails bad (Prog.attempt body : Prog σ ε (Except δ α)) := by
  intro s reason s'
  unfold Prog.attempt
  generalize body s = run
  rcases run with ⟨_ | _ | _, s'⟩ <;> exact fun heq => by cases heq

theorem handle {body : Prog σ δ α} {handler : δ → Prog σ ε α}
    (h : ∀ reason, Fails bad (handler reason)) : Fails bad (Prog.handle body handler) := by
  intro s reason s'
  unfold Prog.handle
  generalize body s = run
  rcases run with ⟨value | other | _, mid⟩
  · exact fun heq => by cases heq
  · exact h other mid reason s'
  · exact fun heq => by cases heq

theorem loop {body : β → Prog σ ε (β ⊕ α)} (hbody : ∀ state, Fails bad (body state))
    (fuel : Nat) (state : β) : Fails bad (Prog.loop body fuel state) := by
  induction fuel generalizing state with
  | zero => exact fun _ _ _ h => by cases h
  | succ fuel ih =>
      rw [loop_succ]
      apply bind (hbody state)
      rintro (next | value)
      · exact ih next
      · exact pure value

end Fails

-- Exactly the fatal errors take `up` away.
def Shuts (up : σ → Prop) (fatal : ε → Prop) (body : Prog σ ε α) : Prop :=
  Triple up body fun o s =>
    match o with
    | .ok _ => up s
    | .err reason => up s ↔ ¬fatal reason
    | .hang => True

namespace Shuts

variable {up : σ → Prop} {fatal : ε → Prop}

theorem of_moves {body : Prog σ ε α} (h : Moves (Carries up) body)
    (hraises : Raises (fun reason => ¬fatal reason) body) : Shuts up fatal body := by
  intro s hs
  have hup := h s hs
  have hreason := hraises s
  generalize body s = run at hup hreason ⊢
  rcases run with ⟨_ | reason | _, s'⟩
  · exact hup
  · exact ⟨fun _ => hreason reason rfl, fun _ => hup⟩
  · trivial

theorem pure (value : α) : Shuts up fatal (Pure.pure value : Prog σ ε α) := fun _ h => h

theorem gets (view : σ → α) : Shuts up fatal (Prog.gets view : Prog σ ε α) := fun _ h => h

theorem modify {change : σ → σ} (h : ∀ s, up s → up (change s)) :
    Shuts up fatal (Prog.modify change : Prog σ ε Unit) := h

theorem fail {reason : ε} (h : ¬fatal reason) : Shuts up fatal (Prog.fail reason : Prog σ ε α) :=
  fun _ hs => ⟨fun _ => h, fun _ => hs⟩

theorem bind {first : Prog σ ε α} {next : α → Prog σ ε β} (hfirst : Shuts up fatal first)
    (hnext : ∀ value, Shuts up fatal (next value)) : Shuts up fatal (first >>= next) := by
  refine Triple.bind (Triple.mono hfirst (fun _ h => h) ?_) hnext
  rintro (_ | _ | _) s h
  · exact h
  · exact h
  · exact h

theorem ite {c : Prop} [Decidable c] {yes no : Prog σ ε α} (hyes : Shuts up fatal yes)
    (hno : Shuts up fatal no) : Shuts up fatal (if c then yes else no) :=
  Triple.ite (fun _ => hyes) fun _ => hno

theorem zoom {view : σ → τ} {put : τ → σ → σ} {body : Prog τ ε α} {inner : τ → Prop}
    (h : Shuts inner fatal body) (hview : ∀ s, up s → inner (view s))
    (hput : ∀ part s, up (put part s) ↔ inner part) : Shuts up fatal (Prog.zoom view put body) := by
  intro s hs
  have hbody := h (view s) (hview s hs)
  unfold Prog.zoom
  generalize body (view s) = run at hbody ⊢
  rcases run with ⟨_ | _ | _, part⟩
  · exact (hput part s).mpr hbody
  · exact (hput part s).trans hbody
  · trivial

theorem loop {body : β → Prog σ ε (β ⊕ α)} (hbody : ∀ state, Shuts up fatal (body state)) (fuel : Nat)
    (state : β) : Shuts up fatal (Prog.loop body fuel state) := by
  refine Triple.loop (fun _ => up) _ (fun state => Triple.mono (hbody state) (fun _ h => h) ?_)
    (fun _ _ _ => trivial) fuel state
  rintro ((_ | _) | _ | _) s h
  · exact h
  · exact h
  · exact h
  · exact h

theorem failed {body : Prog σ ε α} (h : Shuts up fatal body) {s s' : σ} {reason : ε} (hs : up s)
    (hrun : body s = (.err reason, s')) : up s' ↔ ¬fatal reason := by
  have hbody := h s hs
  rw [hrun] at hbody
  exact hbody

end Shuts

theorem attempt_zoom (view : σ → τ) (put : τ → σ → σ) (body : Prog τ ε α) :
    (Prog.attempt (Prog.zoom view put body) : Prog σ δ (Except ε α)) = Prog.zoom view put (Prog.attempt body) := by
  funext s
  unfold Prog.attempt Prog.zoom
  dsimp only
  generalize body (view s) = run
  rcases run with ⟨_ | _ | _, s'⟩
  · rfl
  · rfl
  · rfl

-- Every value that a run ends with is good.
def Yields (good : α → Prop) (body : Prog σ ε α) : Prop :=
  ∀ s value, (body s).1 = .ok value → good value

namespace Yields

variable {good : α → Prop}

theorem any (body : Prog σ ε α) : Yields (fun _ => True) body := fun _ _ _ => trivial

theorem pure {value : α} (h : good value) : Yields good (Pure.pure value : Prog σ ε α) := by
  intro s other hother
  cases hother
  exact h

theorem fail (reason : ε) : Yields good (Prog.fail reason : Prog σ ε α) := fun _ _ h => by cases h

theorem bind {mid : β → Prop} {first : Prog σ ε β} {next : β → Prog σ ε α} (hfirst : Yields mid first)
    (hnext : ∀ value, mid value → Yields good (next value)) : Yields good (first >>= next) := by
  intro s value hvalue
  have hmid := hfirst s
  rw [bind_apply] at hvalue
  generalize first s = run at hmid hvalue
  rcases run with ⟨other | _ | _, s'⟩
  · exact hnext other (hmid other rfl) s' value hvalue
  · cases hvalue
  · cases hvalue

theorem ite {c : Prop} [Decidable c] {yes no : Prog σ ε α} (hyes : Yields good yes)
    (hno : Yields good no) : Yields good (if c then yes else no) := by
  split
  · exact hyes
  · exact hno

theorem attempt {body : Prog σ ε α} (h : Yields good body) :
    Yields (fun result => ∀ value, result = .ok value → good value)
      (Prog.attempt body : Prog σ δ (Except ε α)) := by
  intro s result hresult value hvalue
  have hgood := h s
  unfold Prog.attempt at hresult
  generalize body s = run at hgood hresult
  rcases run with ⟨other | _ | _, s'⟩
  · cases hresult
    cases hvalue
    exact hgood _ rfl
  · cases hresult
    cases hvalue
  · cases hresult

theorem zoom {view : σ → τ} {put : τ → σ → σ} {body : Prog τ ε α} (h : Yields good body) :
    Yields good (Prog.zoom view put body) := fun s => h (view s)

theorem triple {pre : σ → Prop} {mid : α → σ → Prop} {post : Outcome ε β → σ → Prop} {body : Prog σ ε α}
    (h : Yields good body) (hbody : Triple pre body (andThen mid post)) :
    Triple pre body (andThen (fun value s => good value ∧ mid value s) post) := by
  intro s hs
  have hafter := hbody s hs
  have hgood := h s
  generalize body s = run at hafter hgood ⊢
  rcases run with ⟨value | _ | _, s'⟩
  · exact ⟨hgood value rfl, hafter⟩
  · exact hafter
  · exact hafter

end Yields

end RemoteVfs.Base.Prog
