import Mathlib.Logic.Basic

namespace RemoteVfs.Base

-- How a run ends. `hang` is a run that does not return: it panicked, or it is still
-- inside one of its waiting loops when the loop bound is used up. The second kind
-- stands for a prefix of a longer run.
inductive Outcome (ε α : Type) where
  | ok (value : α)
  | err (reason : ε)
  | hang
  deriving Repr, DecidableEq

def Outcome.map {ε α β : Type} (change : α → β) : Outcome ε α → Outcome ε β
  | .ok value => .ok (change value)
  | .err reason => .err reason
  | .hang => .hang

-- The value meets `good`; a run without a value meets `fails`, which is told the
-- error, or none for a hang.
def Outcome.Meets {ε α : Type} (fails : Option ε → Prop) (good : α → Prop) : Outcome ε α → Prop
  | .ok value => good value
  | .err reason => fails (some reason)
  | .hang => fails none

theorem Outcome.Meets.imp {ε α : Type} {fails : Option ε → Prop} {good good' : α → Prop}
    {o : Outcome ε α} (h : o.Meets fails good) (himp : ∀ value, good value → good' value) :
    o.Meets fails good' := by
  cases o with
  | ok value => exact himp value h
  | err reason => exact h
  | hang => exact h

-- Whether the run ended with a value, or with an error, that passes the test.
def Outcome.any {ε α : Type} (test : α → Bool) : Outcome ε α → Bool
  | .ok value => test value
  | _ => false

def Outcome.failing {ε α : Type} (test : ε → Bool) : Outcome ε α → Bool
  | .err reason => test reason
  | _ => false

theorem Outcome.of_any {ε α : Type} {test : α → Bool} {o : Outcome ε α} (h : o.any test = true) :
    ∃ value, o = .ok value ∧ test value = true := by
  cases o with
  | ok value => exact ⟨value, rfl, h⟩
  | err reason => cases h
  | hang => cases h

theorem Outcome.of_failing {ε α : Type} {test : ε → Bool} {o : Outcome ε α} (h : o.failing test = true) :
    ∃ reason, o = .err reason ∧ test reason = true := by
  cases o with
  | ok value => cases h
  | err reason => exact ⟨reason, rfl, h⟩
  | hang => cases h

-- A blocking program over the state σ. The final state is there however the run
-- ends: an error does not undo what was done before it.
def Prog (σ ε α : Type) : Type := σ → Outcome ε α × σ

namespace Prog

variable {σ τ ε δ α β : Type}

def bind (first : Prog σ ε α) (next : α → Prog σ ε β) : Prog σ ε β := fun s =>
  match first s with
  | (.ok value, s) => next value s
  | (.err reason, s) => (.err reason, s)
  | (.hang, s) => (.hang, s)

instance : Monad (Prog σ ε) where
  pure value := fun s => (.ok value, s)
  bind := bind

def fail (reason : ε) : Prog σ ε α := fun s => (.err reason, s)

def stuck : Prog σ ε α := fun s => (.hang, s)

def get : Prog σ ε σ := fun s => (.ok s, s)

def gets (view : σ → α) : Prog σ ε α := fun s => (.ok (view s), s)

def modify (change : σ → σ) : Prog σ ε Unit := fun s => (.ok (), change s)

-- Turns an error into a value, so that the caller can match on it.
def attempt (body : Prog σ ε α) : Prog σ δ (Except ε α) := fun s =>
  match body s with
  | (.ok value, s) => (.ok (.ok value), s)
  | (.err reason, s) => (.ok (.error reason), s)
  | (.hang, s) => (.hang, s)

-- Maps an error. The handler may change the state before it fails again.
def handle (body : Prog σ ε α) (handler : ε → Prog σ δ α) : Prog σ δ α := fun s =>
  match body s with
  | (.ok value, s) => (.ok value, s)
  | (.err reason, s) => handler reason s
  | (.hang, s) => (.hang, s)

-- Runs a program on a part of the state.
def zoom (view : σ → τ) (put : τ → σ → σ) (body : Prog τ ε α) : Prog σ ε α := fun s =>
  match body (view s) with
  | (result, part) => (result, put part s)

-- Repeats the body until it returns `inr`, at most `fuel` times.
def loop (body : β → Prog σ ε (β ⊕ α)) : Nat → β → Prog σ ε α
  | 0, _ => stuck
  | fuel + 1, state => bind (body state) fun
    | .inl state => loop body fuel state
    | .inr value => pure value

@[simp] theorem pure_apply (value : α) (s : σ) :
    (pure value : Prog σ ε α) s = (.ok value, s) := rfl

@[simp] theorem fail_apply (reason : ε) (s : σ) :
    (fail reason : Prog σ ε α) s = (.err reason, s) := rfl

@[simp] theorem stuck_apply (s : σ) : (stuck : Prog σ ε α) s = (.hang, s) := rfl

@[simp] theorem get_apply (s : σ) : (get : Prog σ ε σ) s = (.ok s, s) := rfl

@[simp] theorem gets_apply (view : σ → α) (s : σ) :
    (gets view : Prog σ ε α) s = (.ok (view s), s) := rfl

@[simp] theorem modify_apply (change : σ → σ) (s : σ) :
    (modify change : Prog σ ε Unit) s = (.ok (), change s) := rfl

theorem bind_apply (first : Prog σ ε α) (next : α → Prog σ ε β) (s : σ) :
    (first >>= next) s = match first s with
      | (.ok value, s) => next value s
      | (.err reason, s) => (.err reason, s)
      | (.hang, s) => (.hang, s) := rfl

theorem bind_ok {first : Prog σ ε α} {s s' : σ} {value : α} (next : α → Prog σ ε β)
    (h : first s = (.ok value, s')) : (first >>= next) s = next value s' := by
  simp [bind_apply, h]

theorem bind_err {first : Prog σ ε α} {s s' : σ} {reason : ε} (next : α → Prog σ ε β)
    (h : first s = (.err reason, s')) : (first >>= next) s = (.err reason, s') := by
  simp [bind_apply, h]

theorem bind_hang {first : Prog σ ε α} {s s' : σ} (next : α → Prog σ ε β)
    (h : first s = (.hang, s')) : (first >>= next) s = (.hang, s') := by
  simp [bind_apply, h]

@[simp] theorem pure_bind (value : α) (next : α → Prog σ ε β) :
    (pure value >>= next : Prog σ ε β) = next value := rfl

@[simp] theorem gets_bind (view : σ → α) (next : α → Prog σ ε β) (s : σ) :
    (gets view >>= next) s = next (view s) s := rfl

@[simp] theorem get_bind (next : σ → Prog σ ε β) (s : σ) : (get >>= next) s = next s s := rfl

@[simp] theorem modify_bind (change : σ → σ) (next : Unit → Prog σ ε β) (s : σ) :
    (modify change >>= next) s = next () (change s) := rfl

@[simp] theorem fail_bind (reason : ε) (next : α → Prog σ ε β) (s : σ) :
    (fail reason >>= next) s = (.err reason, s) := rfl

@[simp] theorem loop_zero (body : β → Prog σ ε (β ⊕ α)) (state : β) :
    loop body 0 state = stuck := rfl

theorem loop_succ (body : β → Prog σ ε (β ⊕ α)) (fuel : Nat) (state : β) :
    loop body (fuel + 1) state = body state >>= fun
      | .inl state => loop body fuel state
      | .inr value => pure value := rfl

end Prog

end RemoteVfs.Base
