import RemoteVfs.MainFile
import RemoteVfs.Base.Program.Rules

namespace RemoteVfs

open Base Base.Prog

-- What every operation on the main database file keeps if its work on the database does. The
-- failure that the application is told does not matter.
structure MainFile.Calls {ω τ : Type} (E : Env ω) (bridge : LocalBridge τ) (lost inv : MainFile ω τ → Prop) :
    Prop where
  setFailure : ∀ {ε : Type} (failure : Option Failure),
    Guards lost inv (setFailure failure : Prog (MainFile ω τ) ε Unit)
  heal : ∀ {ε : Type}, Guards lost inv (onDb (healServer E) (pure none) :
    Prog (MainFile ω τ) ε (Option (Option Failure)))
  read : ∀ offset length,
    Guards lost inv (onDb (Database.read E offset length) (LocalDatabase.read bridge offset length))
  write : ∀ offset data,
    Guards lost inv (onDb (Database.write E offset data) (LocalDatabase.write bridge offset data))
  truncate : ∀ size, Guards lost inv (onDb (Database.truncate size) (LocalDatabase.truncate size))
  commit : ∀ timeout, Guards lost inv (onDb (Database.commit E timeout) (LocalDatabase.commit bridge))

namespace MainFile.Calls

variable {ω τ ε α : Type} {E : Env ω} {bridge : LocalBridge τ} {lost inv : MainFile ω τ → Prop}

theorem healed (h : Calls E bridge lost inv) :
    Guards lost inv (MainFile.heal E : Prog (MainFile ω τ) ε Unit) := by
  refine Guards.bind h.heal fun failure => ?_
  cases failure with
  | none => exact Guards.pure _
  | some failure => exact h.setFailure failure

theorem recorded (h : Calls E bridge lost inv) (result : Except Broken α) :
    Guards lost inv (record result : Prog (MainFile ω τ) Broken α) := by
  cases result with
  | ok value => exact Guards.pure _
  | error reason =>
      refine Guards.bind (Guards.gets _) fun main => ?_
      cases main.broken with
      | some broken => exact Guards.bind (h.setFailure _) fun _ => Guards.fail _
      | none => exact Guards.fail _

theorem refused (h : Calls E bridge lost inv) (page1 : Bytes) :
    Guards lost inv (refusesPlaintext page1 : Prog (MainFile ω τ) ε Bool) := by
  refine Guards.bind (Guards.gets _) fun main => ?_
  exact Guards.ite (Guards.bind (h.setFailure _) fun _ => Guards.pure _) (Guards.pure _)

theorem reads (h : Calls E bridge lost inv) (offset length : Nat) :
    Guards lost inv (MainFile.read E bridge offset length) := by
  refine Guards.bind h.healed fun _ => Guards.bind (Guards.attempt (h.read _ _)) fun result => ?_
  cases result with
  | error reason => exact h.recorded _
  | ok value =>
      refine Guards.ite (Guards.bind (h.refused _) fun _ => ?_) (h.recorded _)
      exact Guards.ite (Guards.fail _) (h.recorded _)

theorem writes (h : Calls E bridge lost inv) (offset : Nat) (data : Bytes) :
    Guards lost inv (MainFile.write E bridge offset data) := by
  refine Guards.bind h.healed fun _ => Guards.bind (Guards.gets _) fun main => ?_
  have hrest : ∀ refused : Bool, Guards lost inv (if refused then Prog.fail .Plaintext else do
      let result ← Prog.attempt (onDb (Database.write E offset data) (LocalDatabase.write bridge offset data))
      record result : Prog (MainFile ω τ) Broken Unit) := fun refused =>
    Guards.ite (Guards.fail _) (Guards.bind (Guards.attempt (h.write _ _)) h.recorded)
  exact Guards.ite (Guards.bind (h.refused _) hrest) (Guards.bind (Guards.pure _) hrest)

theorem truncates (h : Calls E bridge lost inv) (size : Nat) :
    Guards lost inv (MainFile.truncate E size : Prog (MainFile ω τ) Broken Unit) :=
  Guards.bind h.healed fun _ => Guards.bind (Guards.attempt (h.truncate size)) h.recorded

theorem commits (h : Calls E bridge lost inv) : Guards lost inv (MainFile.commit E bridge) := by
  refine Guards.bind h.healed fun _ => Guards.bind (Guards.gets _) fun main => ?_
  exact Guards.bind (Guards.attempt (h.commit _)) h.recorded

end MainFile.Calls

end RemoteVfs
