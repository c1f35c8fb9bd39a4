import RemoteVfs.Database
import RemoteVfs.LocalDatabase

namespace RemoteVfs

open Base

-- "SQLite format 3" and a zero byte.
def SQLITE_MAGIC : Bytes := [83, 81, 76, 105, 116, 101, 32, 102, 111, 114, 109, 97, 116, 32, 51, 0]

-- Whether the page starts with an unencrypted SQLite file header.
def plaintextHeader (page : Bytes) : Bool :=
  decide (92 ≤ page.length) && page.take 16 == SQLITE_MAGIC && (page.drop 21).take 3 == [64, 32, 32] &&
    ((page.drop 72).take 20).all (· == 0)

-- Why a database fails, as the application sees it.
inductive Failure where
  | TakenOver
  | Unreachable
  | Denied
  | Rejected
  | Full
  | Plaintext
  deriving DecidableEq, Repr

def failureOf : Broken → Failure
  | .Fenced => .TakenOver
  | .Uncertain _ => .Unreachable
  | .Denied _ => .Denied
  | .Diverged _ | .Refused _ => .Rejected
  | .Full _ => .Full
  | .Plaintext => .Plaintext

-- An open main database.
inductive Db (ω τ : Type) where
  | Server (db : Database ω)
  | Local (db : LocalDatabase τ)

-- The main database file with what it needs of the VFS: two settings and the failure that
-- the application is told.
structure MainFile (ω τ : Type) where
  db : Db ω τ
  failure : Option Failure
  refusePlaintext : Bool
  reconnectTimeout : Nat

namespace MainFile

variable {ω τ ε α : Type} (E : Env ω) (bridge : LocalBridge τ)

-- Why the database is broken, if it is.
def broken (main : MainFile ω τ) : Option Broken :=
  match main.db with
  | .Server db => db.remote.broken
  | .Local db => db.source.broken

-- The blocks in memory.
def pages (main : MainFile ω τ) : Pages :=
  match main.db with
  | .Server db => db.pages
  | .Local db => db.pages

def onDb (server : Prog (Database ω) ε α) (stored : Prog (LocalDatabase τ) ε α) :
    Prog (MainFile ω τ) ε α := fun main =>
  match main.db with
  | .Server db =>
    let (result, db) := server db
    (result, { main with db := .Server db })
  | .Local db =>
    let (result, db) := stored db
    (result, { main with db := .Local db })

def setFailure (failure : Option Failure) : Prog (MainFile ω τ) ε Unit :=
  Prog.modify fun main => { main with failure := failure }

-- The new failure, if the database was healed or could not be.
def healServer : Prog (Database ω) ε (Option (Option Failure)) := do
  if (← Prog.get).isUnreachable then
    if ← Database.onLink (Client.reachable E) then
      match ← Prog.attempt (Database.heal E) with
      | .ok _ => return some none
      | .error broken => return some (some (failureOf broken))
    else return none
  else return none

-- Makes the database usable again if it broke because the server could not be reached.
def heal : Prog (MainFile ω τ) ε Unit := do
  match ← onDb (healServer E) (pure none) with
  | none => pure ()
  | some failure => setFailure failure

-- With `refuse_plaintext`, whether the page carries an unencrypted header.
def refusesPlaintext (page1 : Bytes) : Prog (MainFile ω τ) ε Bool := do
  let refused := (← Prog.get).refusePlaintext && plaintextHeader page1
  if refused then setFailure (some .Plaintext)
  return refused

-- Records why the database broke, if the operation broke it.
def record (result : Except Broken α) : Prog (MainFile ω τ) Broken α :=
  match result with
  | .ok value => pure value
  | .error reason => do
    match (← Prog.get).broken with
    | some broken => setFailure (some (failureOf broken))
    | none => pure ()
    Prog.fail reason

def read (offset length : Nat) : Prog (MainFile ω τ) Broken (Bytes × Bool) := do
  heal E
  let result ← Prog.attempt (onDb (Database.read E offset length) (LocalDatabase.read bridge offset length))
  match result with
  | .error _ => record result
  | .ok (buf, _) =>
    if offset = 0 then
      if ← refusesPlaintext buf then Prog.fail .Plaintext else record result
    else record result

-- The check comes before the write reaches the blocks in memory.
def write (offset : Nat) (data : Bytes) : Prog (MainFile ω τ) Broken Unit := do
  heal E
  let checked := offset = 0 ∧ (← Prog.get).broken = none
  let refused ← if checked then refusesPlaintext data else pure false
  if refused then
    Prog.fail .Plaintext
  else do
    let result ← Prog.attempt (onDb (Database.write E offset data) (LocalDatabase.write bridge offset data))
    record result

def truncate (size : Nat) : Prog (MainFile ω τ) Broken Unit := do
  heal E
  let result ← Prog.attempt (onDb (Database.truncate size) (LocalDatabase.truncate size))
  record result

def commit : Prog (MainFile ω τ) Broken Unit := do
  heal E
  let timeout := (← Prog.get).reconnectTimeout
  let result ← Prog.attempt (onDb (Database.commit E timeout) (LocalDatabase.commit bridge))
  record result

-- What SQLite does with the main database file.
inductive Op where
  | Read (offset length : Nat)
  | Write (offset : Nat) (data : Bytes)
  | Truncate (size : Nat)
  | Commit
  deriving DecidableEq, Repr

-- The file after the operation, however it ended.
def Op.run (main : MainFile ω τ) : Op → MainFile ω τ
  | Read offset length => (read E bridge offset length main).2
  | Write offset data => (write E bridge offset data main).2
  | Truncate size => (truncate E size main).2
  | Commit => (commit E bridge main).2

-- The states of the file, after operations that were all admitted.
inductive Reached (start : MainFile ω τ → Prop) (admitted : Op → Prop) : MainFile ω τ → Prop where
  | Open {main : MainFile ω τ} (h : start main) : Reached start admitted main
  | Step {main : MainFile ω τ} (op : Op) (h : Reached start admitted main) (hop : admitted op) :
      Reached start admitted (op.run E bridge main)

end MainFile

end RemoteVfs
