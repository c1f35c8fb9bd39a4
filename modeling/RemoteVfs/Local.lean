import RemoteVfs.Env

namespace RemoteVfs

open Base

def MAX_READ_BYTES : Nat := 1048576

def blocksPerRead (pageSize : Nat) : Nat := max (MAX_READ_BYTES / max pageSize 1) 1

-- The thread that writes the local copy natively. Its jobs are done in the order they
-- were queued; a read waits for all jobs before it.
structure Background where
  running : Bool
  queue : List (Head × List (Nat × Bytes))
  givenUp : Bool
  failures : Nat
  deriving DecidableEq, Repr

-- State of the local copy during a session.
inductive LocalCopy where
  | None
  | Ready
  | Writing (writer : Background)
  deriving DecidableEq, Repr

namespace Background

variable {ω ε : Type} (E : Env ω)

def start (running : Bool) : Background := ⟨running, [], false, 0⟩

-- One write job of the thread. After a failed write the copy is cleared; if that fails
-- too, it is given up.
def job (head : Head) (blocks : List (Nat × Bytes)) (writer : Background) :
    Prog ω ε Background := do
  if writer.givenUp then
    return writer
  else
    match ← Prog.attempt (E.store.write head blocks) with
    | .ok _ => return writer
    | .error _ =>
      match ← Prog.attempt E.store.clear with
      | .ok _ => return { writer with failures := writer.failures + 1 }
      | .error _ => return { writer with failures := writer.failures + 1, givenUp := true }

-- Does the given jobs, which have been taken from the queue.
def jobs : List (Head × List (Nat × Bytes)) → Background → Prog ω ε Background
  | [], writer => pure writer
  | (head, blocks) :: rest, writer => do jobs rest (← job E head blocks writer)

inductive Job where
  | Write (head : Head) (blocks : List (Nat × Bytes))
  | Read (first count : Nat)
  deriving DecidableEq, Repr

-- One read job of the thread.
def answer (first count : Nat) (writer : Background) : Prog ω ε (Except String (List Bytes)) :=
  if writer.givenUp then pure (.error "local copy disabled after a failed write")
  else Prog.attempt (E.store.read first count)

-- The loop of the thread over all jobs that are ever queued, with its answers to the reads.
def thread : List Job → Background → Prog ω ε (List (Except String (List Bytes)))
  | [], _ => return []
  | .Write head blocks :: rest, writer => do thread rest (← job E head blocks writer)
  | .Read first count :: rest, writer => do
    let answer ← answer E first count writer
    return answer :: (← thread rest writer)

-- Lets the thread do the first `count` jobs of its queue.
def advance (count : Nat) (writer : Background) : Prog ω ε Background :=
  jobs E (writer.queue.take count) { writer with queue := writer.queue.drop count }

-- Queues blocks for writing. `none` if the thread has stopped.
def write (head : Head) (blocks : List (Nat × Bytes)) (writer : Background) : Option Background :=
  if writer.running then some { writer with queue := writer.queue ++ [(head, blocks)] } else none

def read (first count : Nat) (writer : Background) :
    Prog ω String (List Bytes × Background) := do
  if writer.running then
    let writer ← advance E writer.queue.length writer
    if writer.givenUp then
      Prog.fail "local copy disabled after a failed write"
    else
      let blocks ← E.store.read first count
      return (blocks, writer)
  else
    Prog.fail "local copy thread has stopped"

end Background

namespace LocalCopy

variable {ω : Type} (E : Env ω)

def isNone : LocalCopy → Bool
  | None => true
  | _ => false

def catchUp (head : Head) (blocks : List Nat) : LocalCopy → Prog ω String Unit
  | Ready => E.store.forget head blocks
  | _ => Prog.fail "a local copy can only be caught up before the first write"

-- Every caller disables the copy after an error, so its state is returned with a value only.
def read (first count : Nat) : LocalCopy → Prog ω String (List Bytes × LocalCopy)
  | None => return ([], None)
  | Ready => do return (← E.store.read first count, Ready)
  | Writing writer => do
    let (blocks, writer) ← writer.read E first count
    return (blocks, Writing writer)

end LocalCopy

end RemoteVfs
