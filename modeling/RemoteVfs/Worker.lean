import RemoteVfs.Types
import Mathlib.Data.Fintype.Basic

namespace RemoteVfs

-- The head of a local database. The epoch counts its openings.
structure LocalHead where
  pageSize : Nat
  pageCount : Nat
  epoch : Nat
  deriving DecidableEq, Repr

-- What IndexedDB keeps of one local database: its stores "head" and "blocks".
@[ext]
structure Stored where
  head : Option LocalHead
  blocks : Nat → Option Bytes

def Stored.empty : Stored := ⟨none, fun _ => none⟩

-- The state that a commit leaves: the blocks are put one after another, and those beyond
-- the end are deleted.
def Stored.commit (stored : Stored) (head : LocalHead) (blocks : List (Nat × Bytes)) : Stored where
  head := some head
  blocks := fun i =>
    if i < head.pageCount then
      match blocks.reverse.find? (·.1 = i) with
      | some entry => some entry.2
      | none => stored.blocks i
    else none

-- The connection worker of a browser, as far as it keeps a local database.
namespace Worker

-- A connection to the IndexedDB database. A database that is deleted and created again
-- has another generation. A connection that is closing starts no transaction any more.
structure Connection where
  generation : Nat
  closing : Bool
  deriving DecidableEq, Repr

-- A Web Lock that was granted. `lost` is set by the notification that it was stolen.
structure HeldLock where
  token : Nat
  lost : Bool
  deriving DecidableEq, Repr

-- `local` of the worker. The source has no field `found`: it is the state that opening
-- left, or that the last commit stored, and only the theorems look at it.
structure Local where
  connection : Connection
  pageSize : Nat
  epoch : Nat
  lock : HeldLock
  closed : Bool
  found : Stored

inductive Job where
  | Open (pageSize : Nat) (create takeover : Bool)
  | Read (first count : Nat)
  | Commit (epoch pageCount : Nat) (blocks : List (Nat × Bytes))
  | Close
  | Delete (takeover : Bool)
  deriving DecidableEq, Repr

inductive Answer where
  | Head (head : LocalHead)
  | Blocks (size : Nat) (blocks : List Bytes)
  | Done
  | Nothing
  | Busy
  | Full (text : String)
  | Error (text : String)
  deriving DecidableEq, Repr

-- An error of the browser. `quota` says whether it is a QuotaExceededError.
structure Failure where
  quota : Bool
  text : String
  deriving DecidableEq, Repr

-- The job that runs, by what it waits for.
inductive Task where
  | Idle
  -- `localOpen`: the lock, the connection, the transaction on the head, its completion,
  -- and the deletion of the empty database that opening created
  | Acquiring (pageSize : Nat) (create takeover : Bool)
  | Connecting (pageSize : Nat) (create : Bool) (lock : HeldLock)
  | Bumping (pageSize : Nat) (create : Bool) (lock : HeldLock) (connection : Connection)
  | Bumped (head : Option LocalHead) (lock : HeldLock) (connection : Connection) (found : Stored)
  | Withdrawing (lock : HeldLock)
  -- `localRead` and `localCommit`: the transaction
  | Reading (first count : Nat)
  | Committing (epoch pageCount : Nat) (blocks : List (Nat × Bytes))
  -- `localDelete`: the lock and the deletion
  | Seizing (takeover : Bool)
  | Deleting (lock : HeldLock)

-- A read of no blocks.
def Task.isUnbounded : Task → Bool
  | .Reading _ count => count = 0
  | _ => false

end Worker

-- A connection worker. Its jobs run one after another, in the order of the requests.
structure Worker where
  chain : List Worker.Job
  task : Worker.Task
  slot : Option Worker.Local

namespace Worker

def new : Worker := ⟨[], .Idle, none⟩

-- The generation of the database that the worker keeps from being deleted: its connection
-- is open, or it still has a transaction.
def keeps (worker : Worker) : Option Nat :=
  match worker.task, worker.slot with
  | .Bumping _ _ _ connection, _ => some connection.generation
  | .Bumped _ _ connection _, _ => if connection.closing then none else some connection.generation
  | .Reading _ _, some slot | .Committing _ _ _, some slot => some slot.connection.generation
  | _, some slot => if slot.connection.closing then none else some slot.connection.generation
  | _, none => none

end Worker

-- The workers of all instances that use one local database, and what the browser keeps.
structure Browser (n : Nat) where
  name : String
  generation : Nat
  stored : Option Stored
  lock : Option Nat
  tokens : Nat
  workers : Fin n → Worker

namespace Browser

open Worker

variable {n : Nat}

def set (browser : Browser n) (i : Fin n) (worker : Worker) : Browser n :=
  { browser with workers := Function.update browser.workers i worker }

def setTask (browser : Browser n) (i : Fin n) (task : Task) : Browser n :=
  browser.set i { browser.workers i with task := task }

-- The end of a job: `put` with its answer, after which the chain goes on.
def put (i : Fin n) (answer : Answer) (browser : Browser n) : Browser n × Option Answer :=
  (browser.setTask i .Idle, some answer)

theorem put_set (browser : Browser n) (i : Fin n) (worker : Worker) (answer : Answer) :
    (browser.set i worker).put i answer = (browser.set i { worker with task := .Idle }, some answer) := by
  simp only [put, setTask, set, Function.update_self, Function.update_idem]

-- Still waiting.
def await (i : Fin n) (task : Task) (browser : Browser n) : Browser n × Option Answer :=
  (browser.setTask i task, none)

-- `answerLocal` for an error that was thrown.
def fault (failure : Worker.Failure) : Answer :=
  if failure.quota then .Full ("local database: " ++ failure.text)
  else .Error ("local database: " ++ failure.text)

def thrown (text : String) : Answer := fault ⟨false, "Error: " ++ text⟩

def acquire (steal : Bool) (browser : Browser n) : Option HeldLock × Browser n :=
  if steal || browser.lock.isNone then
    (some ⟨browser.tokens, false⟩,
      { browser with lock := some browser.tokens, tokens := browser.tokens + 1 })
  else (none, browser)

-- A lock that was stolen is not released a second time.
def release (lock : HeldLock) (browser : Browser n) : Browser n :=
  if browser.lock = some lock.token then { browser with lock := none } else browser

theorem workers_acquire (browser : Browser n) (steal : Bool) :
    (browser.acquire steal).2.workers = browser.workers := by
  unfold acquire
  split_ifs <;> rfl

theorem workers_release (browser : Browser n) (lock : HeldLock) :
    (browser.release lock).workers = browser.workers := by
  unfold release
  split_ifs <;> rfl

def openLocal (browser : Browser n) : Connection × Browser n :=
  (⟨browser.generation, false⟩, { browser with stored := some (browser.stored.getD .empty) })

def deletable (browser : Browser n) : Bool := decide (∀ i, (browser.workers i).keeps = none)

def deleteIndexedDb (browser : Browser n) : Browser n :=
  { browser with generation := browser.generation + 1, stored := none }

def store (stored : Stored) (browser : Browser n) : Browser n := { browser with stored := some stored }

-- The transaction of `localOpen`. Without `create` a missing head stays missing.
def bump (pageSize : Nat) (create : Bool) (stored : Stored) : Option LocalHead × Stored :=
  match stored.head with
  | none =>
    if create then
      let head := ⟨pageSize, 0, 1⟩
      (some head, { stored with head := some head })
    else (none, stored)
  | some found =>
    let head := { found with epoch := found.epoch + 1 }
    (some head, { stored with head := some head })

-- `localDatabase`: the open database, unless this instance has lost it, and then the start
-- of a transaction on its connection. `IDBKeyRange.bound` throws for a read of no blocks.
def transaction (i : Fin n) (task : Task) (browser : Browser n) : Browser n × Option Answer :=
  match (browser.workers i).slot with
  | none => browser.put i (thrown "no local database is open")
  | some slot =>
    if slot.lock.lost || slot.closed then browser.put i .Busy
    else if slot.connection.closing then
      browser.put i (fault ⟨false, "InvalidStateError: The database connection is closing."⟩)
    else if task.isUnbounded then
      browser.put i (fault ⟨false, "DataError: The lower key is greater than the upper key."⟩)
    else browser.await i task

-- The part of a job up to the first wait.
def start (i : Fin n) (job : Job) (browser : Browser n) : Browser n × Option Answer :=
  match job with
  | .Open pageSize create takeover =>
    if (browser.workers i).slot.isSome then
      browser.put i (thrown (browser.name ++ " is already open"))
    else browser.await i (.Acquiring pageSize create takeover)
  | .Read first count => browser.transaction i (.Reading first count)
  | .Commit epoch pageCount blocks => browser.transaction i (.Committing epoch pageCount blocks)
  | .Close =>
    match (browser.workers i).slot with
    | none => browser.put i .Done
    | some slot =>
      ((browser.release slot.lock).set i { browser.workers i with slot := none }).put i .Done
  | .Delete takeover =>
    if (browser.workers i).slot.isSome then browser.put i (thrown (browser.name ++ " is open"))
    else browser.await i (.Seizing takeover)

-- The answer of `localRead` to the blocks that its transaction finds.
def localRead (stored : Stored) (size first count : Nat) : Answer :=
  let indexes := List.range' first count
  match indexes.findSome? fun i => (stored.blocks i).bind fun data =>
      if data.length = size then none else some (i, data.length) with
  | some (i, length) => thrown s!"block {i} has {length} bytes, expected {size}"
  | none => .Blocks size (indexes.map fun i => (stored.blocks i).getD (zeros size))

-- The transaction of `localCommit`.
def localCommit (stored : Stored) (epoch pageCount : Nat) (blocks : List (Nat × Bytes)) :
    Option Stored :=
  match stored.head with
  | none => none
  | some head =>
    if head.epoch = epoch then some (stored.commit ⟨head.pageSize, pageCount, epoch⟩ blocks)
    else none

-- The deletion waits until every connection is closed.
def delete (i : Fin n) (lock : HeldLock) (answer : Answer) (browser : Browser n) :
    Browser n × Option Answer :=
  if browser.deletable then (browser.deleteIndexedDb.release lock).put i answer
  else (browser, none)

-- What the job of a worker waits for has happened, or has failed.
def resume (i : Fin n) (failure : Option Worker.Failure) (browser : Browser n) :
    Browser n × Option Answer :=
  match (browser.workers i).task, failure with
  | .Idle, _ => (browser, none)
  | .Acquiring _ _ _, some failure => browser.put i (fault failure)
  | .Acquiring pageSize create takeover, none =>
    match browser.acquire takeover with
    | (none, browser) => browser.put i .Busy
    | (some lock, browser) => browser.await i (.Connecting pageSize create lock)
  | .Connecting _ _ lock, some failure => (browser.release lock).put i (fault failure)
  | .Connecting pageSize create lock, none =>
    let (connection, browser) := browser.openLocal
    browser.await i (.Bumping pageSize create lock connection)
  | .Bumping _ _ lock _, some failure => (browser.release lock).put i (fault failure)
  | .Bumping pageSize create lock connection, none =>
    let (head, stored) := bump pageSize create (browser.stored.getD .empty)
    (browser.store stored).await i (.Bumped head lock connection stored)
  | .Bumped none lock _ _, _ => browser.await i (.Withdrawing lock)
  | .Bumped (some head) lock connection found, _ =>
    (browser.set i { browser.workers i with
      slot := some ⟨connection, head.pageSize, head.epoch, lock, false, found⟩ }).put i (.Head head)
  | .Withdrawing lock, some failure => (browser.release lock).put i (fault failure)
  | .Withdrawing lock, none => browser.delete i lock .Nothing
  | .Reading _ _, some failure | .Committing _ _ _, some failure => browser.put i (fault failure)
  | .Reading first count, none =>
    match (browser.workers i).slot with
    | none => (browser, none)
    | some slot => browser.put i (localRead (browser.stored.getD .empty) slot.pageSize first count)
  | .Committing epoch pageCount blocks, none =>
    match localCommit (browser.stored.getD .empty) epoch pageCount blocks with
    | none => browser.put i .Busy
    | some stored =>
      ((browser.store stored).set i { browser.workers i with
        slot := (browser.workers i).slot.map fun slot => { slot with found := stored } }).put i .Done
  | .Seizing _, some failure => browser.put i (fault failure)
  | .Seizing takeover, none =>
    match browser.acquire takeover with
    | (none, browser) => browser.put i .Busy
    | (some lock, browser) => browser.await i (.Deleting lock)
  | .Deleting lock, some failure => (browser.release lock).put i (fault failure)
  | .Deleting lock, none => browser.delete i lock .Done

-- The notification that a lock was stolen, which comes at any time after that.
def notify (holder : Option Nat) (lock : HeldLock) : HeldLock :=
  if holder = some lock.token then lock else { lock with lost := true }

def lose (holder : Option Nat) (worker : Worker) : Worker where
  chain := worker.chain
  task := match worker.task with
    | .Connecting pageSize create lock => .Connecting pageSize create (notify holder lock)
    | .Bumping pageSize create lock connection => .Bumping pageSize create (notify holder lock) connection
    | .Bumped head lock connection found => .Bumped head (notify holder lock) connection found
    | .Withdrawing lock => .Withdrawing (notify holder lock)
    | .Deleting lock => .Deleting (notify holder lock)
    | task => task
  slot := worker.slot.map fun slot => { slot with lock := notify holder slot.lock }

-- The connection is closed by its versionchange event, when another instance deletes the
-- database, or by the browser. Only a database that is open already is marked as closed.
def shut (worker : Worker) : Worker where
  chain := worker.chain
  task := match worker.task with
    | .Bumping pageSize create lock connection =>
      .Bumping pageSize create lock { connection with closing := true }
    | .Bumped head lock connection found => .Bumped head lock { connection with closing := true } found
    | task => task
  slot := worker.slot.map fun slot =>
    { slot with connection := { slot.connection with closing := true }, closed := true }

inductive Event (n : Nat) where
  -- a request of the SQLite worker of an instance
  | Ask (i : Fin n) (job : Job)
  -- the worker begins with the next job of its chain
  | Take (i : Fin n)
  | Resume (i : Fin n) (failure : Option Worker.Failure)
  | Lose (i : Fin n)
  | Shut (i : Fin n)
  deriving DecidableEq, Repr

-- One event, with the answer that the worker puts. An event that cannot happen yet changes
-- nothing.
def step (browser : Browser n) : Event n → Browser n × Option Answer
  | .Ask i job =>
    let worker := browser.workers i
    (browser.set i { worker with chain := worker.chain ++ [job] }, none)
  | .Take i =>
    let worker := browser.workers i
    match worker.task, worker.chain with
    | .Idle, job :: rest => (browser.set i { worker with chain := rest }).start i job
    | _, _ => (browser, none)
  | .Resume i failure => browser.resume i failure
  | .Lose i => (browser.set i (lose browser.lock (browser.workers i)), none)
  | .Shut i => (browser.set i (shut (browser.workers i)), none)

def run (browser : Browser n) (events : List (Event n)) : Browser n :=
  events.foldl (fun browser event => (browser.step event).1) browser

-- Nobody has opened the database yet. There may be a stored one.
structure Fresh (browser : Browser n) : Prop where
  workers : ∀ i, browser.workers i = Worker.new

end Browser

end RemoteVfs
