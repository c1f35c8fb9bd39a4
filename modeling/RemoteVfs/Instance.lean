import RemoteVfs.LocalDatabase
import RemoteVfs.Worker

namespace RemoteVfs

open Base Worker Browser

-- An instance as its SQLite worker sees it: what happens in the browser while it waits for
-- its connection worker, and the answer that was put and not taken yet. A missing event is
-- the end of the timeout. `late` says whether a request has not been answered in time.
structure Instance (n : Nat) where
  self : Fin n
  browser : Browser n
  schedule : List (Option (Event n))
  answer : Option Answer
  clock : Nat
  late : Bool

namespace Instance

variable {n : Nat}

-- An event of the schedule, with the answer if it is one to this instance. Only the SQLite
-- worker itself makes the requests of the instance.
def turn (self : Fin n) (event : Event n) (browser : Browser n) : Browser n × Option Answer :=
  match event with
  | .Ask i _ => if i = self then (browser, none) else ((browser.step event).1, none)
  | .Take i | .Resume i _ =>
    if i = self then browser.step event else ((browser.step event).1, none)
  | _ => ((browser.step event).1, none)

-- Waits until an answer is put or the timeout ends.
def wait (self : Fin n) : List (Option (Event n)) → Browser n → Option Answer →
    Option Answer × Browser n × List (Option (Event n))
  | schedule, browser, some answer => (some answer, browser, schedule)
  | [], browser, none => (none, browser, [])
  | none :: rest, browser, none => (none, browser, rest)
  | some event :: rest, browser, none =>
    let (browser, answer) := turn self event browser
    wait self rest browser answer

def ask (job : Job) : Prog (Instance n) Refusal Answer := fun inst =>
  let browser := (inst.browser.step (.Ask inst.self job)).1
  match wait inst.self inst.schedule browser inst.answer with
  | (some answer, browser, schedule) =>
    (.ok answer, { inst with browser := browser, schedule := schedule, answer := none })
  | (none, browser, schedule) =>
    (.err (.NoAnswer "the connection worker did not respond in time"),
      { inst with browser := browser, schedule := schedule, late := true })

-- An answer that is not a success.
def refusal : Answer → Refusal
  | .Busy => .Busy
  | .Nothing => .Missing
  | .Full text => .Full text
  | .Error text => .Failed text
  | .Done => .Failed "unexpected answer 3"
  | .Head _ | .Blocks _ _ => .Failed "unexpected answer 1"

-- Also a request that does not fit the region is refused.
def openDatabase (name : String) (pageSize : Nat) (create takeover : Bool) :
    Prog (Instance n) Refusal LocalOpened := do
  let length := 8 + name.utf8ByteSize
  if CAPACITY < length then
    Prog.fail (.Failed s!"request of {length} bytes exceeds the bridge buffer")
  else
    match ← ask (.Open pageSize create takeover) with
    | .Head head => return ⟨head.pageSize, head.pageCount, head.epoch⟩
    | .Blocks size blocks =>
      Prog.fail (.Failed s!"head of {4 + size * blocks.length} bytes, expected 20")
    | answer => Prog.fail (refusal answer)

def read (first count : Nat) : Prog (Instance n) Refusal (List Bytes) := do
  match ← ask (.Read first count) with
  | .Blocks size blocks =>
    if size = 0 ∨ blocks.length ≠ count then
      Prog.fail (.Failed s!"read of {count} blocks returned {size * blocks.length} bytes")
    else return blocks
  | .Head _ => Prog.fail (.Failed s!"read of {count} blocks returned 16 bytes")
  | answer => Prog.fail (refusal answer)

-- The worker collects the pieces of a large commit, so they are one request here.
def commit (epoch pageCount : Nat) (blocks : List (Nat × Bytes)) : Prog (Instance n) Refusal Unit := do
  match ← ask (.Commit epoch pageCount blocks) with
  | .Done => return ()
  | answer => Prog.fail (refusal answer)

def close (inst : Instance n) : Instance n := (ask .Close inst).2

def bridge (debugBroken : Broken → String) : LocalBridge (Instance n) where
  openDatabase := openDatabase
  read := read
  commit := commit
  close := close
  now := fun inst => (inst.clock, inst)
  debugBroken := debugBroken

end Instance

end RemoteVfs
