import RemoteVfs.Types

namespace RemoteVfs

namespace Bridge

-- The operations of the connection worker. A write of the copy and a local commit arrive in pieces.
inductive Op where
  | Send
  | Receive
  | Reopen
  | Close
  | Probe
  | CopyHead
  | CopyRead
  | CopyWrite (last : Bool)
  | CopyClear
  | CopyForget
  | CopySelect
  | CopyFlush
  | LocalOpen
  | LocalRead
  | LocalCommit (last : Bool)
  | LocalClose
  | LocalDelete
  deriving DecidableEq, Repr

inductive Kind where
  | Frame
  | Error
  | Done
  | Nothing
  | Busy
  | Full
  deriving DecidableEq, Repr

-- The STATE slot.
inductive State where
  | Connecting
  | Open
  | Failed
  deriving DecidableEq, Repr

-- A request. The source does not number them: the numbers are there for the theorems.
structure Request where
  number : Nat
  op : Op
  deriving DecidableEq, Repr

-- What `put` was called with, and for which request.
structure Answer where
  number : Nat
  kind : Kind
  bytes : Bytes
  deriving DecidableEq, Repr

-- What the SQLite worker does: nothing, `ask`, or `wait_until_open` after a reopening.
inductive Phase where
  | Idle
  | Asking (request : Request)
  | Opening
  deriving DecidableEq, Repr

end Bridge

-- The shared slots and the two workers. `bytes` is the answer region up to LENGTH, and
-- `request` is set as long as the REQUEST slot is.
structure Bridge where
  state : Bridge.State
  answer : Nat
  kind : Bridge.Kind
  bytes : Bytes
  request : Option Bridge.Request
  -- the connection worker: whether the socket is open, the frames nobody has asked for,
  -- the receive that waits for one, the first error, and the jobs of the chain with the
  -- requests that they still have to answer
  ready : Bool
  queued : List Bytes
  waiting : Option Nat
  failure : Option Bytes
  closed : Bool
  chain : List (Option Nat)
  -- the SQLite worker
  seen : Nat
  phase : Bridge.Phase
  asked : Nat
  -- the last call of `put`, which the source does not keep
  last : Bridge.Answer
  deriving DecidableEq, Repr

namespace Bridge

-- After the launch the SQLite worker waits for the connection, if there is a server.
def start (server : Bool) : Bridge where
  state := .Connecting
  answer := 0
  kind := .Done
  bytes := []
  request := none
  ready := false
  queued := []
  waiting := none
  failure := none
  closed := false
  chain := []
  seen := 0
  phase := if server then .Opening else .Idle
  asked := 0
  last := ⟨0, .Done, []⟩

def put (number : Nat) (kind : Kind) (bytes : Bytes) (bridge : Bridge) : Bridge :=
  { bridge with bytes := bytes, kind := kind, answer := bridge.answer + 1, last := ⟨number, kind, bytes⟩ }

def deliver (bridge : Bridge) : Bridge :=
  match bridge.waiting with
  | none => bridge
  | some number =>
    match bridge.queued, bridge.failure with
    | frame :: rest, _ => { bridge with waiting := none, queued := rest }.put number .Frame frame
    | [], some failure => { bridge with waiting := none }.put number .Error failure
    | [], none => bridge

-- A failure before the connection is open ends the wait on the STATE slot. Its text goes
-- into the answer region, without an answer.
def fail (message : Bytes) (bridge : Bridge) : Bridge :=
  if bridge.closed then bridge
  else
    let failure := bridge.failure.getD message
    match bridge.state with
    | .Connecting => { bridge with failure := some failure, bytes := failure, state := .Failed }
    | _ => { bridge with failure := some failure }.deliver

def drop (bridge : Bridge) : Bridge := { bridge with ready := false }

-- `refused` is the text of the exception if the socket cannot even be created.
def connect (refused : Option Bytes) (bridge : Bridge) : Bridge :=
  let bridge := { bridge with queued := [], failure := none, state := .Connecting }
  match refused with
  | some message => bridge.fail message
  | none => bridge

-- `thrown` is the text of the exception of a send or of a new socket.
def work (request : Request) (thrown : Option Bytes) (bridge : Bridge) : Bridge :=
  match request.op with
  | .Send =>
    if bridge.ready then
      match thrown with
      | none => bridge.put request.number .Done []
      | some text => bridge.put request.number .Error text
    else bridge.put request.number .Error (bridge.failure.getD "not connected".toUTF8.toList)
  | .Receive => { bridge with waiting := some request.number }.deliver
  | .Reopen => (bridge.drop.connect thrown).put request.number .Done []
  | .Probe | .CopyWrite false | .LocalCommit false => bridge.put request.number .Done []
  | .Close => { bridge.drop with closed := true, waiting := none }.put request.number .Done []
  -- answered at once, and written by a job that answers nothing
  | .CopyWrite true => { bridge with chain := bridge.chain ++ [none] }.put request.number .Done []
  | _ => { bridge with chain := bridge.chain ++ [some request.number] }

-- The first job of the chain ends. An error that it does not handle itself is answered in
-- `queue`, but not if the last answer was an error.
def finish (kind : Kind) (bytes : Bytes) (unhandled : Bool) (bridge : Bridge) : Bridge :=
  match bridge.chain with
  | [] => bridge
  | none :: rest => { bridge with chain := rest }
  | some number :: rest =>
    let bridge := { bridge with chain := rest }
    if unhandled then
      if bridge.kind = .Error then bridge else bridge.put number .Error bytes
    else bridge.put number kind bytes

inductive Event where
  -- the SQLite worker
  | Ask (op : Op)
  | Poll
  | GiveUp
  | PollOpen
  | GiveUpOpen
  -- the connection worker
  | Take (thrown : Option Bytes)
  | Finish (kind : Kind) (bytes : Bytes) (unhandled : Bool)
  | Opened
  | Frame (ping : Bool) (frame : Bytes)
  | Fail (message : Bytes)
  deriving DecidableEq, Repr

-- One event, with what `ask` returns if it does. An event that cannot happen changes nothing.
def step (bridge : Bridge) : Event → Bridge × Option (Kind × Bytes)
  | .Ask op =>
    match bridge.phase with
    | .Idle =>
      let request := ⟨bridge.asked, op⟩
      ({ bridge with request := some request, asked := bridge.asked + 1, phase := .Asking request }, none)
    | _ => (bridge, none)
  | .Poll =>
    match bridge.phase with
    | .Asking request =>
      if bridge.answer = bridge.seen then (bridge, none)
      else
        let phase := if request.op = .Reopen then .Opening else .Idle
        ({ bridge with seen := bridge.answer, phase := phase }, some (bridge.kind, bridge.bytes))
    | _ => (bridge, none)
  | .GiveUp =>
    match bridge.phase with
    | .Asking _ =>
      if bridge.answer = bridge.seen then ({ bridge with phase := .Idle }, none) else (bridge, none)
    | _ => (bridge, none)
  | .PollOpen =>
    match bridge.phase, bridge.state with
    | .Opening, .Open | .Opening, .Failed => ({ bridge with phase := .Idle }, none)
    | _, _ => (bridge, none)
  | .GiveUpOpen =>
    match bridge.phase with
    | .Opening => ({ bridge with phase := .Idle }, none)
    | _ => (bridge, none)
  | .Take thrown =>
    match bridge.request with
    | none => (bridge, none)
    | some request => ({ bridge with request := none }.work request thrown, none)
  | .Finish kind bytes unhandled => (bridge.finish kind bytes unhandled, none)
  | .Opened =>
    match bridge.state with
    | .Connecting => ({ bridge with ready := true, state := .Open }, none)
    | _ => (bridge, none)
  | .Frame ping frame =>
    if ping then (bridge, none) else ({ bridge with queued := bridge.queued ++ [frame] }.deliver, none)
  | .Fail message => ({ bridge with ready := false }.fail message, none)

def run (bridge : Bridge) (events : List Event) : Bridge :=
  events.foldl (fun bridge event => (bridge.step event).1) bridge

end Bridge

end RemoteVfs
