import RemoteVfs.Server

namespace RemoteVfs

open Base

-- A connection. Frames are handled and answers are received in order; frames of a broken
-- connection that the server has not handled yet may still be handled later.
structure Conn where
  sent : List Pb.ClientFrame
  handled : Nat
  session : Session
  answers : List Pb.ServerFrame
  received : Nat
  deriving DecidableEq, Repr

def Conn.new : Conn := ⟨[], 0, ⟨false, false, []⟩, [], 0⟩

-- The client takes the next answer.
def Conn.receive (conn : Conn) : Conn := { conn with received := conn.received + 1 }

-- The cache file, as the map of the blocks it holds. `clean` is false after an
-- interrupted write.
structure Disk where
  header : Option (Head × Bool)
  block : Nat → Option Bytes

-- What the server and the other instances do between two steps of the client.
inductive Move where
  -- The server handles the next frame of a connection.
  | Serve (conn : Nat) (fate : Fate)
  -- Another instance takes the lease over.
  | Takeover (leaseId : Bytes)
  -- Another instance commits.
  | Commit (commitId : Bytes) (pageCount : Nat) (blocks : List Pb.Block)
  -- The database is deleted, and created again with this page size.
  | Delete (pageSize : Nat)
  -- The server sends a frame unprompted.
  | Push (conn : Nat) (revoked : Pb.LeaseRevoked)
  deriving DecidableEq, Repr

-- What happens at one call into the world.
structure Turn where
  moves : List Move := []
  -- The call fails.
  fail : Option String := none
  -- A failed write of the cache file was interrupted and left these blocks.
  torn : Option (Nat → Option Bytes) := none
  malformed : Option String := none
  time : Nat := 0
  token : String := ""
  yes : Bool := true
  amount : Nat := 0

-- The requests sent so far by their id, with the version of the server at that time.
abbrev Asked := Nat → Option (Pb.ClientBody × Nat)

structure Net where
  server : Server
  conns : List Conn
  disk : Disk
  -- The commit ids that the client draws, and how many it has drawn.
  ids : Nat → Bytes
  drawn : Nat
  -- The schedule, and the number of calls so far.
  turns : Nat → Turn
  turn : Nat
  asked : Asked

namespace Disk

def empty : Disk := ⟨none, fun _ => none⟩

def holds (disk : Disk) (i : Nat) : Option Bytes :=
  match disk.header with
  | some (head, _) => if i < head.pageCount then disk.block i else none
  | none => none

def head (disk : Disk) : Option Head :=
  match disk.header with
  | some (head, true) => some head
  | _ => none

def read (disk : Disk) (first count : Nat) : List Bytes :=
  match disk.header with
  | some (_, true) =>
    ((List.range' first count).map disk.holds).takeWhile Option.isSome |>.filterMap id
  | _ => []

-- The blocks that stay under the new page count, overlaid with the written ones.
def write (disk : Disk) (head : Head) (blocks : List (Nat × Bytes)) : Disk where
  header := some (head, true)
  block i :=
    if i < head.pageCount then
      ((blocks.reverse.find? (·.1 = i)).map Prod.snd).or (disk.holds i)
    else none

def forget (disk : Disk) (head : Head) (blocks : List Nat) : Disk where
  header := some (head, true)
  block i := if i < head.pageCount ∧ i ∉ blocks then disk.holds i else none

-- The header is marked before any block changes.
def interrupted (disk : Disk) (head : Head) (left : Nat → Option Bytes) : Disk where
  header := some ((disk.header.map Prod.fst).getD { head with version := 0 }, false)
  block := left

end Disk

namespace Net

-- Handles the next frame of the connection, if there is one.
def serve (net : Net) (index : Nat) (fate : Fate) : Net :=
  match net.conns[index]? with
  | none => net
  | some conn =>
    match conn.sent[conn.handled]? with
    | none => net
    | some frame =>
      let (server, session, bodies) := net.server.serve conn.session frame.body fate
      { net with
        server := server
        conns := net.conns.set index
          { conn with
            handled := conn.handled + 1
            session := session
            answers := conn.answers ++ bodies.map fun body => ⟨frame.requestId, some body⟩ } }

def push (net : Net) (index : Nat) (revoked : Pb.LeaseRevoked) : Net :=
  { net with conns := net.conns.modify index fun conn =>
      { conn with answers := conn.answers ++ [⟨0, some (.LeaseRevoked revoked)⟩] } }

def move (net : Net) : Move → Net
  | .Serve conn fate => net.serve conn fate
  | .Takeover leaseId =>
    let epoch := net.server.epoch + 1
    { net with server := { net.server with epoch := epoch, lease := some (leaseId, epoch) } }
  | .Commit commitId pageCount blocks =>
    if blocks.all fun block => decide (block.index < pageCount) &&
        decide (block.data.length = net.server.image.pageSize) then
      { net with server :=
          { net.server with log := net.server.log ++ [.Other commitId pageCount blocks] } }
    else net
  | .Delete pageSize =>
    { net with server :=
        { net.server with
          log := net.server.log ++ [.Deleted pageSize]
          epoch := net.server.epoch + 1
          lease := none } }
  | .Push conn revoked => net.push conn revoked

def moves (net : Net) (moves : List Move) : Net := moves.foldl move net

-- The others' moves before the current call.
def tick (net : Net) : Turn × Net :=
  let turn := net.turns net.turn
  (turn, ({ net with turn := net.turn + 1 } : Net).moves turn.moves)

-- A call that may fail. The effect of a call that fails depends on the call.
def attempt {α : Type} (body : Turn → Prog Net String α) : Prog Net String α := fun net =>
  let (turn, net) := net.tick
  match turn.fail with
  | some reason => (.err reason, net)
  | none => body turn net

def ask {α : Type} (answer : Turn → α) (net : Net) : α × Net :=
  let (turn, net) := net.tick
  (answer turn, net)

def connect : Prog Net String Unit :=
  attempt fun _ => Prog.modify fun net => { net with conns := net.conns ++ [.new] }

-- A frame that could not be sent without an error may have reached the network.
def transmit (frame : Pb.ClientFrame) (net : Net) : Net :=
  { net with
    asked := fun id =>
      if id = frame.requestId then some (frame.body, net.server.version) else net.asked id
    conns := net.conns.modify (net.conns.length - 1) fun conn =>
      { conn with sent := conn.sent ++ [frame] } }

def send (frame : Pb.ClientFrame) : Prog Net String Unit := fun net =>
  let (turn, net) := net.tick
  match turn.fail with
  | none => (.ok (), net.transmit frame)
  | some reason => if turn.yes then (.err reason, net.transmit frame) else (.err reason, net)

-- Without an answer the call times out.
def next (turn : Turn) : Prog Net String (Except String Pb.ServerFrame) := fun net =>
  match turn.malformed with
  | some reason => (.ok (.error reason), net)
  | none =>
    match net.conns.getLast?.bind fun conn => conn.answers[conn.received]? with
    | none => (.err "timed out", net)
    | some frame =>
      (.ok (.ok frame),
        { net with conns := net.conns.modify (net.conns.length - 1) Conn.receive })

def receive : Prog Net String (Except String Pb.ServerFrame) := attempt next

def random (net : Net) : Bytes × Net :=
  let (_, net) := net.tick
  (net.ids net.drawn, { net with drawn := net.drawn + 1 })

-- A failed change of the cache file leaves it as it was or interrupted. It may also be
-- complete if only the last flush failed.
def change (head : Head) (next : Disk → Except String Disk) : Prog Net String Unit := fun net =>
  let (turn, net) := net.tick
  match next net.disk, turn.fail, turn.torn with
  | .error reason, _, _ => (.err reason, net)
  | .ok disk, none, _ => (.ok (), { net with disk := disk })
  | .ok _, some reason, some left =>
    (.err reason, { net with disk := net.disk.interrupted head left })
  | .ok disk, some reason, none =>
    if turn.yes then (.err reason, net) else (.err reason, { net with disk := disk })

def store : LocalStore Net where
  head := attempt fun _ => Prog.gets fun net => net.disk.head
  read first count := attempt fun _ => Prog.gets fun net => net.disk.read first count
  write head blocks := change head fun disk => .ok (disk.write head blocks)
  forget head blocks := change head fun disk =>
    if disk.header.isNone then .error "no local copy to catch up"
    else .ok (disk.forget head blocks)
  clear := attempt fun _ => Prog.modify fun net => { net with disk := .empty }
  select _ := attempt fun _ => pure ()
  flush := attempt fun _ => pure ()

-- The parts of the environment that the network does not decide.
structure Setup where
  fuel : Nat
  native : Bool
  sign : Bytes → Bytes
  debug : Option Pb.ServerBody → String
  debugBroken : Broken → String

def env (setup : Setup) : Env Net where
  fuel := setup.fuel
  native := setup.native
  dial := connect
  reopen := connect
  send := send
  receive := receive
  loggedIn _ net := net.tick.2
  reachable := ask Turn.yes
  token := attempt fun turn => pure turn.token
  now := ask Turn.time
  pause _ net := net.tick.2
  random := random
  sign := setup.sign
  store := store
  spawn := ask Turn.yes
  progress := ask Turn.amount
  debug := setup.debug
  debugBroken := setup.debugBroken

end Net

end RemoteVfs
