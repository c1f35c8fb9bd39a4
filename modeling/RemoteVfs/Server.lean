import RemoteVfs.Database

namespace RemoteVfs

open Base

-- The content of a database at one version.
structure Image where
  pageSize : Nat
  pageCount : Nat
  block : Nat → Bytes

-- What takes a database from one version to the next. `Commit` is a commit of the
-- modelled client, `Other` one of another instance. A deletion names the page size with
-- which the database is created again, if it is.
inductive Entry where
  | Commit (parts : List Pb.Commit)
  | Other (commitId : Bytes) (pageCount : Nat) (blocks : List Pb.Block)
  | Deleted (pageSize : Nat)
  deriving DecidableEq, Repr

namespace Image

def empty (pageSize : Nat) : Image := ⟨pageSize, 0, fun _ => zeros pageSize⟩

-- Stores the blocks, sets the page count and removes the blocks at or beyond it.
def store (image : Image) (pageCount : Nat) (blocks : List Pb.Block) : Image where
  pageSize := image.pageSize
  pageCount := pageCount
  block i :=
    if i < pageCount then
      ((blocks.reverse.find? (·.index = i)).map (·.data)).getD (image.block i)
    else zeros image.pageSize

def apply (image : Image) : Entry → Image
  | .Commit parts =>
    image.store ((parts.head?.map (·.pageCount)).getD 0) (parts.flatMap (·.blocks))
  | .Other _ pageCount blocks => image.store pageCount blocks
  | .Deleted pageSize => empty pageSize

def file (image : Image) : FlatFile UInt8 :=
  .ofBlocks image.pageSize image.pageCount image.block

end Image

def Entry.commitId : Entry → Bytes
  | .Commit parts => (parts.head?.map (·.commitId)).getD []
  | .Other commitId _ _ => commitId
  | .Deleted _ => []

-- The page server as far as one database is concerned.
structure Server where
  -- Page size of the database when it was created first.
  pageSize : Nat
  log : List Entry
  epoch : Nat
  lease : Option (Bytes × Nat)
  deriving DecidableEq, Repr

-- The server's side of one connection.
structure Session where
  loggedIn : Bool
  isOpen : Bool
  -- Parts of a commit that is not complete yet.
  pending : List Pb.Commit
  deriving DecidableEq, Repr

-- How the server handles one request, where it has a choice.
structure Fate where
  -- Answers with this error instead, with `late` after the request took effect.
  error : Option Pb.Error := none
  late : Bool := false
  challenge : Pb.Challenge := ⟨[], "", 0⟩
  helloOk : Pb.HelloOk := ⟨1, 0, 0, 0, 0⟩
  leaseId : Bytes := []
  -- Sizes of the frames that carry the blocks of a fetch.
  cuts : List Nat := []
  -- The change log, and whether it reaches back far enough.
  changed : List Nat := []
  complete : Bool := false
  -- The answer to a request that does not concern the database.
  answer : Pb.ServerBody := .Ok
  deriving DecidableEq, Repr

namespace Server

def version (server : Server) : Nat := server.log.length

def imageOf (pageSize : Nat) (log : List Entry) : Image :=
  log.foldl Image.apply (.empty pageSize)

-- The content at an earlier version.
def imageAt (server : Server) (version : Nat) : Image :=
  imageOf server.pageSize (server.log.take version)

def image (server : Server) : Image := server.imageAt server.version

def lastCommitId (log : List Entry) : Bytes := (log.getLast?.map Entry.commitId).getD []

def opened (server : Server) (lease : Bytes × Nat) : Pb.Opened where
  leaseId := lease.1
  leaseEpoch := lease.2
  version := server.version
  pageSize := server.image.pageSize
  pageCount := server.image.pageCount
  lastCommitId := lastCommitId server.log

def error (code : Pb.ErrorCode) : Pb.Error := { Pb.Error.default with code := code }

-- Cuts a list into pieces of the given sizes. The rest is the last piece.
def cut {α : Type} : List Nat → List α → List (List α)
  | [], list => [list]
  | size :: sizes, list =>
    if size < list.length then list.take size :: cut sizes (list.drop size) else [list]

-- The frames for one range.
def pieces (cuts : List Nat) (image : Image) (first count : Nat) : List (Nat × List Bytes) :=
  (cut cuts (List.range' first count)).map fun run => (run.headD first, run.map image.block)

-- The frames for all ranges. Only the last one is marked.
def frames (pieces : List (Nat × List Bytes)) : List Pb.Pages :=
  pieces.mapIdx fun i piece => ⟨piece.1, piece.2, decide (i + 1 = pieces.length)⟩

def ranges (fetch : Pb.Fetch) : List (Nat × Nat) :=
  if fetch.ranges.isEmpty then [(fetch.firstBlock, fetch.count)]
  else fetch.ranges.map fun range => (range.firstBlock, range.count)

def pages (cuts : List Nat) (image : Image) (fetch : Pb.Fetch) : List Pb.Pages :=
  frames ((ranges fetch).flatMap fun range => pieces cuts image range.1 range.2)

-- The change log is complete only if it lists every block below the page count that differs.
def covers (server : Server) (fromVersion : Nat) (changed : List Nat) : Bool :=
  (List.range server.image.pageCount).all fun i =>
    decide ((server.imageAt fromVersion).block i = server.image.block i) || decide (i ∈ changed)

def changes (server : Server) (fromVersion : Nat) (fate : Fate) : Pb.Changes :=
  if fate.complete && server.covers fromVersion fate.changed then
    ⟨fromVersion, server.version, fate.changed, true⟩
  else ⟨fromVersion, server.version, [], false⟩

-- Whether a part repeats the fields of the part before it.
def continues (previous part : Pb.Commit) : Bool :=
  previous.commitId == part.commitId && previous.leaseEpoch == part.leaseEpoch &&
    previous.baseVersion == part.baseVersion && previous.pageCount == part.pageCount &&
    previous.more

-- The parts of the commit with this one added, if it may follow them.
def joined (pending : List Pb.Commit) (part : Pb.Commit) : Option (List Pb.Commit) :=
  if part.part = 0 then some [part]
  else
    match pending.getLast? with
    | some previous =>
      if continues previous part && part.part == pending.length then some (pending ++ [part])
      else none
    | none => none

def validBlocks (image : Image) (part : Pb.Commit) : Bool :=
  part.blocks.all fun block =>
    decide (block.index < part.pageCount) && decide (block.data.length = image.pageSize)

-- The commit was applied before and is sent again.
def repeated (server : Server) (part : Pb.Commit) : Bool :=
  decide (lastCommitId server.log = part.commitId) &&
    decide (server.version = part.baseVersion + 1)

-- A part that is refused discards the commit.
def discard (server : Server) (session : Session) (code : Pb.ErrorCode) :
    Server × Session × List Pb.ServerBody :=
  (server, { session with pending := [] }, [.Error (error code)])

-- A part in sequence is kept; the last one applies the commit.
def accept (server : Server) (session : Session) (part : Pb.Commit) :
    Server × Session × List Pb.ServerBody :=
  match joined session.pending part with
  | none => server.discard session .BadRequest
  | some parts =>
    if part.more then (server, { session with pending := parts }, [])
    else
      ({ server with log := server.log ++ [.Commit parts] }, { session with pending := [] },
        [.CommitAck ⟨part.commitId, server.version + 1⟩])

-- Handles one part of a commit.
def commit (server : Server) (session : Session) (part : Pb.Commit) :
    Server × Session × List Pb.ServerBody :=
  if !session.isOpen then server.discard session .BadRequest
  else if server.lease.map Prod.snd ≠ some part.leaseEpoch then server.discard session .Fenced
  else if server.repeated part then
    if part.more then (server, session, [])
    else (server, session, [.CommitAck ⟨part.commitId, server.version⟩])
  else if part.baseVersion ≠ server.version then server.discard session .VersionConflict
  else if !validBlocks server.image part then server.discard session .BadRequest
  else server.accept session part

def openDb (server : Server) (session : Session) (request : Pb.Open) (fate : Fate) :
    Server × Session × List Pb.ServerBody :=
  match request.resume with
  | some resume =>
    if server.lease = some (resume.leaseId, resume.leaseEpoch) then
      (server, { session with isOpen := true },
        [.Opened (server.opened (resume.leaseId, resume.leaseEpoch))])
    else (server, session, [.Error (error .Fenced)])
  | none =>
    if request.pageSize ≠ 0 ∧ request.pageSize ≠ server.image.pageSize then
      (server, session, [.Error (error .BadRequest)])
    else
      let lease := (fate.leaseId, server.epoch + 1)
      let server := { server with epoch := server.epoch + 1, lease := some lease }
      (server, { session with isOpen := true }, [.Opened (server.opened lease)])

def fetch (server : Server) (session : Session) (request : Pb.Fetch) (fate : Fate) :
    List Pb.ServerBody :=
  if !session.isOpen then [.Error (error .BadRequest)]
  else if request.version ≠ server.version then
    [.Error { error .VersionConflict with currentVersion := server.version }]
  else (pages fate.cuts server.image request).map .Pages

def closeDb (server : Server) (session : Session) (request : Pb.CloseDb) :
    Server × Session × List Pb.ServerBody :=
  if server.lease.map Prod.snd = some request.leaseEpoch then
    ({ server with lease := none }, { session with isOpen := false }, [.Ok])
  else (server, session, [.Error (error .Fenced)])

-- Handles a request in full.
def effect (server : Server) (session : Session) (body : Pb.ClientBody) (fate : Fate) :
    Server × Session × List Pb.ServerBody :=
  match body with
  | .Hello _ => (server, session, [.Challenge fate.challenge])
  | .Proof _ => (server, { session with loggedIn := true }, [.HelloOk fate.helloOk])
  | body =>
    if !session.loggedIn then (server, session, [.Error (error .Unauthenticated)])
    else
      match body with
      | .Open request => server.openDb session request fate
      | .Fetch request => (server, session, server.fetch session request fate)
      | .Commit part => server.commit session part
      | .CloseDb request => server.closeDb session request
      | .Changed request =>
        if session.isOpen then (server, session, [.Changes (server.changes request.fromVersion fate)])
        else (server, session, [.Error (error .BadRequest)])
      | _ => (server, session, [fate.answer])

-- A refused part of a commit discards the commit.
def refuse (session : Session) : Pb.ClientBody → Session
  | .Commit _ => { session with pending := [] }
  | _ => session

def serve (server : Server) (session : Session) (body : Pb.ClientBody) (fate : Fate) :
    Server × Session × List Pb.ServerBody :=
  match fate.error with
  | none => server.effect session body fate
  | some e =>
    if fate.late then
      let (server, session, _) := server.effect session body fate
      (server, session, [.Error e])
    else (server, refuse session body, [.Error e])

end Server

end RemoteVfs
