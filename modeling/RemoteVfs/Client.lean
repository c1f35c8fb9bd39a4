import RemoteVfs.Env
import Mathlib.Data.List.AList

namespace RemoteVfs

open Base

def PROTOCOL_VERSION : Nat := 1

-- 30 seconds.
def TOKEN_RENEWAL_MARGIN : Nat := 30000000000

inductive Algorithm where
  | Ed25519
  deriving DecidableEq, Repr

def wireAlgorithm : Algorithm → Pb.SigAlg
  | .Ed25519 => .Ed25519

structure ClientConfig where
  algorithm : Algorithm
  publicKey : Bytes
  hasToken : Bool
  instanceId : Bytes
  traceFetches : Bool
  deriving DecidableEq, Repr

inductive ClientError where
  | Transport (reason : String)
  | Server (error : Pb.Error)
  | Protocol (reason : String)
  | Token (reason : String)
  deriving DecidableEq, Repr

namespace ClientError

def isFenced : ClientError → Bool
  | Server e => e.code == .Fenced || e.code == .SlotTaken
  | _ => false

def isTransient : ClientError → Bool
  | Server e => e.code == .Internal || e.code == .RateLimited
  | _ => false

def isSlotTaken : ClientError → Bool
  | Server e => e.code == .SlotTaken
  | _ => false

def isLeaseHeld : ClientError → Bool
  | Server e => e.code == .LeaseHeld
  | _ => false

def isNotFound : ClientError → Bool
  | Server e => e.code == .NotFound
  | _ => false

def isAccessDenied : ClientError → Bool
  | Server e => e.code == .AccessDenied
  | Token _ => true
  | _ => false

def display : ClientError → String
  | Transport reason => s!"connection: {reason}"
  | Server e => s!"server: {e.code.asStrName}: {e.detail}"
  | Protocol reason => s!"protocol: {reason}"
  | Token reason => s!"access token: {reason}"

end ClientError

structure Limits where
  maxFrameBytes : Nat
  pingInterval : Nat
  deriving DecidableEq, Repr

structure Client where
  config : ClientConfig
  -- Whether there is a transport. The transport itself is in the world.
  socket : Bool
  connected : Bool
  limits : Limits
  nextId : Nat
  lastRequest : Nat
  revoked : AList fun _ : String => Nat
  unreported : List String
  logins : Nat
  tokenRenewal : Option Nat
  trace : Option (List (Nat × Nat))

-- The client together with the world it talks to.
structure Link (ω : Type) where
  client : Client
  world : ω

namespace Link

variable {ω ε α : Type}

def mapClient (change : Client → Client) (link : Link ω) : Link ω :=
  { link with client := change link.client }

-- Runs a part of the world.
def outside (body : Prog ω ε α) : Prog (Link ω) ε α :=
  Prog.zoom Link.world (fun world link => { link with world := world }) body

end Link

-- Each part is preceded by its length as a 4-byte big-endian integer.
def bigEndian (value : Nat) : Bytes :=
  [24, 16, 8, 0].map fun shift => UInt8.ofNat (value >>> shift)

def transcript (label : Bytes) (serverId : String) (nonce instanceId : Bytes)
    (algorithm : Algorithm) (publicKey : Bytes) : Bytes :=
  [label, text serverId, nonce, instanceId,
    bigEndian (wireAlgorithm algorithm).number, publicKey].flatMap fun part =>
      bigEndian part.length ++ part

def TRANSCRIPT_LABEL : Bytes := text "sqlite-remote-auth-v1"

def loginTranscript (serverId : String) (nonce instanceId : Bytes) (algorithm : Algorithm)
    (publicKey : Bytes) : Bytes :=
  transcript TRANSCRIPT_LABEL serverId nonce instanceId algorithm publicKey

namespace Client

def wasRevoked (client : Client) (dbId : String) (leaseEpoch : Nat) : Bool :=
  (client.revoked.lookup dbId).any (leaseEpoch < ·)

def noteRevoked (client : Client) (revoked : Pb.LeaseRevoked) : Client :=
  let newer := (client.revoked.lookup revoked.dbId).getD 0
  if newer < revoked.newLeaseEpoch then
    { client with
      revoked := client.revoked.insert revoked.dbId revoked.newLeaseEpoch
      unreported :=
        if revoked.dbId ∈ client.unreported then client.unreported
        else client.unreported ++ [revoked.dbId] }
  else
    { client with revoked := client.revoked.insert revoked.dbId newer }

def takeUnreported (client : Client) : List String × Client :=
  (client.unreported, { client with unreported := [] })

def disconnect (client : Client) : Client := { client with connected := false }

-- Whether the connection is open, also if the access token is due for renewal.
def isOpen (client : Client) : Bool := client.connected && client.socket

variable {ω : Type} (E : Env ω)

def now {ε : Type} : Prog (Link ω) ε Nat := Link.outside (Env.ask E.now)

def isConnected {ε : Type} : Prog (Link ω) ε Bool := do
  let client ← Prog.gets Link.client
  -- The clock is read only if there is a renewal time to compare it with.
  match client.isOpen, client.tokenRenewal with
  | false, _ => return false
  | true, none => return true
  | true, some due => return decide ((← now E) < due)

def reachable {ε : Type} : Prog (Link ω) ε Bool := do
  if (← Prog.gets Link.client).socket then Link.outside (Env.ask E.reachable)
  else return true

-- Hands a frame to the transport. A failure marks the connection as broken.
def post (frame : Pb.ClientFrame) : Prog (Link ω) ClientError Unit :=
  Prog.handle (Link.outside (E.send frame)) fun err => do
    Prog.modify (Link.mapClient disconnect)
    Prog.fail (.Transport err)

-- Waits for the next frame of the transport.
def poll : Prog (Link ω) ClientError (Except String Pb.ServerFrame) :=
  Prog.handle (Link.outside E.receive) fun err => do
    Prog.modify (Link.mapClient disconnect)
    Prog.fail (.Transport err)

def send (body : Pb.ClientBody) : Prog (Link ω) ClientError Nat := do
  let client ← Prog.gets Link.client
  if !client.connected || !client.socket then
    Prog.fail (.Transport "not connected")
  else
    let id := client.nextId + 1
    Prog.modify (Link.mapClient fun client => { client with nextId := id })
    post E ⟨id, body⟩
    let time ← now E
    Prog.modify (Link.mapClient fun client => { client with lastRequest := time })
    return id

-- Frames the server sends unprompted are handled here and skipped.
def unprompted (frame : Pb.ServerFrame) : Prog (Link ω) ClientError Unit :=
  match frame.body with
  | some (.LeaseRevoked revoked) => Prog.modify (Link.mapClient (noteRevoked · revoked))
  | _ => pure ()

-- One round of `receive`.
def receiveStep (_ : Unit) : Prog (Link ω) ClientError (Unit ⊕ Pb.ServerFrame) := do
  let client ← Prog.gets Link.client
  if !client.connected || !client.socket then
    Prog.fail (.Transport "not connected")
  else
    match ← poll E with
    | .error err => Prog.fail (.Protocol s!"malformed frame: {err}")
    | .ok frame =>
      if frame.requestId = 0 then
        unprompted frame
        return .inl ()
      else
        return .inr frame

def receive : Prog (Link ω) ClientError Pb.ServerFrame :=
  Prog.loop (receiveStep E) E.fuel ()

-- One round of the loop in `call`.
def callStep (id : Nat) (_ : Unit) : Prog (Link ω) ClientError (Unit ⊕ Pb.ServerBody) := do
  let frame ← receive E
  if frame.requestId ≠ id then
    return .inl ()
  else
    match frame.body with
    | some (.Error e) => Prog.fail (.Server e)
    | some body => return .inr body
    | none => Prog.fail (.Protocol "empty response")

def call (body : Pb.ClientBody) : Prog (Link ω) ClientError Pb.ServerBody := do
  let id ← send E body
  Prog.loop (callStep E id) E.fuel ()

def openSocket : Prog (Link ω) ClientError Unit := do
  let client ← Prog.gets Link.client
  let opening := if client.socket then E.reopen else E.dial
  Prog.handle (Link.outside opening) fun err => Prog.fail (.Transport err)
  Prog.modify (Link.mapClient fun client => { client with socket := true, connected := true })

-- When a token with the lifetime `ttl` is renewed. 0 stands for no token.
def renewalTime (ttl : Nat) : Prog (Link ω) ClientError (Option Nat) :=
  if ttl = 0 then
    pure none
  else do
    let time ← now E
    return some (time + (ttl - min TOKEN_RENEWAL_MARGIN (ttl / 2)))

-- What `say_hello` does with a `HelloOk`.
def loggedIn (ok : Pb.HelloOk) : Prog (Link ω) ClientError Unit := do
  let limits : Limits := ⟨ok.maxFrameBytes, ok.pingIntervalMs * 1000000⟩
  let renewal ← renewalTime E (ok.accessTokenTtlMs * 1000000)
  Prog.modify (Link.mapClient fun client =>
    { client with limits := limits, tokenRenewal := renewal })
  if (← Prog.gets Link.client).socket then
    Prog.modify fun link => { link with world := E.loggedIn limits.pingInterval link.world }
  Prog.modify (Link.mapClient fun client => { client with logins := client.logins + 1 })

-- A token source is asked at every login.
def accessToken (config : ClientConfig) : Prog (Link ω) ClientError String :=
  if config.hasToken then Prog.handle (Link.outside E.token) fun err => Prog.fail (.Token err)
  else pure ""

def sayHello : Prog (Link ω) ClientError Unit := do
  let config := (← Prog.gets Link.client).config
  let accessToken ← accessToken E config
  let answer ← call E (.Hello
    { protocolVersion := PROTOCOL_VERSION
      instanceId := config.instanceId
      sigAlg := wireAlgorithm config.algorithm
      publicKey := config.publicKey
      accessToken := accessToken })
  match answer with
  | .Challenge challenge =>
    let signed := loginTranscript challenge.serverId challenge.nonce config.instanceId
      config.algorithm config.publicKey
    match ← call E (.Proof ⟨E.sign signed⟩) with
    | .HelloOk ok => loggedIn E ok
    | other => Prog.fail (.Protocol s!"expected HelloOk, got {E.debug (some other)}")
  | other => Prog.fail (.Protocol (s!"expected Challenge, got {E.debug (some other)}" ++
      "; refusing a server that does not authenticate clients"))

def logIn : Prog (Link ω) ClientError Unit := do
  let config := (← Prog.gets Link.client).config
  Prog.handle (sayHello E) fun err =>
    if err.isAccessDenied && config.hasToken then do
      -- The server closes the connection after rejecting a token.
      openSocket E
      sayHello E
    else
      Prog.fail err

def reconnect : Prog (Link ω) ClientError Unit := do
  openSocket E
  logIn E

-- A client before its first login: `connect` starts without a transport, `with_transport`
-- with one that was opened elsewhere.
def fresh (config : ClientConfig) (transport : Bool) (started : Nat) : Client where
  config := config
  socket := transport
  connected := transport
  limits := ⟨0, 10000000000⟩
  nextId := 0
  lastRequest := started
  revoked := ∅
  unreported := []
  logins := 0
  tokenRenewal := none
  trace := if config.traceFetches then some [] else none

def connect : Prog (Link ω) ClientError Unit := reconnect E

def withTransport : Prog (Link ω) ClientError Unit := logIn E

-- `with_client` of the VFS: a request that concerns the key rather than one database.
def withClient {α : Type} (request : Prog (Link ω) ClientError α) : Prog (Link ω) ClientError α := do
  if ← isConnected E then pure () else reconnect E
  request

-- A request that is answered with one kind of body.
def expect {α : Type} (body : Pb.ClientBody) (kind : String) (pick : Pb.ServerBody → Option α) :
    Prog (Link ω) ClientError α := do
  let answer ← call E body
  match pick answer with
  | some value => return value
  | none => Prog.fail (.Protocol s!"expected {kind}, got {E.debug (some answer)}")

def delete (dbId : String) (takeover : Bool) : Prog (Link ω) ClientError Unit :=
  expect E (.Delete ⟨dbId, takeover⟩) "Ok" fun | .Ok => some () | _ => none

def claimSlot : Prog (Link ω) ClientError Pb.Slot :=
  expect E .ClaimSlot "Slot" fun | .Slot slot => some slot | _ => none

def setSlotLabel (label : String) : Prog (Link ω) ClientError Pb.Slot :=
  expect E (.SetSlotLabel ⟨label⟩) "Slot" fun | .Slot slot => some slot | _ => none

def deleteSlot : Prog (Link ω) ClientError Unit :=
  expect E .DeleteSlot "Ok" fun | .Ok => some () | _ => none

def changes (dbId : String) (fromVersion : Nat) : Prog (Link ω) ClientError Pb.Changes :=
  expect E (.Changed ⟨dbId, fromVersion⟩) "Changes" fun | .Changes changes => some changes | _ => none

-- One round of `fetch_frames`. `blocks` are the blocks received so far, with indexes of 64 bits.
def fetchStep (id expected blockSize : Nat) (blocks : List (Nat × Bytes)) :
    Prog (Link ω) ClientError (List (Nat × Bytes) ⊕ List (Nat × Bytes)) := do
  let frame ← receive E
  if frame.requestId ≠ id then
    return .inl blocks
  else
    match frame.body with
    | some (.Pages pages) =>
      match pages.blocks.find? (·.length ≠ blockSize) with
      | some data =>
        Prog.fail (.Protocol s!"block of {data.length} bytes, expected {blockSize}")
      | none =>
        let blocks := blocks ++ pages.blocks.mapIdx fun offset data =>
          ((pages.firstBlock + offset) % 2 ^ 64, data)
        if pages.last then
          if blocks.length ≠ expected then
            Prog.fail (.Protocol s!"requested {expected} blocks, received {blocks.length}")
          else
            return .inr blocks
        else
          return .inl blocks
    | some (.Error e) => Prog.fail (.Server e)
    | other => Prog.fail (.Protocol s!"expected Pages, got {E.debug other}")

def fetchFrames (fetch : Pb.Fetch) (expected blockSize : Nat) :
    Prog (Link ω) ClientError (List (Nat × Bytes)) := do
  let id ← send E (.Fetch fetch)
  Prog.loop (fetchStep E id expected blockSize) E.fuel []

def note (ranges : List (Nat × Nat)) : Prog (Link ω) ClientError Unit :=
  Prog.modify (Link.mapClient fun client => { client with trace := client.trace.map (· ++ ranges) })

def fetch (fetch : Pb.Fetch) (blockSize : Nat) : Prog (Link ω) ClientError (List Bytes) := do
  note [(fetch.firstBlock, fetch.count)]
  let blocks ← fetchFrames E fetch fetch.count blockSize
  return blocks.map Prod.snd

def fetchRanges (dbId : String) (version : Nat) (ranges : List (Nat × Nat)) (blockSize : Nat) :
    Prog (Link ω) ClientError (List (Nat × Bytes)) := do
  note ranges
  let expected := (ranges.map Prod.snd).sum % 2 ^ 64
  let ranges := ranges.map fun (firstBlock, count) => (⟨firstBlock, count⟩ : Pb.Range)
  fetchFrames E ⟨dbId, version, 0, 0, ranges⟩ expected blockSize

-- Sends all parts and collects their request ids.
def sendParts : List Pb.Commit → Prog (Link ω) ClientError (List Nat)
  | [] => pure []
  | part :: rest => do
    let id ← send E (.Commit part)
    let ids ← sendParts rest
    return id :: ids

-- One round of `commit` after the parts are sent. `refusal` is the first rejection so far.
def commitStep (ids : List Nat) (last : Nat) (refusal : Option Pb.Error) :
    Prog (Link ω) ClientError (Option Pb.Error ⊕ Nat) := do
  let frame ← receive E
  if frame.requestId ∉ ids then
    return .inl refusal
  else
    match frame.body with
    | some (.Error e) =>
      let refusal := refusal.getD e
      if frame.requestId = last then Prog.fail (.Server refusal) else return .inl (some refusal)
    | some (.CommitAck ack) =>
      if frame.requestId = last then
        match refusal with
        | some e => Prog.fail (.Server e)
        | none => return .inr ack.version
      else
        Prog.fail (.Protocol s!"unexpected response to a commit: {E.debug (some (.CommitAck ack))}")
    | other => Prog.fail (.Protocol s!"unexpected response to a commit: {E.debug other}")

def commit (parts : List Pb.Commit) : Prog (Link ω) ClientError Nat := do
  let ids ← sendParts E parts
  match ids.getLast? with
  | none => Prog.fail (.Protocol "commit without parts")
  | some last => Prog.loop (commitStep E ids last) E.fuel none

end Client

end RemoteVfs
