import RemoteVfs.MainFile

namespace RemoteVfs

open Base

inductive VfsErrorCode where
  | CantOpen | Busy | Auth | Permission | Io
  deriving DecidableEq, Repr

structure VfsError where
  code : VfsErrorCode
  message : String
  deriving DecidableEq, Repr

-- Error of a request that does not concern an open file.
structure Error where
  message : String
  accessDenied : Bool
  slotTaken : Bool
  deriving DecidableEq, Repr

def Error.new (message : String) : Error := ⟨message, false, false⟩

def Error.client (context : String) (err : ClientError) : Error :=
  ⟨s!"{context}: {err.display}", err.isAccessDenied, err.isSlotTaken⟩

-- The settings that files and requests look at. `subject` is that of the signer, `cache`
-- says whether a cache is configured, and `usizeBits` is the width of `usize` on the target.
structure Config where
  pageSize : Nat
  takeover : Bool
  load : LoadMode
  memory : Memory
  refusePlaintext : Bool
  reconnectTimeout : Nat
  subject : String
  cache : Bool
  usizeBits : Nat
  deriving DecidableEq, Repr

def blocksPerFetch (config : Config) : Option PerFetch := config.load.blocksPerFetch config.usizeBits

def cap (config : Config) : Option Nat := config.memory.cap

-- Connection to the page server. `browserCache` says whether the cache of the connection
-- worker is there for the next database. Natively every database opens its own.
structure ServerBackend (ω : Type) where
  link : Link ω
  browserCache : Bool

namespace ServerBackend

variable {ω ε α : Type} (E : Env ω)

def onLink (body : Prog (Link ω) ε α) : Prog (ServerBackend ω) ε α :=
  Prog.zoom ServerBackend.link (fun link server => { server with link := link }) body

def onWorld (body : Prog ω ε α) : Prog (ServerBackend ω) ε α := onLink (Link.outside body)

-- In a browser the cache is taken out and handed back.
def setCache (there : Bool) : Prog (ServerBackend ω) ε Unit :=
  Prog.modify fun server => { server with browserCache := if E.native then server.browserCache else there }

-- Whether there is a cache for the database. Without one it is read from the server.
def cacheStore (config : Config) (name : String) : Prog (ServerBackend ω) ε Bool := do
  let server ← Prog.get
  if !config.cache || !E.native && !server.browserCache then
    return false
  else
    match ← Prog.attempt (onWorld (E.store.select name)) with
    | .error _ => return false
    | .ok _ => do
      setCache E false
      return true

def connected : Prog (ServerBackend ω) Error Unit := do
  if ← onLink (Client.isConnected E) then
    pure ()
  else
    Prog.handle (onLink (Client.reconnect E)) fun err => Prog.fail (.client "connecting" err)

def request (what : String) (call : Prog (Link ω) ClientError α) : Prog (ServerBackend ω) Error α :=
  Prog.handle (onLink call) fun err => Prog.fail (.client what err)

-- Clears the cache if it belongs to the database.
def clearCache (config : Config) (name : String) : Prog ω String Unit := do
  match ← E.store.head with
  | some head =>
    if head.subject = config.subject ∧ head.dbId = name then E.store.clear else pure ()
  | none => pure ()

def deleteOnServer (config : Config) (name : String) : Prog (ServerBackend ω) Error Unit := do
  connected E
  request s!"deleting {name}" (Client.delete E name config.takeover)
  if ← cacheStore E config name then
    let result ← Prog.attempt (onWorld (clearCache E config name))
    setCache E true
    match result with
    | .ok _ => pure ()
    | .error err => Prog.fail (.new s!"{name} was deleted on the server, but its cache was not: {err}")
  else
    pure ()

-- One round of the thread that pings while SQLite is idle. In a browser the connection
-- worker pings.
def ping (time : Nat) : Prog (Link ω) ε Unit := do
  let client ← Prog.gets Link.client
  if E.native && client.isOpen then
    let now ← Client.now E
    if client.limits.pingInterval / 2 ≤ now - client.lastRequest then
      let _ ← Prog.attempt (Client.call E (.Ping ⟨time⟩))
    else
      pure ()
  else
    pure ()

def codeOf (err : ClientError) : VfsErrorCode :=
  if err.isLeaseHeld then .Busy
  else if err.isSlotTaken then .Permission
  else if err.isNotFound then .CantOpen
  else .Io

-- What the opening on a server works with.
structure Front (ω : Type) where
  stats : Stats
  server : ServerBackend ω

def onServer (body : Prog (ServerBackend ω) ε α) : Prog (Front ω) ε α :=
  Prog.zoom Front.server (fun server front => { front with server := server }) body

def onDesk (body : Prog (Database.Desk ω) ε α) : Prog (Front ω) ε α :=
  Prog.zoom (fun front => ⟨front.stats, front.server.link⟩)
    (fun desk front => ⟨desk.stats, { front.server with link := desk.link }⟩) body

def openOptions (config : Config) (create cached : Bool) : OpenOptions where
  pageSize := config.pageSize
  create := create
  takeover := config.takeover
  blocksPerFetch := blocksPerFetch config
  cap := cap config
  subject := config.subject
  hasLocal := cached

-- The start of `open_on_server`: a new connection if there is none.
def reconnectToOpen : Prog (Front ω) VfsError Unit := do
  if ← onServer (onLink (Client.isConnected E)) then
    pure ()
  else
    Prog.handle (onServer (onLink (Client.reconnect E))) fun err =>
      Prog.fail ⟨if err.isAccessDenied then .Auth else .Io, err.display⟩

-- The cache is lost to later databases if opening fails with it.
def openOnServer (config : Config) (name : String) (create : Bool) :
    Prog (Front ω) VfsError (Pages × Remote) := do
  reconnectToOpen E
  let cached ← onServer (cacheStore E config name)
  Prog.handle (onDesk (Database.openOn E name (openOptions config create cached))) fun err =>
    Prog.fail ⟨codeOf err, err.display⟩

-- Whether the cache is handed back for the next database.
def closeOnServer : Prog (Database ω) ε Bool := do
  Database.close E
  if E.native then
    return false
  else
    match (← Prog.get).remote.copy with
    | .Ready => do
      let _ ← Prog.attempt (Database.onWorld E.store.flush)
      return true
    | _ => return false

end ServerBackend

def openLocally {τ : Type} (bridge : LocalBridge τ) (config : Config) (name : String) (create : Bool) :
    Prog (LocalDatabase.Desk τ) VfsError (LocalDatabase τ) :=
  Prog.handle (LocalDatabase.openOn bridge name
      { pageSize := config.pageSize
        create := create
        takeover := config.takeover
        blocksPerFetch := blocksPerFetch config
        cap := cap config }) fun refusal =>
    let code := match refusal with
      | .Busy => .Busy
      | .Missing => .CantOpen
      | _ => .Io
    Prog.fail ⟨code, s!"{name}: {refusal.display}"⟩

-- Where the databases of a VFS are stored.
inductive Backend (ω τ : Type) where
  | Server (link : Link ω)
  | Local (world : τ)

-- Only one database is open at a time. It then has the backend, the counters and the failure.
inductive Files (ω τ : Type) where
  | Closed (backend : Backend ω τ) (stats : Stats) (failure : Option Failure)
  | Open (name : String) (main : MainFile ω τ)

-- The shared state of a VFS.
structure Inner (ω τ : Type) where
  config : Config
  browserCache : Bool
  files : Files ω τ

def MainFile.stats {ω τ : Type} (main : MainFile ω τ) : Stats :=
  match main.db with
  | .Server db => db.stats
  | .Local db => db.stats

namespace Inner

variable {ω τ ε α : Type} (E : Env ω) (bridge : LocalBridge τ)
  (deleteLocal : String → Bool → Prog τ Refusal Unit)

def stats (inner : Inner ω τ) : Stats :=
  match inner.files with
  | .Closed _ stats _ => stats
  | .Open _ main => main.stats

-- The state after `finish`.
def register (config : Config) (browserCache : Bool) (backend : Backend ω τ) : Inner ω τ where
  config := config
  browserCache := browserCache
  files := .Closed backend {} none

-- A request on the backend, also while a database is open.
def onBackend (server : Prog (ServerBackend ω) ε α) (stored : Prog τ ε α) : Prog (Inner ω τ) ε α := fun inner =>
  match inner.files with
  | .Closed (.Server link) stats failure =>
    let (result, server) := server ⟨link, inner.browserCache⟩
    (result, ⟨inner.config, server.browserCache, .Closed (.Server server.link) stats failure⟩)
  | .Closed (.Local world) stats failure =>
    let (result, world) := stored world
    (result, { inner with files := .Closed (.Local world) stats failure })
  | .Open name main =>
    match main.db with
    | .Server db =>
      let (result, server) := server ⟨db.source.link, inner.browserCache⟩
      let db := { db with source := { db.source with link := server.link } }
      (result, ⟨inner.config, server.browserCache, .Open name { main with db := .Server db }⟩)
    | .Local db =>
      let (result, db) := LocalDatabase.onWorld stored db
      (result, { inner with files := .Open name { main with db := .Local db } })

def database (inner : Inner ω τ) : Option String :=
  match inner.files with
  | .Closed _ _ _ => none
  | .Open name _ => some name

-- The state after an attempt to open a database.
def opened (inner : Inner ω τ) (name : String) (browserCache : Bool) (backend : Backend ω τ) (stats : Stats)
    (failure : Option Failure) (db : Outcome VfsError (Db ω τ)) : Outcome VfsError Unit × Inner ω τ :=
  let closed : Inner ω τ := ⟨inner.config, browserCache, .Closed backend stats failure⟩
  match db with
  | .ok db =>
    let main : MainFile ω τ := ⟨db, none, inner.config.refusePlaintext, inner.config.reconnectTimeout⟩
    (.ok (), { closed with files := .Open name main })
  | .err err => (.err err, closed)
  | .hang => (.hang, closed)

def openDatabase (name : String) (create : Bool) : Prog (Inner ω τ) VfsError Unit := fun inner =>
  match inner.files with
  | .Open other _ =>
    let reason :=
      if other = name then s!"{name} is already open; only one connection per database is supported"
      else s!"{other} is already open on this VFS; only one database per VFS is supported"
    (.err ⟨.CantOpen, reason⟩, inner)
  | .Closed (.Server link) stats failure =>
    let (result, front) := ServerBackend.openOnServer E inner.config name create ⟨stats, link, inner.browserCache⟩
    let db := result.map fun (pages, remote) => .Server ⟨pages, front.stats, remote, front.server.link⟩
    inner.opened name front.server.browserCache (.Server front.server.link) front.stats failure db
  | .Closed (.Local world) stats failure =>
    let (result, desk) := openLocally bridge inner.config name create ⟨stats, world⟩
    inner.opened name inner.browserCache (.Local desk.world) desk.stats failure (result.map .Local)

def closeFile : Prog (Inner ω τ) ε Unit := fun inner =>
  match inner.files with
  | .Closed _ _ _ => (.ok (), inner)
  | .Open _ main =>
    match main.db with
    | .Server db =>
      let (result, db) := ServerBackend.closeOnServer E db
      let files := .Closed (.Server db.source.link) db.stats main.failure
      match result with
      | .ok back => (.ok (), ⟨inner.config, inner.browserCache || back, files⟩)
      | .err reason => (.err reason, { inner with files := files })
      | .hang => (.hang, { inner with files := files })
    | .Local db =>
      (.ok (), { inner with files := .Closed (.Local (bridge.close db.source.world)) db.stats main.failure })

-- An operation of SQLite on the open database.
def onFile (body : Prog (MainFile ω τ) Broken α) : Prog (Inner ω τ) Broken Unit := fun inner =>
  match inner.files with
  | .Closed _ _ _ => (.ok (), inner)
  | .Open name main =>
    let (result, main) := body main
    (result.map fun _ => (), { inner with files := .Open name main })

def deleteDatabase (name : String) : Prog (Inner ω τ) Error Unit := do
  let inner ← Prog.get
  if inner.database = some name then
    Prog.fail (.new s!"{name} is open; close it before deleting it")
  else
    onBackend (ServerBackend.deleteOnServer E inner.config name)
      (Prog.handle (deleteLocal name inner.config.takeover) fun refusal =>
        Prog.fail (.new s!"deleting {name}: {refusal.display}"))

-- For requests that concern the key rather than one database.
def withClient (what : String) (call : Prog (Link ω) ClientError α) : Prog (Inner ω τ) Error α :=
  onBackend (do
      ServerBackend.connected E
      ServerBackend.request what call)
    (Prog.fail (.new s!"{what}: local databases have no server"))

def claimSlot : Prog (Inner ω τ) Error Pb.Slot := withClient E "claiming the slot" (Client.claimSlot E)

def setSlotLabel (label : String) : Prog (Inner ω τ) Error Pb.Slot :=
  withClient E "setting the slot label" (Client.setSlotLabel E label)

def deleteSlot : Prog (Inner ω τ) Error Unit := do
  match (← Prog.get).database with
  | some name => Prog.fail (.new s!"{name} is open; close it before deleting the slot")
  | none => withClient E "deleting the slot" (Client.deleteSlot E)

def dropConnection : Prog (Inner ω τ) ε Unit :=
  onBackend (ServerBackend.onLink (Prog.modify (Link.mapClient Client.disconnect))) (pure ())

def takeUnreported : Prog (Inner ω τ) ε (List String) :=
  onBackend (ServerBackend.onLink fun link =>
    (.ok link.client.takeUnreported.1, link.mapClient fun client => client.takeUnreported.2)) (pure [])

-- If the open database was taken over, the application is told.
def reportTakeovers : Prog (Inner ω τ) ε Unit := do
  let revoked ← takeUnreported
  Prog.modify fun inner =>
    match inner.files with
    | .Closed _ _ _ => inner
    | .Open name main =>
      if name ∈ revoked then { inner with files := .Open name { main with failure := some .TakenOver } }
      else inner

def pinger (time : Nat) : Prog (Inner ω τ) ε Unit := do
  onBackend (ServerBackend.onLink (ServerBackend.ping E time)) (pure ())
  reportTakeovers

-- A `LeaseRevoked` that the connection worker hands over as soon as it arrives.
def onPush (revoked : Pb.LeaseRevoked) : Prog (Inner ω τ) ε Unit := do
  onBackend (ServerBackend.onLink (Prog.modify (Link.mapClient (Client.noteRevoked · revoked)))) (pure ())
  reportTakeovers

-- What SQLite, the application and the threads of the VFS do.
inductive Op where
  | Open (name : String) (create : Bool)
  | Close
  | File (op : MainFile.Op)
  | Delete (name : String)
  | ClaimSlot
  | SetSlotLabel (label : String)
  | DeleteSlot
  | DropConnection
  | Ping (time : Nat)
  | Push (revoked : Pb.LeaseRevoked)
  deriving DecidableEq, Repr

-- The result is not looked at, but a run that hangs goes no further.
def settled (body : Prog (Inner ω τ) ε α) : Prog (Inner ω τ) Empty Unit := do
  let _ ← Prog.attempt body
  return ()

def Op.run : Op → Prog (Inner ω τ) Empty Unit
  | Open name create => settled (openDatabase E bridge name create)
  | Close => closeFile E bridge
  | File (.Read offset length) => settled (onFile (MainFile.read E bridge offset length))
  | File (.Write offset data) => settled (onFile (MainFile.write E bridge offset data))
  | File (.Truncate size) => settled (onFile (MainFile.truncate E size))
  | File .Commit => settled (onFile (MainFile.commit E bridge))
  | Delete name => settled (deleteDatabase E deleteLocal name)
  | ClaimSlot => settled (claimSlot E)
  | SetSlotLabel label => settled (setSlotLabel E label)
  | DeleteSlot => settled (deleteSlot E)
  | DropConnection => dropConnection
  | Ping time => pinger E time
  | Push revoked => onPush revoked

-- The states of a VFS after operations that were all admitted where they were called.
inductive Reached (start : Inner ω τ → Prop) (admitted : Inner ω τ → Op → Prop) : Inner ω τ → Prop where
  | Registered {inner : Inner ω τ} (h : start inner) : Reached start admitted inner
  | Step {inner : Inner ω τ} (op : Op) (h : Reached start admitted inner) (hop : admitted inner op) :
      Reached start admitted (op.run E bridge deleteLocal inner).2

end Inner

-- A server that answers every request at once, and a cache whose head cannot be read for the
-- first times.
structure Site where
  asked : Option Pb.ClientFrame
  unreadable : Nat
  deriving DecidableEq, Repr

namespace Site

def store : LocalStore Site where
  head site :=
    if site.unreadable = 0 then (.ok none, site)
    else (.err "unreadable", { site with unreadable := site.unreadable - 1 })
  read _ _ := pure []
  write _ _ := pure ()
  forget _ _ := pure ()
  clear := pure ()
  select _ := pure ()
  flush := pure ()

def env (answer : Pb.ClientBody → Pb.ServerBody) : Env Site where
  fuel := 4
  native := true
  dial := pure ()
  reopen := pure ()
  send frame := Prog.modify fun site => { site with asked := some frame }
  receive site :=
    match site.asked with
    | some frame => (.ok (.ok ⟨frame.requestId, some (answer frame.body)⟩), { site with asked := none })
    | none => (.err "closed", site)
  loggedIn _ site := site
  reachable site := (true, site)
  token := pure ""
  now site := (0, site)
  pause _ site := site
  random site := ([], site)
  sign bytes := bytes
  store := store
  spawn site := (true, site)
  progress site := (0, site)
  debug _ := ""
  debugBroken _ := ""

-- Databases of one page.
def serve : Pb.ClientBody → Pb.ServerBody
  | .Hello _ => .Challenge ⟨[], "", 0⟩
  | .Proof _ => .HelloOk ⟨1, 1048576, 10000, 30000, 0⟩
  | .Open _ => .Opened ⟨[], 1, 1, 512, 1, []⟩
  | .Fetch fetch => .Pages ⟨fetch.firstBlock, List.replicate fetch.count (List.replicate 512 0), true⟩
  | _ => .Ok

def clientConfig : ClientConfig := ⟨.Ed25519, [], false, [], false⟩

def config : Config := ⟨512, false, .Preload, .Unlimited, false, 0, "", true, 64⟩

-- There are no local databases.
def noBridge : LocalBridge Unit where
  openDatabase _ _ _ _ := Prog.fail .Missing
  read _ _ := Prog.fail .Missing
  commit _ _ _ := Prog.fail .Missing
  close := id
  now world := (0, world)
  debugBroken _ := ""

def noDelete (_ : String) (_ : Bool) : Prog Unit Refusal Unit := Prog.fail .Missing

-- The VFS after registration.
def vfs (answer : Pb.ClientBody → Pb.ServerBody) (unreadable : Nat) : Inner Site Unit :=
  .register config false
    (.Server (Client.connect (env answer) ⟨Client.fresh clientConfig false 0, none, unreadable⟩).2)

end Site

end RemoteVfs
