import RemoteVfs.Client
import RemoteVfs.Local
import RemoteVfs.Pages

namespace RemoteVfs

open Base

def COMMIT_FRAME_OVERHEAD : Nat := 256
def COMMIT_BLOCK_OVERHEAD : Nat := 16

-- 200 milliseconds.
def RECONNECT_PAUSE : Nat := 200000000

def MAX_CATCH_UP_RANGES : Nat := 4096

-- Server side of an open database.
structure Remote where
  dbId : String
  subject : String
  version : Nat
  leaseId : Bytes
  leaseEpoch : Nat
  lastCommitId : Bytes
  pendingCommit : Option Bytes
  copy : LocalCopy
  broken : Option Broken
  login : Nat
  deriving DecidableEq, Repr

-- What a missing block is loaded through.
structure Fetch (ω : Type) where
  remote : Remote
  link : Link ω

-- An open database with the client it uses and the counters of the VFS.
abbrev Database (ω : Type) := Held (Fetch ω)

structure OpenOptions where
  pageSize : Nat
  create : Bool
  takeover : Bool
  blocksPerFetch : Option PerFetch
  cap : Option Nat
  subject : String
  hasLocal : Bool
  deriving DecidableEq, Repr

namespace Database

variable {ω ε α : Type}

def remote (db : Database ω) : Remote := db.source.remote

def client (db : Database ω) : Client := db.source.link.client

def world (db : Database ω) : ω := db.source.link.world

def mapRemote (change : Remote → Remote) (db : Database ω) : Database ω :=
  { db with source := { db.source with remote := change db.source.remote } }

def mapStats (change : Stats → Stats) (db : Database ω) : Database ω :=
  { db with stats := change db.stats }

def onLink (body : Prog (Link ω) ε α) : Prog (Database ω) ε α :=
  Prog.zoom (fun db => db.source.link)
    (fun link db => { db with source := { db.source with link := link } }) body

def onWorld (body : Prog ω ε α) : Prog (Database ω) ε α := onLink (Link.outside body)

def setCopy (copy : LocalCopy) : Prog (Database ω) ε Unit :=
  Prog.modify (mapRemote fun remote => { remote with copy := copy })

def count (change : Stats → Stats) : Prog (Database ω) ε Unit := Prog.modify (mapStats change)

def breakWith (broken : Broken) : Prog (Database ω) Broken α := do
  Prog.modify (mapRemote fun remote => { remote with broken := some broken })
  Prog.fail broken

-- Why a failed request breaks the database.
def reasonOf (err : ClientError) : Broken :=
  if err.isFenced then .Fenced
  else if err.isAccessDenied then .Denied err.display
  else if err.isTransient then .Uncertain s!"the server failed the request: {err.display}"
  else match err with
    | .Server e => .Refused s!"{e.code.asStrName}: {e.detail}"
    | err => .Uncertain s!"no connection to the server: {err.display}"

def breakOn (err : ClientError) : Prog (Database ω) Broken α := breakWith (reasonOf err)

end Database

-- Checks the values of an `Opened` answer before they size anything.
def checked (opened : Pb.Opened) (inUse : Option Nat) : Except ClientError Pb.Opened :=
  if !validPageSize opened.pageSize then
    .error (.Protocol s!"page size {opened.pageSize} is not one SQLite allows")
  else if inUse.any (opened.pageSize ≠ ·) then
    .error (.Protocol
      s!"page size {opened.pageSize} differs from the open database's {inUse.getD 0}")
  else if MAX_PAGE_COUNT < opened.pageCount then
    .error (.Protocol
      s!"page count {opened.pageCount} exceeds SQLite's limit of {MAX_PAGE_COUNT}")
  else
    .ok opened

-- Groups a sorted list of block indexes into runs of consecutive indexes.
def runs (blocks : List Nat) : List (Nat × Nat) :=
  blocks.foldl (fun runs index =>
    match runs.getLast? with
    | some (first, count) =>
      if first + count = index then runs.dropLast ++ [(first, count + 1)] else runs ++ [(index, 1)]
    | none => [(index, 1)]) []

-- The consecutive pieces of at most `size` elements.
def chunks {α : Type} (size : Nat) (list : List α) : List (List α) :=
  (List.range (divCeil list.length size)).map fun k => (list.drop (k * size)).take size

namespace Remote

def copyHead (remote : Remote) (pages : Pages) : Head where
  subject := remote.subject
  dbId := remote.dbId
  pageSize := pages.pageSize
  pageCount := pages.stablePageCount
  version := remote.version

def perPart (pages : Pages) (maxFrameBytes : Nat) : Nat :=
  max ((maxFrameBytes - COMMIT_FRAME_OVERHEAD) / (pages.pageSize + COMMIT_BLOCK_OVERHEAD)) 1

def parts (remote : Remote) (pages : Pages) (commitId : Bytes) (maxFrameBytes : Nat) :
    List Pb.Commit :=
  let blocks := pages.dirtyBlocks.map fun (index, data) => (⟨index, data⟩ : Pb.Block)
  let pieces := if blocks.isEmpty then [[]] else chunks (perPart pages maxFrameBytes) blocks
  pieces.mapIdx fun part blocks =>
    { dbId := remote.dbId
      commitId := commitId
      leaseEpoch := remote.leaseEpoch
      baseVersion := remote.version
      pageCount := pages.pageCount
      blocks := blocks
      more := decide (part + 1 < pieces.length)
      part := part }

variable {ω ε : Type} (E : Env ω)

open Database

def onCurrentConnection : Prog (Database ω) ε Bool := do
  if ← onLink (Client.isConnected E) then
    let db ← Prog.get
    return decide (db.client.logins = db.remote.login)
  else
    return false

-- The first part of `resume`: a new connection if there is none.
def reconnectIfDown : Prog (Database ω) ClientError Unit := do
  if ← onLink (Client.isConnected E) then
    pure ()
  else do
    onLink (Client.reconnect E)
    count fun stats => { stats with reconnects := stats.reconnects + 1 }

def resume : Prog (Database ω) ClientError Pb.Opened := do
  reconnectIfDown E
  let db ← Prog.get
  let answer ← onLink (Client.call E (.Open
    { dbId := db.remote.dbId
      pageSize := db.pages.pageSize
      createIfMissing := false
      takeover := false
      resume := some
        { leaseId := db.remote.leaseId
          leaseEpoch := db.remote.leaseEpoch
          knownVersion := db.remote.version
          pendingCommitId := [] } }))
  match answer with
  | .Opened opened =>
    match checked opened (some db.pages.pageSize) with
    | .error err => Prog.fail err
    | .ok opened =>
      Prog.modify fun db => db.mapRemote fun remote => { remote with login := db.client.logins }
      return opened
  | other => Prog.fail (.Protocol s!"expected Opened, got {E.debug (some other)}")

-- One round of `resume_until`.
def resumeStep (deadline : Nat) (_ : Unit) : Prog (Database ω) Broken (Unit ⊕ Pb.Opened) := do
  match ← Prog.attempt (resume E) with
  | .ok opened => return .inr opened
  | .error err =>
    if err.isFenced then breakWith .Fenced
    else if err.isAccessDenied then breakWith (.Denied err.display)
    else do
      if deadline ≤ (← onLink (Client.now E)) then
        breakWith (.Uncertain s!"no connection to the server: {err.display}")
      else do
        onWorld (Prog.modify (E.pause RECONNECT_PAUSE))
        return .inl ()

def resumeUntil (deadline : Nat) : Prog (Database ω) Broken Pb.Opened :=
  Prog.loop (resumeStep E deadline) E.fuel ()

-- Fetches `count` blocks from `first` on and stores those not yet in memory.
def load (first blocks : Nat) : Prog (Database ω) ClientError Unit := do
  let started ← onLink (Client.now E)
  let db ← Prog.get
  let loaded ← onLink (Client.fetch E
    { dbId := db.remote.dbId
      version := db.remote.version
      firstBlock := first
      count := blocks
      ranges := [] } db.pages.pageSize)
  let ended ← onLink (Client.now E)
  count fun stats =>
    { stats with
      fetches := stats.fetches + 1
      fetchedBlocks := stats.fetchedBlocks + blocks
      fetchTime := stats.fetchTime + (ended - started) }
  Prog.modify (Held.mapPages
    (Pages.keepAll · (loaded.mapIdx fun offset data => (first + offset, data))))

def forgetCopy : Prog (Database ω) ε Unit := do
  match (← Prog.get).remote.copy with
  | .Ready =>
    match ← Prog.attempt (onWorld E.store.clear) with
    | .ok _ => pure ()
    | .error _ => do
      count fun stats => { stats with localFailures := stats.localFailures + 1 }
      setCopy .None
  | _ => pure ()

def copied (blocks : Nat) : Prog (Database ω) ε Unit :=
  count fun stats =>
    { stats with
      localWrites := stats.localWrites + 1
      localBlocksWritten := stats.localBlocksWritten + blocks }

-- Natively the first write hands the store to a background thread.
def writer : Prog (Database ω) ε (Option Background) := do
  match (← Prog.get).remote.copy with
  | .None => return none
  | .Ready => return some (Background.start (← onWorld (Env.ask E.spawn)))
  | .Writing writer => return some writer

def writeCopyNative (head : Head) (blocks : List (Nat × Bytes)) : Prog (Database ω) ε Unit := do
  match ← writer E with
  | none => pure ()
  | some writer => do
    let writer ← onWorld (writer.advance E (← onWorld (Env.ask E.progress)))
    count fun stats => { stats with localFailures := writer.failures }
    match writer.write head blocks with
    | some writer => do
      setCopy (.Writing writer)
      copied blocks.length
    | none => setCopy .None

def writeCopyBrowser (head : Head) (blocks : List (Nat × Bytes)) : Prog (Database ω) ε Unit := do
  match (← Prog.get).remote.copy with
  | .Ready =>
    match ← Prog.attempt (onWorld (E.store.write head blocks)) with
    | .ok _ => copied blocks.length
    | .error _ => do
      count fun stats => { stats with localFailures := stats.localFailures + 1 }
      setCopy .None
  | _ => pure ()

-- Writes blocks to the local copy under the head of the last commit.
def writeCopy (indexes : List Nat) : Prog (Database ω) ε Unit := do
  let db ← Prog.get
  if db.remote.copy.isNone || indexes.isEmpty then
    pure ()
  else
    let head := db.remote.copyHead db.pages
    let blocks := indexes.filterMap fun index => (db.pages.block index).map (index, ·)
    if E.native then writeCopyNative E head blocks else writeCopyBrowser E head blocks

-- Disables the local copy after a failed read.
def dropCopy : Prog (Database ω) ε Unit := do
  count fun stats => { stats with localFailures := stats.localFailures + 1 }
  setCopy .None

def takeFromCopy (first blocks : Nat) : Prog (Database ω) ε Bool := do
  let db ← Prog.get
  if db.remote.copy.isNone then
    return false
  else do
    count fun stats => { stats with localReads := stats.localReads + 1 }
    let blocks := min blocks (blocksPerRead db.pages.pageSize)
    match ← Prog.attempt (onWorld (db.remote.copy.read E first blocks)) with
    | .error _ => do
      dropCopy
      return false
    | .ok (read, copy) => do
      setCopy copy
      if read.isEmpty || read.any (·.length ≠ db.pages.pageSize) then do
        count fun stats => { stats with localMisses := stats.localMisses + 1 }
        return false
      else do
        count fun stats => { stats with localBlocksRead := stats.localBlocksRead + read.length }
        Prog.modify (Held.mapPages
          (Pages.keepAll · (read.mapIdx fun offset data => (first + offset, data))))
        return true

-- Brings a local copy that is a few commits behind up to the current version.
def catchCopyUp (behind : Head) : Prog (Database ω) ClientError Bool := do
  let db ← Prog.get
  let changes ← onLink (Client.changes E db.remote.dbId behind.version)
  let pageCount := db.pages.pageCount
  let ranges := (runs changes.blocks).filterMap fun (first, count) =>
    let count := min count (pageCount - first)
    if 0 < count then some (first, count) else none
  if !changes.complete || changes.toVersion ≠ db.remote.version then
    return false
  else if pageCount / 3 < changes.blocks.length || MAX_CATCH_UP_RANGES < ranges.length then
    return false
  else do
    match ← Prog.attempt (onWorld
        (db.remote.copy.catchUp E (db.remote.copyHead db.pages) changes.blocks)) with
    | .error _ => do
      dropCopy
      return false
    | .ok _ => do
      count fun stats =>
        { stats with
          caughtUp := stats.caughtUp + 1
          forgottenBlocks := stats.forgottenBlocks + changes.blocks.length }
      if !db.pages.onDemand && !ranges.isEmpty then
        let started ← onLink (Client.now E)
        let blocks ← onLink (Client.fetchRanges E db.remote.dbId db.remote.version ranges
          db.pages.pageSize)
        let ended ← onLink (Client.now E)
        count fun stats =>
          { stats with
            fetches := stats.fetches + 1
            fetchedBlocks := stats.fetchedBlocks + blocks.length
            fetchTime := stats.fetchTime + (ended - started) }
        Prog.modify (Held.mapPages (Pages.keepAll · blocks))
        writeCopy E (blocks.map Prod.fst)
      return true

-- One round of the loop that preloads from the copy. `inr false` if the copy cannot be used.
def preloadStep (first : Nat) : Prog (Database ω) ε (Nat ⊕ Bool) := do
  let db ← Prog.get
  if db.pages.pageCount ≤ first then
    return .inr true
  else do
    let blocks := min (blocksPerRead db.pages.pageSize) (db.pages.pageCount - first)
    match ← Prog.attempt (onWorld (db.remote.copy.read E first blocks)) with
    | .error _ => do
      dropCopy
      return .inr false
    | .ok (read, copy) => do
      setCopy copy
      if read.length ≠ blocks then do
        count fun stats => { stats with localMisses := stats.localMisses + 1 }
        return .inr false
      else do
        count fun stats => { stats with localBlocksRead := stats.localBlocksRead + blocks }
        Prog.modify (Held.mapPages
          (Pages.keepAll · (read.mapIdx fun offset data => (first + offset, data))))
        return .inl (first + blocks)

-- Every round reads at least one block, so `page_count + 1` rounds are enough.
def preloadCopy : Prog (Database ω) ε Bool := do
  let pageCount := (← Prog.get).pages.pageCount
  let loaded ← Prog.loop (preloadStep E) (pageCount + 1) 0
  if loaded then
    count fun stats => { stats with localReads := stats.localReads + 1 }
  return loaded

def usable (remote : Remote) (pages : Pages) (head : Head) : Bool :=
  head.subject == remote.subject && head.dbId == remote.dbId && head.pageSize == pages.pageSize

def giveCopyUp : Prog (Database ω) ε Bool := do
  forgetCopy E
  return false

-- The copy is current. With `Load::OnDemand`, blocks are read from it on first access.
def useCopy : Prog (Database ω) ε Bool := do
  if (← Prog.get).pages.onDemand then return false else preloadCopy E

-- Checks whether the local copy can be used. Returns true if all blocks were loaded from it.
def takeCopy : Prog (Database ω) ClientError Bool := do
  let db ← Prog.get
  if db.remote.copy ≠ .Ready then
    return false
  else
    match ← Prog.attempt (onWorld E.store.head) with
    | .error _ => do
      dropCopy
      return false
    | .ok head =>
      match head.filter (usable db.remote db.pages) with
      | none => giveCopyUp E
      | some head =>
        if db.remote.version < head.version then
          Prog.fail (.Protocol (s!"local copy of {db.remote.dbId} is at version {head.version}" ++
            s!", the server at version {db.remote.version}: the server has lost commits"))
        else if head.version < db.remote.version then do
          if ← catchCopyUp E head then useCopy E else giveCopyUp E
        else
          useCopy E

-- Loads the blocks after opening.
def fill : Prog (Database ω) ClientError Unit := do
  let fromCopy ← takeCopy E
  let pages := (← Prog.get).pages
  if !pages.onDemand && 0 < pages.pageCount && !fromCopy then
    load E 0 pages.pageCount
    let indexes := (← Prog.get).pages.indexes
    writeCopy E indexes
  Prog.modify (Held.makeRoom 0)
  Prog.modify Held.count

end Remote

namespace Fetch

variable {ω : Type} (E : Env ω)

open Database Remote

-- Reads reconnect once, without a deadline.
def reconnected : Prog (Database ω) Broken Unit := do
  if ← onCurrentConnection E then
    pure ()
  else
    let _ ← Prog.handle (resume E) fun err =>
      if err.isAccessDenied then breakWith (.Denied err.display)
      else breakWith (.Uncertain err.display)

def fill (first blocks : Nat) : Prog (Database ω) Broken Unit := do
  match (← Prog.get).remote.broken with
  | some broken => Prog.fail broken
  | none =>
    if ← takeFromCopy E first blocks then
      pure ()
    else do
      reconnected E
      Prog.handle (load E first blocks) fun err =>
        if err.isFenced then breakWith .Fenced else Prog.fail (.Refused err.display)
      writeCopy E (List.range' first blocks)

def source : Source (Fetch ω) := ⟨fill E⟩

end Fetch

namespace Database

variable {ω : Type} (E : Env ω)

-- What the functions of an open database and the opening itself share.
structure Desk (ω : Type) where
  stats : Stats
  link : Link ω

def openedRemote (dbId : String) (options : OpenOptions) (opened : Pb.Opened) (login : Nat) :
    Remote where
  dbId := dbId
  subject := options.subject
  version := opened.version
  leaseId := opened.leaseId
  leaseEpoch := opened.leaseEpoch
  lastCommitId := opened.lastCommitId
  pendingCommit := none
  copy := if options.hasLocal then .Ready else .None
  broken := none
  login := login

-- Runs the first fill on a database that is dropped again if it fails.
def opening (pages : Pages) (remote : Remote) : Prog (Desk ω) ClientError (Pages × Remote) :=
  Prog.zoom (fun desk => ⟨pages, desk.stats, ⟨remote, desk.link⟩⟩)
    (fun (db : Database ω) _ => ⟨db.stats, db.source.link⟩)
    (do
      Remote.fill E
      let db ← Prog.get
      return (db.pages, db.remote))

def onDesk {ε α : Type} (body : Prog (Link ω) ε α) : Prog (Desk ω) ε α :=
  Prog.zoom Desk.link (fun link desk => { desk with link := link }) body

-- `Database::open`.
def openOn (dbId : String) (options : OpenOptions) :
    Prog (Desk ω) ClientError (Pages × Remote) := do
  let answer ← onDesk (Client.call E (.Open
    { dbId := dbId
      pageSize := options.pageSize
      createIfMissing := options.create
      takeover := options.takeover
      resume := none }))
  match answer with
  | .Opened opened =>
    match checked opened none with
    | .error err => Prog.fail err
    | .ok opened =>
      let login := (← Prog.gets Desk.link).client.logins
      opening E (.new opened.pageSize opened.pageCount options.blocksPerFetch options.cap)
        (openedRemote dbId options opened login)
  | other => Prog.fail (.Protocol s!"expected Opened, got {E.debug (some other)}")

def isUnreachable (db : Database ω) : Bool :=
  match db.remote.broken with
  | some (.Uncertain _) => true
  | _ => false

-- The database as of the server's answer, with no blocks in memory.
def restarted (opened : Pb.Opened) (db : Database ω) : Database ω :=
  Held.mapPages (·.emptied opened.pageCount) <| db.mapRemote fun remote =>
    { remote with
      version := opened.version
      lastCommitId := opened.lastCommitId
      pendingCommit := none }

-- The new blocks replace the old ones only if all of them could be loaded.
def reload (opened : Pb.Opened) : Prog (Database ω) Broken Unit := do
  let db ← Prog.get
  Prog.modify (restarted opened)
  Prog.handle (Remote.fill E) fun err => do
    Prog.modify (Held.mapPages fun _ => db.pages)
    breakOn err
  Prog.modify (mapRemote fun remote => { remote with broken := none })
  count fun stats => { stats with healed := stats.healed + 1 }

-- Whether the server has applied the pending commit, and nothing after it.
def wasApplied (opened : Pb.Opened) (db : Database ω) : Bool :=
  opened.version == db.remote.version + 1 && db.remote.pendingCommit == some opened.lastCommitId

def heal : Prog (Database ω) Broken Unit := do
  let opened ← Prog.handle (Remote.resume E) breakOn
  let db ← Prog.get
  if opened.version ≠ db.remote.version && !db.wasApplied opened then
    breakWith (.Diverged
      s!"server is at version {opened.version}, this client at {db.remote.version}")
  else do
    count fun stats =>
      if db.wasApplied opened then { stats with recoveredCommits := stats.recoveredCommits + 1 }
      else stats
    reload E opened

def fileSize (db : Database ω) : Nat := db.pages.fileSize

-- Runs the operation unless the database is broken.
def unlessBroken {α : Type} (body : Prog (Database ω) Broken α) : Prog (Database ω) Broken α := do
  match (← Prog.get).remote.broken with
  | some broken => Prog.fail broken
  | none => body

def read (offset length : Nat) : Prog (Database ω) Broken (Bytes × Bool) :=
  unlessBroken (Pages.read (Fetch.source E) offset length)

def write (offset : Nat) (data : Bytes) : Prog (Database ω) Broken Unit :=
  unlessBroken (Pages.write (Fetch.source E) offset data)

def truncate (size : Nat) : Prog (Database ω) Broken Unit :=
  unlessBroken (Prog.modify (Held.mapPages (·.truncate size)))

def diverged (opened : Pb.Opened) {α : Type} : Prog (Database ω) Broken α := do
  let version := (← Prog.get).remote.version
  breakWith (.Diverged s!"server is at version {opened.version}, this client at {version}")

-- The start of a round: the database has to be open on the current connection.
def commitReady (deadline : Nat) : Prog (Database ω) Broken Unit := do
  if ← Remote.onCurrentConnection E then
    pure ()
  else do
    let opened ← Remote.resumeUntil E deadline
    if opened.version ≠ (← Prog.get).remote.version then diverged opened

def resent : Prog (Database ω) Broken Unit :=
  count fun stats => { stats with resentCommits := stats.resentCommits + 1 }

-- The connection broke, so the commit may or may not have been applied. Compare the
-- server's version and last commit id.
def commitUnknown (commitId : Bytes) (deadline : Nat) : Prog (Database ω) Broken (Unit ⊕ Nat) := do
  let opened ← Remote.resumeUntil E deadline
  let version := (← Prog.get).remote.version
  if opened.version = version + 1 ∧ opened.lastCommitId = commitId then do
    count fun stats => { stats with recoveredCommits := stats.recoveredCommits + 1 }
    return .inr opened.version
  else if opened.version ≠ version then
    diverged opened
  else do
    resent
    return .inl ()

-- What follows a failed attempt. `inl` sends the commit again.
def commitFailed (commitId : Bytes) (deadline : Nat) (err : ClientError) :
    Prog (Database ω) Broken (Unit ⊕ Nat) :=
  if err.isFenced then
    breakWith .Fenced
  else if err.isTransient then do
    -- It may have taken effect. Sending it again is safe.
    if deadline ≤ (← onLink (Client.now E)) then
      breakWith (.Uncertain s!"the server failed the commit: {err.display}")
    else do
      onWorld (Prog.modify (E.pause RECONNECT_PAUSE))
      resent
      return .inl ()
  else
    match err with
    | .Server e => breakWith (.Refused s!"{e.code.asStrName}: {e.detail}")
    | _ => commitUnknown E commitId deadline

-- One round of the retry loop in `commit`.
def commitRound (parts : List Pb.Commit) (commitId : Bytes) (deadline : Nat) (_ : Unit) :
    Prog (Database ω) Broken (Unit ⊕ Nat) := do
  commitReady E deadline
  match ← Prog.attempt (onLink (Client.commit E parts)) with
  | .ok version => return .inr version
  | .error err => commitFailed E commitId deadline err

-- What is left to do after the acknowledgement.
def commitDone (parts commitTime : Nat) (commitId : Bytes) (version : Nat) :
    Prog (Database ω) Broken Unit := do
  let db ← Prog.get
  let dirty := db.pages.dirtyBlocks.length
  count fun stats =>
    { stats with
      commits := stats.commits + 1
      commitFrames := stats.commitFrames + parts
      committedBlocks := stats.committedBlocks + dirty
      committedBytes := stats.committedBytes + dirty * db.pages.pageSize
      commitTime := stats.commitTime + commitTime
      maxCommitTime := max stats.maxCommitTime commitTime }
  Prog.modify (mapRemote fun remote =>
    { remote with version := version, lastCommitId := commitId, pendingCommit := none })
  let written := (← Prog.get).pages.committed.1
  Prog.modify (Held.mapPages fun pages => pages.committed.2)
  Remote.writeCopy E written
  Prog.modify (Held.makeRoom 0)
  Prog.modify Held.count

-- Draws the commit id and cuts the changes into parts.
def commitBegin : Prog (Database ω) Broken (Bytes × List Pb.Commit) := do
  let commitId ← onWorld (Env.ask E.random)
  let db ← Prog.get
  Prog.modify (mapRemote fun remote => { remote with pendingCommit := some commitId })
  return (commitId, db.remote.parts db.pages commitId db.client.limits.maxFrameBytes)

-- Sends the commit until it is acknowledged.
def commitChanges (reconnectTimeout : Nat) : Prog (Database ω) Broken Unit := do
  let (commitId, parts) ← commitBegin E
  let started ← onLink (Client.now E)
  let deadline := started + reconnectTimeout
  let version ← Prog.loop (commitRound E parts commitId deadline) E.fuel ()
  let ended ← onLink (Client.now E)
  commitDone E parts.length (ended - started) commitId version

def commit (reconnectTimeout : Nat) : Prog (Database ω) Broken Unit :=
  unlessBroken do
    let db ← Prog.get
    if db.pages.isClean then
      pure ()
    else if db.client.wasRevoked db.remote.dbId db.remote.leaseEpoch then
      breakWith .Fenced
    else
      commitChanges E reconnectTimeout

-- Releases the lease. Best effort.
def close {ε : Type} : Prog (Database ω) ε Unit := do
  let db ← Prog.get
  if db.remote.broken.isSome then
    onLink (Prog.modify (Link.mapClient Client.disconnect))
  else if ← Remote.onCurrentConnection E then
    let _ ← Prog.attempt (onLink (Client.call E (.CloseDb ⟨db.remote.dbId, db.remote.leaseEpoch⟩)))
  else
    pure ()

end Database

end RemoteVfs
