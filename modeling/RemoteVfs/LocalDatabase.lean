import RemoteVfs.Pages

namespace RemoteVfs

open Base

-- 2 MiB, the size of the region for each direction.
def CAPACITY : Nat := 2097152

-- Why a request to the store of the local databases did not succeed.
inductive Refusal where
  | Busy
  | Missing
  | Full (reason : String)
  | Failed (reason : String)
  | NoAnswer (reason : String)
  deriving DecidableEq, Repr

def Refusal.display : Refusal → String
  | .Busy => "another instance has the database open"
  | .Missing => "the database does not exist"
  | .Full reason => s!"storage quota exhausted: {reason}"
  | .Failed reason | .NoAnswer reason => reason

-- Head of a local database after opening it.
structure LocalOpened where
  pageSize : Nat
  pageCount : Nat
  epoch : Nat
  deriving DecidableEq, Repr

-- The requests to the connection worker, which is part of the world, and the clock.
structure LocalBridge (ω : Type) where
  openDatabase : String → Nat → Bool → Bool → Prog ω Refusal LocalOpened
  read : Nat → Nat → Prog ω Refusal (List Bytes)
  commit : Nat → Nat → List (Nat × Bytes) → Prog ω Refusal Unit
  close : ω → ω
  now : ω → Nat × ω
  debugBroken : Broken → String

-- Largest number of blocks of `pageSize` bytes that one read returns.
def maxRead (pageSize : Nat) : Nat := max ((CAPACITY - 4) / max pageSize 1) 1

-- What missing blocks are loaded through.
structure Load (ω : Type) where
  epoch : Nat
  broken : Option Broken
  world : ω

-- A database that is kept only in the browser, with the counters of the VFS.
abbrev LocalDatabase (ω : Type) := Held (Load ω)

structure LocalOptions where
  pageSize : Nat
  create : Bool
  takeover : Bool
  blocksPerFetch : Option PerFetch
  cap : Option Nat
  deriving DecidableEq, Repr

namespace LocalDatabase

variable {ω ε α : Type}

def mapLoad (change : Load ω → Load ω) (db : LocalDatabase ω) : LocalDatabase ω :=
  { db with source := change db.source }

def onWorld (body : Prog ω ε α) : Prog (LocalDatabase ω) ε α :=
  Prog.zoom (fun db => db.source.world)
    (fun world db => { db with source := { db.source with world := world } }) body

def count (change : Stats → Stats) : Prog (LocalDatabase ω) ε Unit :=
  Prog.modify fun db => { db with stats := change db.stats }

def breakWith (broken : Broken) : Prog (LocalDatabase ω) Broken α := do
  Prog.modify (mapLoad fun load => { load with broken := some broken })
  Prog.fail broken

end LocalDatabase

namespace Load

open LocalDatabase

variable {ω α : Type} (bridge : LocalBridge ω)

-- A refused read. Only a lost database and a missing answer break it.
def refuseRead : Refusal → Prog (LocalDatabase ω) Broken α
  | .Busy => breakWith .Fenced
  | .NoAnswer reason => breakWith (.Uncertain reason)
  | other => Prog.fail (.Refused other.display)

-- One round of the loop in `fill`. `next` is the first block that is still missing.
def fillStep (last next : Nat) : Prog (LocalDatabase ω) Broken (Nat ⊕ Unit) := do
  if last ≤ next then
    return .inr ()
  else do
    let pageSize := (← Prog.gets Held.pages).pageSize
    let n := min (maxRead pageSize) (last - next)
    let blocks ← Prog.handle (onWorld (bridge.read next n)) refuseRead
    match blocks.find? (·.length ≠ pageSize) with
    | some data => Prog.fail (.Refused s!"stored block of {data.length} bytes, expected {pageSize}")
    | none => do
      count fun stats =>
        { stats with localReads := stats.localReads + 1, localBlocksRead := stats.localBlocksRead + n }
      Prog.modify (Held.mapPages (·.keepAll (blocks.mapIdx fun offset data => (next + offset, data))))
      return .inl (next + n)

-- `Load::fill`. Every round loads at least one block.
def fill (first blocks : Nat) : Prog (LocalDatabase ω) Broken Unit := do
  match (← Prog.get).source.broken with
  | some broken => Prog.fail broken
  | none => Prog.loop (fillStep bridge (first + blocks)) (blocks + 1) first

def source : Source (Load ω) := ⟨fill bridge⟩

end Load

namespace LocalDatabase

variable {ω ε α : Type} (bridge : LocalBridge ω)

-- What the opening works with before there is a database.
structure Desk (ω : Type) where
  stats : Stats
  world : ω

-- The database that is built from the head, and its first load if it is preloaded.
def opening (options : LocalOptions) (opened : LocalOpened) :
    Prog (Desk ω) Refusal (LocalDatabase ω) := fun desk =>
  let db : LocalDatabase ω :=
    ⟨.new opened.pageSize opened.pageCount options.blocksPerFetch options.cap, desk.stats,
      ⟨opened.epoch, none, desk.world⟩⟩
  let loaded := if !db.pages.onDemand && decide (0 < db.pages.pageCount) then
      Load.fill bridge 0 db.pages.pageCount db
    else (.ok (), db)
  match loaded with
  | (.ok (), db) =>
    let db := Held.count (Held.makeRoom 0 db)
    (.ok db, ⟨db.stats, db.source.world⟩)
  | (.err broken, db) =>
    (.err (.Failed s!"loading the database failed: {bridge.debugBroken broken}"),
      ⟨db.stats, bridge.close db.source.world⟩)
  | (.hang, db) => (.hang, ⟨db.stats, db.source.world⟩)

-- `LocalDatabase::open`.
def openOn (name : String) (options : LocalOptions) : Prog (Desk ω) Refusal (LocalDatabase ω) := do
  let opened ← Prog.zoom Desk.world (fun world desk => { desk with world := world })
    (bridge.openDatabase name options.pageSize options.create options.takeover)
  if opened.pageSize = 0 ∨ MAX_PAGE_SIZE < opened.pageSize ∨ MAX_PAGE_COUNT < opened.pageCount then
    Prog.fail (.Failed
      s!"stored head with page size {opened.pageSize} and page count {opened.pageCount}")
  else
    opening bridge options opened

-- `read` looks at the reason only if a block is missing.
def read (offset length : Nat) : Prog (LocalDatabase ω) Broken (Bytes × Bool) :=
  Pages.read (Load.source bridge) offset length

def unlessBroken (body : Prog (LocalDatabase ω) Broken α) : Prog (LocalDatabase ω) Broken α := do
  match (← Prog.get).source.broken with
  | some broken => Prog.fail broken
  | none => body

def write (offset : Nat) (data : Bytes) : Prog (LocalDatabase ω) Broken Unit :=
  unlessBroken (Pages.write (Load.source bridge) offset data)

def truncate (size : Nat) : Prog (LocalDatabase ω) Broken Unit :=
  unlessBroken (Prog.modify (Held.mapPages (·.truncate size)))

-- Why a refused commit breaks the database.
def reasonOf : Refusal → Broken
  | .Busy => .Fenced
  | .Full reason => .Full reason
  | .NoAnswer reason => .Uncertain reason
  | other => .Refused other.display

def commitDone (blocks time : Nat) : Prog (LocalDatabase ω) Broken Unit := do
  let pageSize := (← Prog.gets Held.pages).pageSize
  count fun stats =>
    { stats with
      commits := stats.commits + 1
      committedBlocks := stats.committedBlocks + blocks
      committedBytes := stats.committedBytes + blocks * pageSize
      commitTime := stats.commitTime + time
      maxCommitTime := max stats.maxCommitTime time }
  Prog.modify (Held.mapPages fun pages => pages.committed.2)
  Prog.modify (Held.makeRoom 0)
  Prog.modify Held.count

def commit : Prog (LocalDatabase ω) Broken Unit :=
  unlessBroken do
    let db ← Prog.get
    if db.pages.isClean then
      pure ()
    else do
      let started ← onWorld fun world => (.ok (bridge.now world).1, (bridge.now world).2)
      let blocks := db.pages.dirtyBlocks
      Prog.handle (onWorld (bridge.commit db.source.epoch db.pages.pageCount blocks)) fun refusal =>
        breakWith (reasonOf refusal)
      let ended ← onWorld fun world => (.ok (bridge.now world).1, (bridge.now world).2)
      commitDone blocks.length (ended - started)

end LocalDatabase

end RemoteVfs
