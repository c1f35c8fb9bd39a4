import RemoteVfs.Types
import RemoteVfs.Base.Program
import RemoteVfs.Base.SortedSet
import RemoteVfs.Base.KeyedMap
import RemoteVfs.Base.FlatFile

namespace RemoteVfs

open Base

def REFILL_BLOCKS : Nat := 64
def MIN_PAGE_SIZE : Nat := 512
def MAX_PAGE_SIZE : Nat := 65536
def MAX_PAGE_COUNT : Nat := 4294967294

def validPageSize (size : Nat) : Bool :=
  MIN_PAGE_SIZE ≤ size && size ≤ MAX_PAGE_SIZE && size.isPowerOfTwo

-- A block in memory. `used` is the LRU clock at its last access.
structure Block where
  data : Bytes
  used : Nat
  deriving DecidableEq, Repr

-- `blocks_per_fetch`, with the width of the `usize` that it is cast to: 64 bits natively, 32 bits
-- in a browser.
structure PerFetch where
  blocks : Nat
  usizeBits : Nat
  deriving DecidableEq, Repr

def PerFetch.asUsize (perFetch : PerFetch) : Nat := perFetch.blocks % 2 ^ perFetch.usizeBits

-- The cast does not leave 0 blocks to load.
def Fetches (perFetch : Option PerFetch) : Prop := perFetch.map PerFetch.asUsize ≠ some 0

instance (perFetch : Option PerFetch) : Decidable (Fetches perFetch) := inferInstanceAs (Decidable (_ ≠ _))

-- When blocks are loaded.
inductive LoadMode where
  | Preload
  | OnDemand (blocksPerFetch : Nat)
  deriving DecidableEq, Repr

-- Limit on the number of blocks kept in memory.
inductive Memory where
  | Unlimited
  | Blocks (blocks : Nat)
  deriving DecidableEq, Repr

def LoadMode.blocksPerFetch (usizeBits : Nat) : LoadMode → Option PerFetch
  | Preload => none
  | OnDemand blocksPerFetch => some ⟨max blocksPerFetch 1, usizeBits⟩

def Memory.cap : Memory → Option Nat
  | Unlimited => none
  | Blocks blocks => some blocks

abbrev BlockMap := AList fun _ : Nat => Block

structure Pages where
  pageSize : Nat
  pageCount : Nat
  stablePageCount : Nat
  blocks : BlockMap
  dirty : SortedSet Nat
  sizeChanged : Bool
  blocksPerFetch : Option PerFetch
  cap : Option Nat
  clock : Nat

namespace Pages

def new (pageSize pageCount : Nat) (blocksPerFetch : Option PerFetch) (cap : Option Nat) : Pages where
  pageSize := pageSize
  pageCount := pageCount
  stablePageCount := pageCount
  blocks := ∅
  dirty := .empty
  sizeChanged := false
  blocksPerFetch := blocksPerFetch
  cap := cap
  clock := 0

def emptied (pages : Pages) (pageCount : Nat) : Pages :=
  new pages.pageSize pageCount pages.blocksPerFetch pages.cap

def onDemand (pages : Pages) : Bool := pages.blocksPerFetch.isSome

def fileSize (pages : Pages) : Nat := pages.pageCount * pages.pageSize

def held (pages : Pages) : Nat := pages.blocks.keys.length

def block (pages : Pages) (index : Nat) : Option Bytes := (pages.blocks.lookup index).map Block.data

def indexes (pages : Pages) : List Nat := pages.blocks.keys

def isClean (pages : Pages) : Bool := pages.dirty.elems.isEmpty && !pages.sizeChanged

-- `dirty()` of the source. It indexes the map, so a dirty block that is not in memory
-- would panic there; here it is left out.
def dirtyBlocks (pages : Pages) : List (Nat × Bytes) :=
  pages.dirty.elems.filterMap fun index => (pages.block index).map (index, ·)

def committed (pages : Pages) : List Nat × Pages :=
  (pages.dirty.elems,
    { pages with dirty := .empty, sizeChanged := false, stablePageCount := pages.pageCount })

def touch (pages : Pages) (index : Nat) : Pages :=
  let used := pages.clock + 1
  { pages with
    clock := used
    blocks := match pages.blocks.lookup index with
      | some block => pages.blocks.insert index { block with used := used }
      | none => pages.blocks }

def keep (pages : Pages) (index : Nat) (data : Bytes) : Pages :=
  let used := pages.clock + 1
  { pages with
    clock := used
    blocks := match pages.blocks.lookup index with
      | some _ => pages.blocks
      | none => pages.blocks.insert index ⟨data, used⟩ }

-- The loop that stores what a source returned.
def keepAll (pages : Pages) (loaded : List (Nat × Bytes)) : Pages :=
  loaded.foldl (fun pages entry => pages.keep entry.1 entry.2) pages

-- Order of the pairs of last access and index, as `select_nth_unstable` compares them.
def older (a b : Nat × Nat) : Prop := a.1 < b.1 ∨ a.1 = b.1 ∧ a.2 ≤ b.2

instance (a b : Nat × Nat) : Decidable (older a b) :=
  inferInstanceAs (Decidable (a.1 < b.1 ∨ a.1 = b.1 ∧ a.2 ≤ b.2))

def ages (pages : Pages) : List (Nat × Nat) :=
  (pages.blocks.entries.filter fun entry => entry.1 ∉ pages.dirty).map
    fun entry => (entry.2.used, entry.1)

-- The `count` least recently used blocks among those that are not dirty.
def oldest (pages : Pages) (count : Nat) : List Nat :=
  ((pages.ages.insertionSort older).take count).map Prod.snd

def evict (pages : Pages) (count : Nat) : Pages :=
  { pages with blocks := pages.blocks.retain fun index => index ∉ pages.oldest count }

-- How many blocks `make_room` evicts. Nat subtraction saturates as in the source.
def excess (pages : Pages) (incoming : Nat) : Nat :=
  match pages.cap.map (max · 1) with
  | none => 0
  | some cap =>
    if pages.held + incoming ≤ cap then 0
    else min (pages.held - (cap - cap / 8 - incoming)) pages.ages.length

def makeRoom (pages : Pages) (incoming : Nat) (stats : Stats) : Pages × Stats :=
  let count := pages.excess incoming
  if count = 0 then (pages, stats)
  else (pages.evict count, { stats with evictedBlocks := stats.evictedBlocks + count })

def overlay (data : Bytes) (within : Nat) (chunk : Bytes) : Bytes :=
  data.take within ++ chunk ++ data.drop (within + chunk.length)

-- One round of `write` after its block is loaded.
def put (pages : Pages) (index within : Nat) (chunk : Bytes) : Pages :=
  let used := pages.clock + 1
  let data := (pages.block index).getD (zeros pages.pageSize)
  { pages with
    clock := used
    blocks := pages.blocks.insert index ⟨overlay data within chunk, used⟩
    dirty := pages.dirty.insert index
    pageCount := if pages.pageCount ≤ index then index + 1 else pages.pageCount
    sizeChanged := pages.sizeChanged || decide (pages.pageCount ≤ index) }

def truncate (pages : Pages) (size : Nat) : Pages :=
  let pageCount := divCeil size pages.pageSize
  if pageCount ≠ pages.pageCount then
    { pages with
      blocks := pages.blocks.retain fun index => index < pageCount
      dirty := pages.dirty.filter fun index => index < pageCount
      pageCount := pageCount
      sizeChanged := true }
  else pages

-- Whether `ensure_loaded` finds the block in memory.
def has (pages : Pages) (index : Nat) : Bool :=
  (pages.blocks.lookup index).isSome || decide (index ∈ pages.dirty)

-- `per_fetch as usize`. The default fits.
def perFetch (pages : Pages) : Nat := (pages.blocksPerFetch.map PerFetch.asUsize).getD REFILL_BLOCKS

-- The length of the run of missing blocks from `index` on, at most `perFetch`.
def missing (pages : Pages) (index perFetch : Nat) : Nat :=
  ((List.range' index (min perFetch (pages.pageCount - index))).takeWhile
    fun i => !pages.has i).length

-- Preloaded without a memory limit: every block is in memory, nothing is ever loaded.
def whole (pages : Pages) : Bool := pages.blocksPerFetch.isNone && pages.cap.isNone

end Pages

-- Pages with the counters and the state of their source, the three things that
-- `read`, `write` and `fill` are handed.
structure Held (τ : Type) where
  pages : Pages
  stats : Stats
  source : τ

-- Loads blocks that are not in memory and stores them with `Pages.keep`.
structure Source (τ : Type) where
  fill : Nat → Nat → Prog (Held τ) Broken Unit

namespace Held

variable {τ : Type}

def makeRoom (incoming : Nat) (h : Held τ) : Held τ :=
  let (pages, stats) := h.pages.makeRoom incoming h.stats
  { h with pages := pages, stats := stats }

def count (h : Held τ) : Held τ :=
  { h with stats := { h.stats with heldBlocks := h.pages.held } }

def mapPages (change : Pages → Pages) (h : Held τ) : Held τ := { h with pages := change h.pages }

end Held

namespace Pages

variable {τ : Type}

def ensureLoaded (source : Source τ) (index : Nat) : Prog (Held τ) Broken Unit := do
  let pages ← Prog.gets Held.pages
  if pages.has index then
    Prog.modify (Held.mapPages (touch · index))
  else if pages.whole then
    pure ()
  else
    -- Blocks in memory may be newer than the stored ones, so the run stops at the first.
    let count := pages.missing index pages.perFetch
    if count = 0 then
      pure ()
    else do
      Prog.modify (Held.makeRoom count)
      source.fill index count

-- One round of the loop in `read`. `buf` holds the bytes read so far.
def readStep (source : Source τ) (offset length : Nat) (buf : Bytes) :
    Prog (Held τ) Broken (Bytes ⊕ Bytes × Bool) := do
  if length ≤ buf.length then
    Prog.modify Held.count
    return .inr (buf, true)
  let pages ← Prog.gets Held.pages
  let position := offset + buf.length
  let index := position / pages.pageSize
  let within := position % pages.pageSize
  let n := min (pages.pageSize - within) (length - buf.length)
  -- The division and the slice panic for blocks of no or too few bytes.
  if pages.pageSize = 0 then
    Prog.stuck
  else if pages.pageCount ≤ index then
    return .inr (buf ++ zeros (length - buf.length), false)
  else do
    ensureLoaded source index
    match ← Prog.gets (fun h => h.pages.block index) with
    | none => return .inl (buf ++ zeros n)
    | some data =>
      if data.length < within + n then Prog.stuck
      else return .inl (buf ++ (data.drop within).take n)

-- Every round reads at least one byte, so `length + 1` rounds are enough.
def read (source : Source τ) (offset length : Nat) : Prog (Held τ) Broken (Bytes × Bool) :=
  Prog.loop (readStep source offset length) (length + 1) []

-- Copies the chunk into its block. The slice of the block panics if it is too short.
def place (index within : Nat) (chunk : Bytes) : Prog (Held τ) Broken Unit := do
  if (← Prog.gets fun h => h.pages.block index).any (·.length < within + chunk.length) then
    Prog.stuck
  else
    Prog.modify (Held.mapPages (put · index within chunk))

def writeStep (source : Source τ) (offset : Nat) (data : Bytes) (done : Nat) :
    Prog (Held τ) Broken (Nat ⊕ Unit) := do
  if data.length ≤ done then
    Prog.modify Held.count
    return .inr ()
  let pages ← Prog.gets Held.pages
  let position := offset + done
  let index := position / pages.pageSize
  let within := position % pages.pageSize
  let n := min (pages.pageSize - within) (data.length - done)
  if pages.pageSize = 0 then
    Prog.stuck
  else do
    -- A partial write needs the existing content of the block.
    if n < pages.pageSize ∧ index < pages.pageCount then
      ensureLoaded source index
    place index within ((data.drop done).take n)
    return .inl (done + n)

def write (source : Source τ) (offset : Nat) (data : Bytes) : Prog (Held τ) Broken Unit :=
  Prog.loop (writeStep source offset data) (data.length + 1) 0

end Pages

end RemoteVfs
