import RemoteVfs.Base.FlatFile
import RemoteVfs.Base.LittleEndian
import RemoteVfs.Pages
import RemoteVfs.Env

namespace RemoteVfs

open Base

def MAGIC : Bytes := text "rvfslcl2"

-- Size of the header at the start of the file. Blocks start at this offset.
def HEADER_BYTES : Nat := 4096

def CLEAN : UInt8 := 0
def WRITING : UInt8 := 1

-- A change of the file that was not synced yet.
inductive FileChange where
  | Write (offset : Nat) (data : Bytes)
  | SetLen (size : Nat)
  deriving DecidableEq, Repr

def FileChange.apply (file : FlatFile UInt8) : FileChange → FlatFile UInt8
  | Write offset data => file.put offset data
  | SetLen size => file.resize size

-- How a call of the file system fails. A write at some position may have written a part
-- of its data before.
structure Fault where
  reason : String
  written : Nat → Nat

-- The cache file on its disk. A file that does not exist is like an empty one: it is
-- created when it is opened, and removing it is no error.
structure Volume where
  synced : FlatFile UInt8
  unsynced : List FileChange
  opened : Bool
  position : Nat
  -- Which calls fail, and the number of calls so far.
  faults : Nat → Option Fault
  calls : Nat

namespace Volume

def content (volume : Volume) : FlatFile UInt8 := volume.unsynced.foldl FileChange.apply volume.synced

def change (volume : Volume) (change : FileChange) : Volume :=
  { volume with unsynced := volume.unsynced ++ [change] }

-- A call that may fail, with the state that it leaves then.
def call {α : Type} (failed : Fault → Volume → Volume) (body : Prog Volume String α) :
    Prog Volume String α := fun volume =>
  let next := { volume with calls := volume.calls + 1 }
  match volume.faults volume.calls with
  | some fault => (.err fault.reason, failed fault next)
  | none => body next

def unchanged (_ : Fault) (volume : Volume) : Volume := volume

def length : Prog Volume String Nat := call unchanged (Prog.gets fun volume => volume.content.size)

def seek (offset : Nat) : Prog Volume String Unit :=
  call unchanged (Prog.modify fun volume => { volume with position := offset })

def readExact (count : Nat) : Prog Volume String Bytes :=
  call unchanged fun volume =>
    if volume.position + count ≤ volume.content.size then
      (.ok (volume.content.cells volume.position count),
        { volume with position := volume.position + count })
    else (.err "failed to fill whole buffer", volume)

def writeAll (data : Bytes) : Prog Volume String Unit :=
  call (fun fault volume =>
      volume.change (.Write volume.position (data.take (fault.written volume.position))))
    (Prog.modify fun volume =>
      { volume.change (.Write volume.position data) with position := volume.position + data.length })

def setLen (size : Nat) : Prog Volume String Unit :=
  call unchanged (Prog.modify fun volume => volume.change (.SetLen size))

def syncData : Prog Volume String Unit :=
  call unchanged (Prog.modify fun volume => { volume with synced := volume.content, unsynced := [] })

def removeFile : Prog Volume String Unit :=
  call unchanged (Prog.modify fun volume => { volume with synced := .empty, unsynced := [] })

end Volume

-- Bitmap of the blocks present in the copy, one bit per block.
structure Present where
  bytes : Bytes
  deriving DecidableEq, Repr

namespace Present

def mask (index : Nat) : UInt8 := 1 <<< UInt8.ofNat (index % 8)

def empty (pageCount : Nat) : Present := ⟨List.replicate (divCeil pageCount 8) 0⟩

def has (present : Present) (index : Nat) : Bool :=
  match present.bytes[index / 8]? with
  | some byte => byte &&& mask index != 0
  | none => false

def set (present : Present) (index : Nat) : Present :=
  ⟨present.bytes.modify (index / 8) (· ||| mask index)⟩

def clear (present : Present) (index : Nat) : Present :=
  ⟨present.bytes.modify (index / 8) (· &&& ~~~mask index)⟩

-- The bitmap for a different page count. The last byte kept may still hold bits for blocks
-- beyond the new end.
def resized (present : Present) (pageCount : Nat) : Present :=
  let length := divCeil pageCount 8
  let kept := present.bytes.take length
  (List.range' pageCount (roundUp 8 pageCount - pageCount)).foldl clear
    ⟨kept ++ List.replicate (length - kept.length) 0⟩

end Present

namespace FileStore

-- `none` stands for the panic of an index out of bounds.
def encode (head : Head) (state : UInt8) : Option Bytes :=
  let subject := text head.subject
  let dbId := text head.dbId
  let used := 36 + subject.length + dbId.length
  if used ≤ HEADER_BYTES then
    some (MAGIC ++ [state, 0, 0, 0] ++ leBytes 4 head.pageSize ++ leBytes 8 head.pageCount ++
      leBytes 8 head.version ++ leBytes 2 subject.length ++ leBytes 2 dbId.length ++ subject ++ dbId ++
      List.replicate (HEADER_BYTES - used) 0)
  else none

def slice (bytes : Bytes) (start length : Nat) : Bytes := (bytes.drop start).take length

def name (bytes : Bytes) (start length : Nat) : Option String :=
  if start + length ≤ bytes.length then String.fromUTF8? ⟨(slice bytes start length).toArray⟩ else none

def decode (bytes : Bytes) : Option (Head × UInt8) :=
  if slice bytes 0 8 ≠ MAGIC then none
  else
    let state := bytes.getD 8 0
    let pageSize := ofLeBytes (slice bytes 12 4)
    let pageCount := ofLeBytes (slice bytes 16 8)
    if pageSize = 0 ∨ MAX_PAGE_SIZE < pageSize ∨ MAX_PAGE_COUNT < pageCount then none
    else do
      let version := ofLeBytes (slice bytes 24 8)
      let subjectLen := ofLeBytes (slice bytes 32 2)
      let dbIdLen := ofLeBytes (slice bytes 34 2)
      let subject ← name bytes 36 subjectLen
      let dbId ← name bytes (36 + subjectLen) dbIdLen
      return (⟨subject, dbId, pageSize, pageCount, version⟩, state)

open Volume

def openFile : Prog Volume String Unit := do
  if ← Prog.gets Volume.opened then
    return
  else
    call unchanged (Prog.modify fun volume => { volume with opened := true })

def readHeader : Prog Volume String (Option (Head × UInt8)) := do
  openFile
  if (← length) < HEADER_BYTES then
    return none
  else do
    seek 0
    return decode (← readExact HEADER_BYTES)

def writeHeader (head : Head) (state : UInt8) : Prog Volume String Unit :=
  match encode head state with
  | none => Prog.stuck
  | some bytes => do
    openFile
    seek 0
    writeAll bytes
    syncData

-- Offset of the bitmap, directly after the last block.
def bitsAt (head : Head) : Nat := HEADER_BYTES + head.pageCount * head.pageSize

def readPresent (head : Head) : Prog Volume String Present := do
  let count := divCeil head.pageCount 8
  openFile
  if (← length) < bitsAt head + count then
    return .empty head.pageCount
  else do
    seek (bitsAt head)
    return ⟨← readExact count⟩

def head : Prog Volume String (Option Head) := do
  match ← readHeader with
  | some (head, state) => return if state = CLEAN then some head else none
  | none => return none

def readBlocks (pageSize : Nat) : Nat → Prog Volume String (List Bytes)
  | 0 => return []
  | run + 1 => do
    let block ← readExact pageSize
    return block :: (← readBlocks pageSize run)

-- The sum is one of 64 bits.
def run (present : Present) (head : Head) (first count : Nat) : Nat :=
  ((List.range' first (min ((first + count) % 2 ^ 64) head.pageCount - first)).takeWhile
    present.has).length

def read (first count : Nat) : Prog Volume String (List Bytes) := do
  match ← readHeader with
  | none => return []
  | some (head, state) =>
    if state ≠ CLEAN then
      return []
    else do
      let present ← readPresent head
      if run present head first count = 0 then
        return []
      else do
        openFile
        seek (HEADER_BYTES + first * head.pageSize)
        readBlocks head.pageSize (run present head first count)

def writeBlocks (head : Head) : List (Nat × Bytes) → Present → Prog Volume String Present
  | [], present => return present
  | (index, data) :: rest, present =>
    if head.pageCount ≤ index then writeBlocks head rest present
    else do
      seek (HEADER_BYTES + index * head.pageSize)
      writeAll data
      writeBlocks head rest (present.set index)

-- The end of `write` and `forget`: the bitmap, and the header in the clean state.
def finish (head : Head) (present : Present) : Prog Volume String Unit := do
  seek (bitsAt head)
  writeAll present.bytes
  setLen (bitsAt head + present.bytes.length)
  syncData
  writeHeader head CLEAN

-- The bitmap of the copy before the write, for the new page count.
def keptPresent (pageCount : Nat) : Option Head → Prog Volume String Present
  | some before => do return (← readPresent before).resized pageCount
  | none => return .empty pageCount

def write (head : Head) (blocks : List (Nat × Bytes)) : Prog Volume String Unit := do
  let before := (← readHeader).map Prod.fst
  let present ← keptPresent head.pageCount before
  writeHeader (before.getD { head with version := 0 }) WRITING
  openFile
  let present ← writeBlocks head blocks present
  finish head present

def forget (head : Head) (blocks : List Nat) : Prog Volume String Unit := do
  match ← readHeader with
  | none => Prog.fail "no local copy to catch up"
  | some (before, _) =>
    let present := (← readPresent before).resized head.pageCount
    let present := blocks.foldl Present.clear present
    writeHeader before WRITING
    openFile
    finish head present

def clear : Prog Volume String Unit := do
  Prog.modify fun volume => { volume with opened := false }
  removeFile

def store : LocalStore Volume where
  head := head
  read := read
  write := write
  forget := forget
  clear := clear
  select _ := pure ()
  flush := pure ()

end FileStore

end RemoteVfs
