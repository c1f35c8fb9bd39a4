import RemoteVfs.FileStore.Format
import RemoteVfs.LocalDatabase
import RemoteVfs.Worker

namespace RemoteVfs

open Base FileStore

def PIECE_FIRST : Nat := 1
def PIECE_LAST : Nat := 2

-- Sets bytes that were left open before.
def patch (bytes : Bytes) (offset : Nat) (value : Bytes) : Bytes :=
  bytes.take offset ++ value ++ bytes.drop (offset + value.length)

namespace Transfer

-- The side of the SQLite worker.

def entryBytes (entry : Nat × Bytes) : Bytes := leBytes 8 entry.1 ++ leBytes 4 entry.2.length ++ entry.2

-- The blocks that go into one piece, and the rest. A first block always goes in.
def fitting (used count : Nat) : List (Nat × Bytes) → List (Nat × Bytes) × List (Nat × Bytes)
  | [] => ([], [])
  | entry :: rest =>
    if CAPACITY < used + 12 + entry.2.length ∧ 0 < count then ([], entry :: rest)
    else
      let (taken, left) := fitting (used + 12 + entry.2.length) (count + 1) rest
      (entry :: taken, left)

-- The loop over the pieces. `build` is told whether a piece is the first and the last one, and
-- `header` is the length of a piece before its blocks. `none` if the bound is used up.
def pieces (header : Nat) (build : Bool → Bool → List (Nat × Bytes) → Bytes) :
    Nat → Bool → List (Nat × Bytes) → Option (List Bytes)
  | 0, _, _ => none
  | bound + 1, first, blocks =>
    let (taken, left) := fitting header 0 blocks
    let piece := build first left.isEmpty taken
    if left.isEmpty then some [piece]
    else (pieces header build bound false left).map (piece :: ·)

def flags (first last : Bool) : Nat :=
  (if first then PIECE_FIRST else 0) ||| (if last then PIECE_LAST else 0)

def commitPiece (epoch pageCount : Nat) (first last : Bool) (blocks : List (Nat × Bytes)) : Bytes :=
  let piece := leBytes 4 0 ++ leBytes 8 epoch ++ leBytes 8 pageCount ++ leBytes 4 0 ++
    blocks.flatMap entryBytes
  patch (patch piece 0 (leBytes 4 (flags first last))) 20 (leBytes 4 blocks.length)

-- The pieces of `LocalBridge::commit`.
def commitPieces (epoch pageCount : Nat) (blocks : List (Nat × Bytes)) : Option (List Bytes) :=
  pieces 24 (commitPiece epoch pageCount) (blocks.length + 1) true blocks

def headBytes (head : Head) : Bytes :=
  leBytes 4 head.pageSize ++ leBytes 8 head.pageCount ++ leBytes 8 head.version ++
    leBytes 2 (text head.subject).length ++ leBytes 2 (text head.dbId).length ++
    text head.subject ++ text head.dbId

def copyPiece (head : Head) (last : Bool) (blocks : List (Nat × Bytes)) : Bytes :=
  let start := leBytes 4 0 ++ leBytes 4 (headBytes head).length ++ headBytes head
  let chunk := start ++ leBytes 4 0 ++ blocks.flatMap entryBytes
  patch (patch chunk 0 (leBytes 4 last.toNat)) start.length (leBytes 4 blocks.length)

-- The pieces of `Copy::write`.
def copyPieces (head : Head) (blocks : List (Nat × Bytes)) : Option (List Bytes) :=
  pieces (12 + (headBytes head).length) (fun _ => copyPiece head) (blocks.length + 1) true blocks

-- The side of the connection worker.

-- A number read through a `DataView`. `none` is its RangeError.
def getUint (bytes : Bytes) (offset width : Nat) : Option Nat :=
  if offset + width ≤ bytes.length then some (ofLeBytes (slice bytes offset width)) else none

-- `Number` of a big integer: the nearest double, and of two the one with an even mantissa.
def toNumber (n : Nat) : Nat :=
  if n < 2 ^ 53 then n
  else
    let unit := 2 ^ (Nat.log2 n - 52)
    let mantissa := n / unit
    let rest := 2 * (n % unit)
    if unit < rest ∨ unit = rest ∧ mantissa % 2 = 1 then (mantissa + 1) * unit else mantissa * unit

def BOM : Bytes := [0xEF, 0xBB, 0xBF]

-- The state of the decoder between two bytes: how many bytes of a character are missing, the
-- range of the next one and the bits so far.
structure Unfinished where
  needed : Nat
  lower : UInt8
  upper : UInt8
  codePoint : Nat

-- The first byte of a character.
def lead (byte : UInt8) : List Char × Unfinished :=
  if byte ≤ 0x7F then ([Char.ofNat byte.toNat], ⟨0, 0x80, 0xBF, 0⟩)
  else if 0xC2 ≤ byte ∧ byte ≤ 0xDF then ([], ⟨1, 0x80, 0xBF, byte.toNat % 32⟩)
  else if 0xE0 ≤ byte ∧ byte ≤ 0xEF then
    ([], ⟨2, if byte = 0xE0 then 0xA0 else 0x80, if byte = 0xED then 0x9F else 0xBF, byte.toNat % 16⟩)
  else if 0xF0 ≤ byte ∧ byte ≤ 0xF4 then
    ([], ⟨3, if byte = 0xF0 then 0x90 else 0x80, if byte = 0xF4 then 0x8F else 0xBF, byte.toNat % 8⟩)
  else (['\uFFFD'], ⟨0, 0x80, 0xBF, 0⟩)

-- The decoder for malformed bytes. A byte that does not continue a character ends it with a
-- replacement character and is looked at again.
def repair (state : Unfinished) : Bytes → List Char
  | [] => if state.needed = 0 then [] else ['\uFFFD']
  | byte :: rest =>
    if state.needed = 0 then (lead byte).1 ++ repair (lead byte).2 rest
    else if byte < state.lower ∨ state.upper < byte then
      '\uFFFD' :: ((lead byte).1 ++ repair (lead byte).2 rest)
    else
      let codePoint := state.codePoint * 64 + byte.toNat % 64
      if state.needed = 1 then Char.ofNat codePoint :: repair ⟨0, 0x80, 0xBF, 0⟩ rest
      else repair ⟨state.needed - 1, 0x80, 0xBF, codePoint⟩ rest

-- `TextDecoder.decode`, which leaves a byte order mark out.
def decodeText (bytes : Bytes) : String :=
  let rest := if bytes.take 3 = BOM then bytes.drop 3 else bytes
  (String.fromUTF8? ⟨rest.toArray⟩).getD (.ofList (repair ⟨0, 0x80, 0xBF, 0⟩ rest))

def headFrom (bytes : Bytes) : Option Head := do
  let subjectLength ← getUint bytes 20 2
  let dbIdLength ← getUint bytes 22 2
  let pageSize ← getUint bytes 0 4
  let pageCount ← getUint bytes 4 8
  let version ← getUint bytes 12 8
  return {
    subject := decodeText (slice bytes 24 subjectLength)
    dbId := decodeText (slice bytes (24 + subjectLength) dbIdLength)
    pageSize := pageSize
    pageCount := toNumber pageCount
    version := toNumber version }

-- The loop over the blocks of a piece.
def collect (chunk : Bytes) : Nat → Nat → List (Nat × Bytes) → Option (List (Nat × Bytes))
  | 0, _, pending => some pending
  | count + 1, offset, pending => do
    let index ← getUint chunk offset 8
    let size ← getUint chunk (offset + 8) 4
    collect chunk count (offset + 12 + size) (pending ++ [(toNumber index, slice chunk (offset + 12) size)])

-- What the worker has collected, and the transactions that it started.
structure Inlet where
  localPending : List (Nat × Bytes)
  pending : List (Nat × Bytes)
  commits : List Worker.Job
  writes : List (Head × List (Nat × Bytes))
  deriving DecidableEq, Repr

-- `OP_LOCAL_COMMIT`.
def localCommit (inlet : Inlet) (chunk : Bytes) : Option Inlet := do
  let flags ← getUint chunk 0 4
  let epoch ← getUint chunk 4 8
  let pageCount ← getUint chunk 12 8
  let count ← getUint chunk 20 4
  let blocks ← collect chunk count 24 (if flags &&& 1 ≠ 0 then [] else inlet.localPending)
  if flags &&& 2 = 0 then
    return { inlet with localPending := blocks }
  else
    return { inlet with
      localPending := []
      commits := inlet.commits ++ [.Commit (toNumber epoch) (toNumber pageCount) blocks] }

-- `OP_COPY_WRITE`.
def copyWrite (inlet : Inlet) (chunk : Bytes) : Option Inlet := do
  let last ← getUint chunk 0 4
  let headLength ← getUint chunk 4 4
  let head ← headFrom (slice chunk 8 headLength)
  let count ← getUint chunk (8 + headLength) 4
  let blocks ← collect chunk count (12 + headLength) inlet.pending
  if last = 1 then
    return { inlet with pending := [], writes := inlet.writes ++ [(head, blocks)] }
  else
    return { inlet with pending := blocks }

-- The flag that ends a transfer, as the worker reads it.
def endsCommit (chunk : Bytes) : Bool := (getUint chunk 0 4).any (fun flags => flags &&& 2 != 0)

def endsWrite (chunk : Bytes) : Bool := (getUint chunk 0 4).any (· == 1)

-- The blocks of one piece.
structure Piece (header : Nat) (taken : List (Nat × Bytes)) : Prop where
  fits : header + (taken.flatMap entryBytes).length ≤ CAPACITY
  index : ∀ entry ∈ taken, entry.1 < 2 ^ 53
  size : ∀ entry ∈ taken, entry.2.length ≤ 65536

theorem length_entryBytes (entry : Nat × Bytes) : (entryBytes entry).length = 12 + entry.2.length := by
  simp [entryBytes]
  omega

theorem fitting_append (used count : Nat) (blocks : List (Nat × Bytes)) :
    (fitting used count blocks).1 ++ (fitting used count blocks).2 = blocks := by
  induction blocks generalizing used count with
  | nil => rfl
  | cons entry rest ih =>
      rw [fitting]
      by_cases hfull : CAPACITY < used + 12 + entry.2.length ∧ 0 < count
      · rw [if_pos hfull, List.nil_append]
      · rw [if_neg hfull, List.cons_append, ih]

theorem fitting_fits (used count : Nat) {blocks : List (Nat × Bytes)}
    (hsize : ∀ entry ∈ blocks, entry.2.length ≤ 65536) (hused : used ≤ CAPACITY)
    (hroom : count = 0 → used + 12 + 65536 ≤ CAPACITY) :
    used + ((fitting used count blocks).1.flatMap entryBytes).length ≤ CAPACITY := by
  induction blocks generalizing used count with
  | nil => simpa [fitting] using hused
  | cons entry rest ih =>
      rw [fitting]
      by_cases hfull : CAPACITY < used + 12 + entry.2.length ∧ 0 < count
      · rw [if_pos hfull]
        simpa using hused
      · rw [if_neg hfull]
        have hentry := hsize entry (by simp)
        have hnext : used + 12 + entry.2.length ≤ CAPACITY := by
          by_cases hcount : count = 0
          · have := hroom hcount
            omega
          · omega
        have hrest := ih (used + 12 + entry.2.length) (count + 1)
          (fun entry h => hsize entry (by simp [h])) hnext (by omega)
        simp only [List.flatMap_cons, List.length_append, length_entryBytes]
        omega

theorem fitting_first (used : Nat) {blocks : List (Nat × Bytes)} (h : blocks ≠ []) :
    (fitting used 0 blocks).1 ≠ [] := by
  cases blocks with
  | nil => exact absurd rfl h
  | cons entry rest => simp [fitting]

-- What holds for a transfer in one piece, and for a piece in front of a transfer, holds for every
-- transfer. The blocks get fewer with each piece, so the bound is not used up.
theorem pieces_induction {header : Nat} {build : Bool → Bool → List (Nat × Bytes) → Bytes}
    (P : Bool → List (Nat × Bytes) → List Bytes → Prop) (hroom : header + 12 + 65536 ≤ CAPACITY)
    (hlast : ∀ first taken, Piece header taken → P first taken [build first true taken])
    (hmore : ∀ first taken left rest, Piece header taken → P false left rest →
      P first (taken ++ left) (build first false taken :: rest))
    (bound : Nat) (first : Bool) {blocks : List (Nat × Bytes)} (hbound : blocks.length < bound)
    (hindex : ∀ entry ∈ blocks, entry.1 < 2 ^ 53) (hsize : ∀ entry ∈ blocks, entry.2.length ≤ 65536) :
    ∃ sent, pieces header build bound first blocks = some sent ∧ P first blocks sent := by
  induction bound generalizing first blocks with
  | zero => omega
  | succ bound ih =>
      have happend := fitting_append header 0 blocks
      have hfits := fitting_fits header 0 hsize (by omega) (fun _ => hroom)
      have hnonempty : blocks ≠ [] → (fitting header 0 blocks).1 ≠ [] := fitting_first header
      rw [pieces]
      generalize fitting header 0 blocks = split at happend hfits hnonempty ⊢
      obtain ⟨taken, left⟩ := split
      dsimp only at happend hfits hnonempty ⊢
      have hmem : ∀ entry, entry ∈ taken ∨ entry ∈ left → entry ∈ blocks := by
        intro entry h
        rwa [← happend, List.mem_append]
      have hpiece : Piece header taken := {
        fits := hfits
        index := fun entry h => hindex entry (hmem entry (.inl h))
        size := fun entry h => hsize entry (hmem entry (.inl h)) }
      by_cases hleft : left = []
      · subst hleft
        rw [List.append_nil] at happend
        subst happend
        exact ⟨_, rfl, hlast first taken hpiece⟩
      · have htaken : taken ≠ [] := by
          apply hnonempty
          intro hblocks
          simp [hblocks, hleft] at happend
        have hshorter : left.length < bound := by
          have := List.length_pos_iff.mpr htaken
          rw [← happend, List.length_append] at hbound
          omega
        obtain ⟨rest, hrest, hP⟩ := ih false hshorter
          (fun entry h => hindex entry (hmem entry (.inr h)))
          (fun entry h => hsize entry (hmem entry (.inr h)))
        have hempty : left.isEmpty = false := by simpa using hleft
        rw [hempty, if_neg (by simp), hrest]
        refine ⟨_, rfl, ?_⟩
        rw [← happend]
        exact hmore first taken left rest hpiece hP

theorem patch_append (first : Bytes) {old value : Bytes} (last : Bytes) {offset : Nat}
    (hstart : first.length = offset) (hlength : value.length = old.length) :
    patch (first ++ (old ++ last)) offset value = first ++ (value ++ last) := by
  rw [patch, List.take_left' hstart, ← List.append_assoc, List.drop_left' (by simp [hstart, hlength]),
    List.append_assoc]

theorem patch_first {old value last : Bytes} (hlength : value.length = old.length) :
    patch (old ++ last) 0 value = value ++ last :=
  patch_append [] last List.length_nil hlength

theorem getUint_append {first last : Bytes} {offset width n : Nat} (hstart : first.length = offset)
    (h : n < 256 ^ width) : getUint (first ++ (leBytes width n ++ last)) offset width = some n := by
  have hbound : offset + width ≤ (first ++ (leBytes width n ++ last)).length := by
    simp only [List.length_append, length_leBytes]
    omega
  rw [getUint, if_pos hbound, slice_append hstart (length_leBytes _ _), ofLeBytes_leBytes h]

theorem toNumber_of_lt {n : Nat} (h : n < 2 ^ 53) : toNumber n = n := if_pos h

-- The blocks that `collect` reads are those that were written.
theorem collect_entries (first : Bytes) {blocks : List (Nat × Bytes)} {offset : Nat}
    (hstart : first.length = offset) (hindex : ∀ entry ∈ blocks, entry.1 < 2 ^ 53)
    (hsize : ∀ entry ∈ blocks, entry.2.length ≤ 65536) (pending : List (Nat × Bytes)) :
    collect (first ++ blocks.flatMap entryBytes) blocks.length offset pending =
      some (pending ++ blocks) := by
  induction blocks generalizing first offset pending with
  | nil => simp [collect]
  | cons entry rest ih =>
      have hentry := hindex entry (by simp)
      have hlength := hsize entry (by simp)
      have hbytes : first ++ (entry :: rest).flatMap entryBytes =
          first ++ (leBytes 8 entry.1 ++ (leBytes 4 entry.2.length ++
            (entry.2 ++ rest.flatMap entryBytes))) := by
        simp only [List.flatMap_cons, entryBytes, List.append_assoc]
      have hindexAt : getUint (first ++ (entry :: rest).flatMap entryBytes) offset 8 = some entry.1 := by
        rw [hbytes]
        exact getUint_append hstart (by omega)
      have hsizeAt : getUint (first ++ (entry :: rest).flatMap entryBytes) (offset + 8) 4 =
          some entry.2.length := by
        rw [hbytes, ← List.append_assoc]
        exact getUint_append (by simp [hstart]) (by omega)
      have hdata : slice (first ++ (entry :: rest).flatMap entryBytes) (offset + 12) entry.2.length =
          entry.2 := by
        rw [hbytes, ← List.append_assoc, ← List.append_assoc]
        exact slice_append (by simp [hstart]) rfl
      have hoffset : (first ++ entryBytes entry).length = offset + 12 + entry.2.length := by
        rw [List.length_append, hstart, length_entryBytes, Nat.add_assoc]
      have hnext := ih (first ++ entryBytes entry) hoffset (fun entry h => hindex entry (by simp [h]))
        (fun entry h => hsize entry (by simp [h])) (pending ++ [entry])
      rw [List.length_cons, collect, hindexAt, hsizeAt]
      simp only [Option.bind_eq_bind, Option.bind_some]
      rw [hdata, toNumber_of_lt hentry, List.flatMap_cons, ← List.append_assoc, hnext, List.append_assoc]
      rfl

theorem Piece.count {header : Nat} {taken : List (Nat × Bytes)} (h : Piece header taken) :
    taken.length < 256 ^ 4 := by
  have hbytes : taken.length ≤ (taken.flatMap entryBytes).length := by
    clear h
    induction taken with
    | nil => simp
    | cons entry rest ih =>
        simp only [List.flatMap_cons, List.length_append, List.length_cons, length_entryBytes]
        omega
  have hfits := h.fits
  have hcapacity : CAPACITY < 256 ^ 4 := by decide
  omega

theorem flags_lt (first last : Bool) : flags first last < 256 ^ 4 := by
  cases first <;> cases last <;> decide

theorem commitPiece_eq (epoch pageCount : Nat) (first last : Bool) (blocks : List (Nat × Bytes)) :
    commitPiece epoch pageCount first last blocks =
      leBytes 4 (flags first last) ++ (leBytes 8 epoch ++ (leBytes 8 pageCount ++
        (leBytes 4 blocks.length ++ blocks.flatMap entryBytes))) := by
  simp only [commitPiece, List.append_assoc]
  rw [patch_first (by simp)]
  simp only [← List.append_assoc]
  rw [List.append_assoc _ (leBytes 4 0), patch_append _ _ (by simp) (by simp), ← List.append_assoc]

theorem getUint_first {last : Bytes} {width n : Nat} (h : n < 256 ^ width) :
    getUint (leBytes width n ++ last) 0 width = some n := by
  rw [← List.nil_append (leBytes width n ++ last)]
  exact getUint_append List.length_nil h

theorem flags_first (first last : Bool) : flags first last &&& 1 ≠ 0 ↔ first = true := by
  cases first <;> cases last <;> decide

theorem flags_last (first last : Bool) : flags first last &&& 2 = 0 ↔ last = false := by
  cases first <;> cases last <;> decide

theorem localCommit_piece {epoch pageCount : Nat} (hepoch : epoch < 2 ^ 53)
    (hpageCount : pageCount < 2 ^ 53) (first last : Bool) {taken : List (Nat × Bytes)}
    (h : Piece 24 taken) (inlet : Inlet) :
    let blocks := (if first then [] else inlet.localPending) ++ taken
    localCommit inlet (commitPiece epoch pageCount first last taken) =
      some (if last then
        { inlet with localPending := [], commits := inlet.commits ++ [.Commit epoch pageCount blocks] }
      else { inlet with localPending := blocks }) := by
  intro blocks
  have hflags : getUint (commitPiece epoch pageCount first last taken) 0 4 = some (flags first last) := by
    rw [commitPiece_eq]
    exact getUint_first (flags_lt first last)
  have hepochAt : getUint (commitPiece epoch pageCount first last taken) 4 8 = some epoch := by
    rw [commitPiece_eq]
    exact getUint_append (by simp) (by omega)
  have hpageCountAt : getUint (commitPiece epoch pageCount first last taken) 12 8 = some pageCount := by
    rw [commitPiece_eq, ← List.append_assoc]
    exact getUint_append (by simp) (by omega)
  have hcountAt : getUint (commitPiece epoch pageCount first last taken) 20 4 = some taken.length := by
    rw [commitPiece_eq, ← List.append_assoc, ← List.append_assoc]
    exact getUint_append (by simp) h.count
  have hblocks : collect (commitPiece epoch pageCount first last taken) taken.length 24
      (if flags first last &&& 1 ≠ 0 then [] else inlet.localPending) = some blocks := by
    rw [commitPiece_eq, ← List.append_assoc, ← List.append_assoc, ← List.append_assoc,
      collect_entries _ (by simp) h.index h.size]
    simp only [flags_first, blocks]
  rw [localCommit, hflags, hepochAt, hpageCountAt, hcountAt]
  simp only [Option.bind_eq_bind, Option.bind_some]
  rw [hblocks]
  simp only [Option.bind_some, flags_last, toNumber_of_lt hepoch, toNumber_of_lt hpageCount]
  cases last <;> rfl

-- The numbers that a double holds.
def Exact (n : Nat) : Prop := ∃ mantissa exponent, mantissa < 2 ^ 53 ∧ n = mantissa * 2 ^ exponent

theorem toNumber_eq_iff (n : Nat) : toNumber n = n ↔ Exact n := by
  unfold toNumber
  by_cases hsmall : n < 2 ^ 53
  · rw [if_pos hsmall]
    exact ⟨fun _ => ⟨n, 0, hsmall, by simp⟩, fun _ => rfl⟩
  · rw [if_neg hsmall]
    dsimp only
    have hn : n ≠ 0 := by omega
    have hlog : 53 ≤ Nat.log2 n := (Nat.le_log2 hn).mpr (by omega)
    have hunit : 0 < 2 ^ (Nat.log2 n - 52) := by positivity
    have hdiv : n / 2 ^ (Nat.log2 n - 52) < 2 ^ 53 := by
      rw [Nat.div_lt_iff_lt_mul hunit, ← Nat.pow_add,
        show 53 + (Nat.log2 n - 52) = Nat.log2 n + 1 by omega]
      exact Nat.lt_log2_self
    have hsplit := Nat.div_add_mod' n (2 ^ (Nat.log2 n - 52))
    have hrest := Nat.mod_lt n hunit
    constructor
    · intro h
      split_ifs at h with hup
      · exfalso
        rw [Nat.add_mul] at h
        omega
      · exact ⟨_, _, hdiv, h.symm⟩
    · rintro ⟨mantissa, exponent, hmantissa, rfl⟩
      -- The unit divides every such number.
      have hexponent : Nat.log2 (mantissa * 2 ^ exponent) - 52 ≤ exponent := by
        have hlt : mantissa * 2 ^ exponent < 2 ^ (53 + exponent) := by
          rw [Nat.pow_add]
          exact Nat.mul_lt_mul_of_pos_right hmantissa (by positivity)
        have := (Nat.log2_lt hn).mpr hlt
        omega
      have hzero := Nat.mod_eq_zero_of_dvd
        (Dvd.dvd.mul_left (Nat.pow_dvd_pow 2 hexponent) mantissa)
      rw [if_neg (by rw [hzero]; omega)]
      omega

-- What is left of a name without its byte order mark is a name again.
theorem exists_drop_mark {value : String} (h : (text value).take 3 = BOM) :
    ∃ rest, text rest = (text value).drop 3 := by
  have hbytes : value.toByteArray = ['\uFEFF'].utf8Encode ++ ⟨((text value).drop 3).toArray⟩ := by
    rw [show ['\uFEFF'].utf8Encode = ⟨BOM.toArray⟩ from rfl, ← h]
    apply ByteArray.ext
    simp [text]
  have hvalid := value.isValidUTF8
  rw [hbytes, ByteArray.isValidUTF8_utf8Encode_singleton_append_iff] at hvalid
  exact ⟨.fromUTF8 _ hvalid, rfl⟩

theorem text_decodeText (value : String) :
    text (decodeText (text value)) = if (text value).take 3 = BOM then (text value).drop 3 else text value := by
  unfold decodeText
  split_ifs with hmark
  · obtain ⟨rest, hrest⟩ := exists_drop_mark hmark
    dsimp only
    rw [← hrest, fromUTF8_text, Option.getD_some]
  · dsimp only
    rw [fromUTF8_text, Option.getD_some]

theorem decodeText_text_iff (value : String) :
    decodeText (text value) = value ↔ (text value).take 3 ≠ BOM := by
  constructor
  · intro h hmark
    have hlength := congrArg List.length (text_decodeText value)
    have hlong := congrArg List.length hmark
    rw [h, if_pos hmark, List.length_drop] at hlength
    rw [List.length_take, show BOM.length = 3 from rfl] at hlong
    omega
  · intro hmark
    unfold decodeText
    rw [if_neg hmark]
    dsimp only
    rw [fromUTF8_text, Option.getD_some]

-- The head as the worker decodes it.
def received (head : Head) : Head := {
  head with
  subject := decodeText (text head.subject)
  dbId := decodeText (text head.dbId)
  version := toNumber head.version }

-- The heads that the client has: numbers of their machine types, and short names.
structure Sendable (head : Head) : Prop where
  pageSize : head.pageSize < 2 ^ 32
  pageCount : head.pageCount < 2 ^ 53
  version : head.version < 2 ^ 64
  names : (text head.subject).length + (text head.dbId).length ≤ 1024

-- The heads that arrive unchanged.
structure Plain (head : Head) : Prop where
  version : Exact head.version
  subject : (text head.subject).take 3 ≠ BOM
  dbId : (text head.dbId).take 3 ≠ BOM

theorem received_eq_iff (head : Head) : received head = head ↔ Plain head := by
  constructor
  · intro h
    exact {
      version := (toNumber_eq_iff _).mp (congrArg Head.version h)
      subject := (decodeText_text_iff _).mp (congrArg Head.subject h)
      dbId := (decodeText_text_iff _).mp (congrArg Head.dbId h) }
  · intro h
    rw [received, (toNumber_eq_iff _).mpr h.version, (decodeText_text_iff _).mpr h.subject,
      (decodeText_text_iff _).mpr h.dbId]

theorem length_headBytes (head : Head) :
    (headBytes head).length = 24 + (text head.subject).length + (text head.dbId).length := by
  simp [headBytes]
  omega

-- The heads whose numbers and lengths fit their fields.
structure Framed (head : Head) : Prop where
  pageSize : head.pageSize < 2 ^ 32
  pageCount : head.pageCount < 2 ^ 53
  version : head.version < 2 ^ 64
  subject : (text head.subject).length < 2 ^ 16
  dbId : (text head.dbId).length < 2 ^ 16

theorem Sendable.framed {head : Head} (h : Sendable head) : Framed head := by
  have hnames := h.names
  exact ⟨h.pageSize, h.pageCount, h.version, by omega, by omega⟩

-- The fields of a head at their offsets.
structure Laid (bytes : Bytes) (head : Head) : Prop where
  pageSize : getUint bytes 0 4 = some head.pageSize
  pageCount : getUint bytes 4 8 = some head.pageCount
  version : getUint bytes 12 8 = some head.version
  subjectLen : getUint bytes 20 2 = some (text head.subject).length
  dbIdLen : getUint bytes 22 2 = some (text head.dbId).length
  subject : slice bytes 24 (text head.subject).length = text head.subject
  dbId : slice bytes (24 + (text head.subject).length) (text head.dbId).length = text head.dbId

theorem laid_headBytes {head : Head} (h : Framed head) : Laid (headBytes head) head where
  pageSize := by
    simp only [headBytes, List.append_assoc]
    exact getUint_first h.pageSize
  pageCount := by
    simp only [headBytes, List.append_assoc]
    exact getUint_append (by simp) (h.pageCount.trans (by decide))
  version := by
    simp only [headBytes, List.append_assoc]
    rw [← List.append_assoc]
    exact getUint_append (by simp) h.version
  subjectLen := by
    simp only [headBytes, List.append_assoc]
    rw [← List.append_assoc, ← List.append_assoc]
    exact getUint_append (by simp) h.subject
  dbIdLen := by
    rw [headBytes, List.append_assoc _ (text head.subject), List.append_assoc _ (leBytes 2 _)]
    exact getUint_append (by simp) h.dbId
  subject := by
    rw [headBytes, List.append_assoc _ (text head.subject)]
    exact slice_append (by simp) rfl
  dbId := by
    rw [headBytes, ← List.append_nil (_ ++ text head.dbId), List.append_assoc _ (text head.dbId)]
    exact slice_append (by simp; omega) rfl

theorem headFrom_headBytes {head : Head} (h : Framed head) :
    headFrom (headBytes head) = some (received head) := by
  have hlaid := laid_headBytes h
  rw [headFrom, hlaid.subjectLen, hlaid.dbIdLen, hlaid.pageSize, hlaid.pageCount, hlaid.version]
  simp only [Option.bind_eq_bind, Option.bind_some]
  rw [hlaid.subject, hlaid.dbId, toNumber_of_lt h.pageCount]
  rfl

theorem copyPiece_eq (head : Head) (last : Bool) (blocks : List (Nat × Bytes)) :
    copyPiece head last blocks =
      leBytes 4 last.toNat ++ (leBytes 4 (headBytes head).length ++ (headBytes head ++
        (leBytes 4 blocks.length ++ blocks.flatMap entryBytes))) := by
  simp only [copyPiece, List.append_assoc]
  rw [patch_first (by simp)]
  simp only [← List.append_assoc]
  rw [List.append_assoc _ (leBytes 4 0), patch_append _ _ (by simp) (by simp), ← List.append_assoc]

theorem copyWrite_piece {head : Head} (hhead : Sendable head) (last : Bool) {taken : List (Nat × Bytes)}
    (h : Piece (12 + (headBytes head).length) taken) (inlet : Inlet) :
    copyWrite inlet (copyPiece head last taken) =
      some (if last then
        { inlet with
          pending := []
          writes := inlet.writes ++ [(received head, inlet.pending ++ taken)] }
      else { inlet with pending := inlet.pending ++ taken }) := by
  have hnames := hhead.names
  have hlastAt : getUint (copyPiece head last taken) 0 4 = some last.toNat := by
    rw [copyPiece_eq]
    exact getUint_first (by cases last <;> decide)
  have hlengthAt : getUint (copyPiece head last taken) 4 4 = some (headBytes head).length := by
    rw [copyPiece_eq]
    exact getUint_append (by simp) (by rw [length_headBytes]; omega)
  have hheadAt : slice (copyPiece head last taken) 8 (headBytes head).length = headBytes head := by
    rw [copyPiece_eq, ← List.append_assoc]
    exact slice_append (by simp) rfl
  have hcountAt : getUint (copyPiece head last taken) (8 + (headBytes head).length) 4 =
      some taken.length := by
    rw [copyPiece_eq, ← List.append_assoc, ← List.append_assoc]
    exact getUint_append (by simp; omega) h.count
  have hblocks : collect (copyPiece head last taken) taken.length (12 + (headBytes head).length)
      inlet.pending = some (inlet.pending ++ taken) := by
    rw [copyPiece_eq, ← List.append_assoc, ← List.append_assoc, ← List.append_assoc]
    exact collect_entries _ (by simp; omega) h.index h.size inlet.pending
  rw [copyWrite, hlastAt, hlengthAt]
  simp only [Option.bind_eq_bind, Option.bind_some]
  rw [hheadAt, headFrom_headBytes hhead.framed, Option.bind_some, hcountAt, Option.bind_some, hblocks]
  cases last <;> rfl

-- A transfer of pieces that fit: the last one, and no other, ends it.
structure Sent (ends : Bytes → Bool) (sent : List Bytes) : Prop where
  fits : ∀ piece ∈ sent, piece.length ≤ CAPACITY
  last : ∃ before, sent.map ends = List.replicate before false ++ [true]

theorem Sent.single {ends : Bytes → Bool} {piece : Bytes} (hfits : piece.length ≤ CAPACITY)
    (hends : ends piece = true) : Sent ends [piece] where
  fits := by simpa using hfits
  last := ⟨0, by simp [hends]⟩

theorem Sent.cons {ends : Bytes → Bool} {piece : Bytes} {rest : List Bytes} (h : Sent ends rest)
    (hfits : piece.length ≤ CAPACITY) (hends : ends piece = false) : Sent ends (piece :: rest) where
  fits := by
    intro other hother
    cases hother with
    | head => exact hfits
    | tail _ hrest => exact h.fits other hrest
  last := by
    obtain ⟨before, hbefore⟩ := h.last
    exact ⟨before + 1, by rw [List.map_cons, hends, hbefore]; rfl⟩

theorem endsCommit_piece (epoch pageCount : Nat) (first last : Bool) (taken : List (Nat × Bytes)) :
    endsCommit (commitPiece epoch pageCount first last taken) = last := by
  rw [endsCommit, commitPiece_eq, getUint_first (flags_lt first last)]
  cases first <;> cases last <;> decide

theorem endsWrite_piece (head : Head) (last : Bool) (taken : List (Nat × Bytes)) :
    endsWrite (copyPiece head last taken) = last := by
  rw [endsWrite, copyPiece_eq, getUint_first (by cases last <;> decide)]
  cases last <;> decide

theorem length_commitPiece (epoch pageCount : Nat) (first last : Bool) (taken : List (Nat × Bytes)) :
    (commitPiece epoch pageCount first last taken).length = 24 + (taken.flatMap entryBytes).length := by
  rw [commitPiece_eq]
  simp only [List.length_append, length_leBytes]
  omega

theorem length_copyPiece (head : Head) (last : Bool) (taken : List (Nat × Bytes)) :
    (copyPiece head last taken).length =
      12 + (headBytes head).length + (taken.flatMap entryBytes).length := by
  rw [copyPiece_eq]
  simp only [List.length_append, length_leBytes]
  omega

theorem commitPieces_received {epoch pageCount : Nat} {blocks : List (Nat × Bytes)}
    (hepoch : epoch < 2 ^ 53) (hpageCount : pageCount < 2 ^ 53)
    (hindex : ∀ entry ∈ blocks, entry.1 < 2 ^ 53) (hsize : ∀ entry ∈ blocks, entry.2.length ≤ 65536) :
    ∃ sent, commitPieces epoch pageCount blocks = some sent ∧ Sent endsCommit sent ∧
      ∀ inlet, sent.foldlM localCommit inlet = some { inlet with
        localPending := []
        commits := inlet.commits ++ [.Commit epoch pageCount blocks] } := by
  -- A later piece continues with the blocks that the worker has collected.
  refine pieces_induction (fun first blocks sent => Sent endsCommit sent ∧
    ∀ inlet, sent.foldlM localCommit inlet = some { inlet with
      localPending := []
      commits := inlet.commits ++
        [.Commit epoch pageCount ((if first then [] else inlet.localPending) ++ blocks)] })
    (by decide) ?_ ?_ (blocks.length + 1) true (Nat.lt_succ_self _) hindex hsize
  · intro first taken hpiece
    refine ⟨.single (by rw [length_commitPiece]; exact hpiece.fits) (endsCommit_piece ..), ?_⟩
    intro inlet
    rw [List.foldlM_cons, localCommit_piece hepoch hpageCount first true hpiece inlet]
    rfl
  · intro first taken left rest hpiece hrest
    refine ⟨hrest.1.cons (by rw [length_commitPiece]; exact hpiece.fits) (endsCommit_piece ..), ?_⟩
    intro inlet
    rw [List.foldlM_cons, localCommit_piece hepoch hpageCount first false hpiece inlet]
    simp only [Option.bind_eq_bind, Option.bind_some]
    rw [if_neg (by simp), hrest.2, ← List.append_assoc]
    rfl

theorem copyPieces_received {head : Head} {blocks : List (Nat × Bytes)} (hhead : Sendable head)
    (hindex : ∀ entry ∈ blocks, entry.1 < 2 ^ 53) (hsize : ∀ entry ∈ blocks, entry.2.length ≤ 65536) :
    ∃ sent, copyPieces head blocks = some sent ∧ Sent endsWrite sent ∧
      ∀ inlet, sent.foldlM copyWrite inlet = some { inlet with
        pending := []
        writes := inlet.writes ++ [(received head, inlet.pending ++ blocks)] } := by
  have hroom : 12 + (headBytes head).length + 12 + 65536 ≤ CAPACITY := by
    have hnames := hhead.names
    have hcapacity : 66608 ≤ CAPACITY := by decide
    rw [length_headBytes]
    omega
  refine pieces_induction (fun _ blocks sent => Sent endsWrite sent ∧
    ∀ inlet, sent.foldlM copyWrite inlet = some { inlet with
      pending := []
      writes := inlet.writes ++ [(received head, inlet.pending ++ blocks)] })
    hroom ?_ ?_ (blocks.length + 1) true (Nat.lt_succ_self _) hindex hsize
  · intro first taken hpiece
    refine ⟨.single (by rw [length_copyPiece]; exact hpiece.fits) (endsWrite_piece ..), ?_⟩
    intro inlet
    rw [List.foldlM_cons, copyWrite_piece hhead true hpiece inlet]
    rfl
  · intro first taken left rest hpiece hrest
    refine ⟨hrest.1.cons (by rw [length_copyPiece]; exact hpiece.fits) (endsWrite_piece ..), ?_⟩
    intro inlet
    rw [List.foldlM_cons, copyWrite_piece hhead false hpiece inlet]
    simp only [Option.bind_eq_bind, Option.bind_some]
    rw [if_neg (by simp), hrest.2, ← List.append_assoc]

-- Both transfers end, fit the bridge and arrive as one transaction. A commit arrives as it was sent,
-- whatever an interrupted transfer left behind, and a write of the copy exactly if its head is plain.
theorem transfer_is_lossless (epoch pageCount : Nat) (head : Head) (blocks : List (Nat × Bytes))
    (hepoch : epoch < 2 ^ 53) (hpageCount : pageCount < 2 ^ 53) (hhead : Sendable head)
    (hindex : ∀ entry ∈ blocks, entry.1 < 2 ^ 53) (hsize : ∀ entry ∈ blocks, entry.2.length ≤ 65536) :
    (∃ sent, commitPieces epoch pageCount blocks = some sent ∧ Sent endsCommit sent ∧
      ∀ inlet, sent.foldlM localCommit inlet = some { inlet with
        localPending := []
        commits := inlet.commits ++ [.Commit epoch pageCount blocks] }) ∧
    ∃ sent, copyPieces head blocks = some sent ∧ Sent endsWrite sent ∧
      ∀ inlet, inlet.pending = [] →
        (sent.foldlM copyWrite inlet = some { inlet with writes := inlet.writes ++ [(head, blocks)] } ↔
          Plain head) := by
  obtain ⟨sent, hsent, hfits, hreceived⟩ := copyPieces_received hhead hindex hsize
  refine ⟨commitPieces_received hepoch hpageCount hindex hsize, sent, hsent, hfits, ?_⟩
  intro inlet hpending
  rw [hreceived inlet, ← received_eq_iff, hpending, List.nil_append]
  constructor
  · intro h
    have hwrites := congrArg Inlet.writes (Option.some.inj h)
    simpa using hwrites
  · intro h
    rw [h, ← hpending]

-- Two blocks and a plain head.
theorem transfer_is_lossless_two :
    let head : Head := { subject := "user", dbId := "notes", pageSize := 4, pageCount := 2, version := 7 }
    let blocks : List (Nat × Bytes) := [(1, [1, 2, 3, 4]), (0, [5, 6, 7, 8])]
    let leftover : Inlet := { localPending := [(9, [9])], pending := [], commits := [], writes := [] }
    (∃ sent, commitPieces 3 2 blocks = some sent ∧ sent.foldlM localCommit leftover =
      some { leftover with localPending := [], commits := [.Commit 3 2 blocks] }) ∧
    ∃ sent, copyPieces head blocks = some sent ∧ sent.foldlM copyWrite leftover =
      some { leftover with writes := [(head, blocks)] } := by
  intro head blocks leftover
  have hplain : Plain head := ⟨⟨7, 0, by decide, by decide⟩, by decide, by decide⟩
  obtain ⟨⟨commit, hcommit, -, hcommitted⟩, write, hwrite, -, hwritten⟩ :=
    transfer_is_lossless 3 2 head blocks (by decide) (by decide)
      ⟨by decide, by decide, by decide, by decide⟩ (by decide) (by decide)
  exact ⟨⟨commit, hcommit, hcommitted leftover⟩, write, hwrite, (hwritten leftover rfl).mpr hplain⟩

-- A database id that starts with a byte order mark loses it, and a version that is no double
-- becomes another one.
theorem marked_head_is_changed :
    let head : Head := {
      subject := "user", dbId := "\ufeffnotes", pageSize := 4, pageCount := 2, version := 2 ^ 53 + 1 }
    let arrived : Head := { head with dbId := "notes", version := 2 ^ 53 }
    let empty : Inlet := { localPending := [], pending := [], commits := [], writes := [] }
    (text head.subject).length + (text head.dbId).length ≤ 1024 ∧ arrived ≠ head ∧
      (copyPieces head []).bind (·.foldlM copyWrite empty) =
        some { empty with writes := [(arrived, [])] } := by
  decide +kernel

end Transfer

end RemoteVfs
