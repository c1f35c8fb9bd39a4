import RemoteVfs.FileStore.Format

namespace RemoteVfs.FileStore

open Base

-- `bytes[start..start + length]`. `none` stands for the panic of an index out of bounds.
def sliced (bytes : Bytes) (start length : Nat) : Option Bytes :=
  if start + length ≤ bytes.length then some (slice bytes start length) else none

-- `decode` with the panics of its indexing. A header that is not trusted is `some none`.
def decodeChecked (bytes : Bytes) : Option (Option (Head × UInt8)) := do
  if (← sliced bytes 0 8) ≠ MAGIC then
    return none
  let state ← bytes[8]?
  let pageSize := ofLeBytes (← sliced bytes 12 4)
  let pageCount := ofLeBytes (← sliced bytes 16 8)
  if pageSize = 0 ∨ MAX_PAGE_SIZE < pageSize ∨ MAX_PAGE_COUNT < pageCount then
    return none
  let version := ofLeBytes (← sliced bytes 24 8)
  let subjectLen := ofLeBytes (← sliced bytes 32 2)
  let dbIdLen := ofLeBytes (← sliced bytes 34 2)
  match name bytes 36 subjectLen with
  | none => return none
  | some subject =>
    match name bytes (36 + subjectLen) dbIdLen with
    | none => return none
    | some dbId => return some (⟨subject, dbId, pageSize, pageCount, version⟩, state)

theorem sliced_of_le {bytes : Bytes} {start length : Nat} (h : start + length ≤ bytes.length) :
    sliced bytes start length = some (slice bytes start length) := if_pos h

-- A header has all the bytes that are looked at.
theorem decodeChecked_eq {bytes : Bytes} (h : bytes.length = HEADER_BYTES) :
    decodeChecked bytes = some (decode bytes) := by
  have hslice : ∀ {start length : Nat}, start + length ≤ 4096 →
      sliced bytes start length = some (slice bytes start length) := by
    intro start length hle
    exact sliced_of_le (by rw [h]; exact hle)
  have hstate : bytes[8]? = some (bytes.getD 8 0) := by
    rw [List.getD_eq_getElem?_getD, List.getElem?_eq_getElem (by rw [h]; decide)]
    rfl
  unfold decodeChecked decode
  rw [hslice (by decide), hstate, hslice (by decide), hslice (by decide), hslice (by decide),
    hslice (by decide), hslice (by decide)]
  simp only [Option.bind_eq_bind, Option.bind_some]
  split_ifs
  · rfl
  · rfl
  · cases name bytes 36 (ofLeBytes (slice bytes 32 2)) with
    | none => rfl
    | some subject =>
        dsimp only
        cases name bytes (36 + ofLeBytes (slice bytes 32 2)) (ofLeBytes (slice bytes 34 2)) with
        | none => rfl
        | some dbId => rfl

-- The places that are computed from a head: the bitmap, its length, its end and the blocks.
structure Placed (head : Head) : Prop where
  bits : bitsAt head < 2 ^ 64
  length : divCeil head.pageCount 8 < 2 ^ 64
  last : bitsAt head + divCeil head.pageCount 8 < 2 ^ 64
  blocks : ∀ index < head.pageCount, HEADER_BYTES + index * head.pageSize < 2 ^ 64

theorem Placed.of_fits {head : Head} (h : head.Fits) : Placed head := by
  have hsize : head.pageSize ≤ 65536 := h.pageSize.2
  have hcount : head.pageCount ≤ 4294967294 := h.pageCount
  have hbits : head.pageCount * head.pageSize ≤ 4294967294 * 65536 := Nat.mul_le_mul hcount hsize
  have hlength : divCeil head.pageCount 8 ≤ head.pageCount + 7 := Nat.div_le_self _ _
  refine ⟨?_, by omega, ?_, fun index hindex => ?_⟩
  · unfold bitsAt HEADER_BYTES
    omega
  · unfold bitsAt HEADER_BYTES
    omega
  · have hblock : index * head.pageSize ≤ 4294967294 * 65536 :=
      Nat.mul_le_mul (hindex.le.trans hcount) hsize
    unfold HEADER_BYTES
    omega

theorem decodeChecked_encode {head : Head} (h : head.Fits) (state : UInt8) :
    (encode head state).bind decodeChecked = some (some (head, state)) := by
  rw [encode_named h.names, Option.bind_some, decodeChecked_eq (encode_eq (encode_named h.names state)).2,
    decode_layout h]

-- No header makes the decoder panic.
theorem decodeChecked_total {bytes : Bytes} (h : bytes.length = HEADER_BYTES) :
    ∃ result, decodeChecked bytes = some result ∧
      ∀ decoded found, result = some (decoded, found) → Placed decoded :=
  ⟨decode bytes, decodeChecked_eq h, fun _ _ hdecoded => .of_fits (decode_some h hdecoded).2⟩

-- Every head of the file format is read back with its state. No header makes the decoder panic, and
-- a head that it returns cannot place anything out of the range of the machine integers.
theorem header_decodes (head : Head) (state : UInt8) (bytes : Bytes)
    (hsize : 1 ≤ head.pageSize ∧ head.pageSize ≤ 65536) (hcount : head.pageCount ≤ MAX_PAGE_COUNT)
    (hversion : head.version < 2 ^ 64)
    (hnames : (text head.subject).length + (text head.dbId).length ≤ 4060)
    (hbytes : bytes.length = 4096) :
    (encode head state).bind decodeChecked = some (some (head, state)) ∧
      ∃ result, decodeChecked bytes = some result ∧
        ∀ decoded found, result = some (decoded, found) → Placed decoded := by
  have hfits : head.Fits := {
    names := by
      unfold Head.Named HEADER_BYTES
      omega
    pageSize := hsize
    pageCount := hcount
    version := hversion }
  exact ⟨decodeChecked_encode hfits state, decodeChecked_total hbytes⟩

-- A small head, and a header of zeros.
theorem header_decodes_small :
    let head : Head := { subject := "user", dbId := "notes", pageSize := 512, pageCount := 3, version := 7 }
    (encode head WRITING).bind decodeChecked = some (some (head, WRITING)) ∧
      ∃ result, decodeChecked (zeros 4096) = some result :=
  let head : Head := { subject := "user", dbId := "notes", pageSize := 512, pageCount := 3, version := 7 }
  have h := header_decodes head WRITING (zeros 4096) (by decide) (by decide) (by decide) (by decide)
    List.length_replicate
  ⟨h.1, h.2.imp fun _ hresult => hresult.1⟩

end RemoteVfs.FileStore
