import Mathlib.Algebra.Order.Ring.Nat
import Mathlib.Tactic.Ring

namespace RemoteVfs.Base

-- Seven bits of the number in each byte, the lowest first.
def varint (n : Nat) : List UInt8 :=
  if n < 128 then [UInt8.ofNat n] else UInt8.ofNat (n % 128 + 128) :: varint (n / 128)

theorem length_varint_le {n : Nat} (width : Nat) (h : n < 128 ^ (width + 1)) :
    (varint n).length ≤ width + 1 := by
  induction width generalizing n with
  | zero =>
      rw [varint, if_pos (by simpa using h)]
      rfl
  | succ width ih =>
      rw [varint]
      by_cases hn : n < 128
      · rw [if_pos hn, List.length_singleton]
        omega
      · have hquot : n / 128 < 128 ^ (width + 1) := by
          rw [pow_succ] at h
          exact Nat.div_lt_of_lt_mul (by rw [Nat.mul_comm]; exact h)
        rw [if_neg hn, List.length_cons]
        have := ih hquot
        omega

namespace Field

-- A field with a number. The default value is left out.
def uint (number value : Nat) : List UInt8 :=
  if value = 0 then [] else varint (8 * number) ++ varint value

def bool (number : Nat) (value : Bool) : List UInt8 := uint number value.toNat

-- A field with a content of its own, preceded by its length.
def message (number : Nat) (content : List UInt8) : List UInt8 :=
  varint (8 * number + 2) ++ varint content.length ++ content

def bytes (number : Nat) (value : List UInt8) : List UInt8 :=
  if value = [] then [] else message number value

variable {number value width : Nat}

-- The fields of these messages have numbers below 16, whose key is one byte.
theorem length_key (hnumber : number < 16) {wireType : Nat} (htype : wireType < 8) :
    (varint (8 * number + wireType)).length = 1 := by
  rw [varint, if_pos (by omega)]
  rfl

theorem length_uint_le (hnumber : number < 16) (hvalue : value < 128 ^ (width + 1)) :
    (uint number value).length ≤ width + 2 := by
  unfold uint
  by_cases hzero : value = 0
  · rw [if_pos hzero]
    exact Nat.zero_le _
  · have hkey : (varint (8 * number)).length = 1 := length_key hnumber (by omega : 0 < 8)
    have hlength := length_varint_le width hvalue
    rw [if_neg hzero, List.length_append, hkey]
    omega

theorem length_message_le (hnumber : number < 16) {content : List UInt8}
    (hcontent : content.length < 128 ^ (width + 1)) :
    (message number content).length ≤ width + 2 + content.length := by
  have hkey : (varint (8 * number + 2)).length = 1 := length_key hnumber (by omega)
  have hlength := length_varint_le width hcontent
  rw [message, List.length_append, List.length_append, hkey]
  omega

theorem length_bytes_le (hnumber : number < 16) {content : List UInt8}
    (hcontent : content.length < 128 ^ (width + 1)) :
    (bytes number content).length ≤ width + 2 + content.length := by
  unfold bytes
  by_cases hempty : content = []
  · rw [if_pos hempty]
    exact Nat.zero_le _
  · rw [if_neg hempty]
    exact length_message_le hnumber hcontent

end Field

-- Reads a number of at most `limit` bytes.
def readVarint : Nat → List UInt8 → Option (Nat × List UInt8)
  | 0, _ => none
  | _ + 1, [] => none
  | limit + 1, byte :: rest =>
    if byte.toNat < 128 then some (byte.toNat, rest)
    else (readVarint limit rest).map fun (value, rest) => (byte.toNat % 128 + 128 * value, rest)

-- What a field holds, by its wire type: a number or a chunk of bytes. Groups are not read.
inductive Content where
  | Number (value : Nat)
  | Chunk (bytes : List UInt8)
  deriving DecidableEq, Repr

def readChunk (length : Nat) (bytes : List UInt8) : Option (List UInt8 × List UInt8) :=
  if length ≤ bytes.length then some (bytes.take length, bytes.drop length) else none

def readContent (wireType : Nat) (bytes : List UInt8) : Option (Content × List UInt8) :=
  match wireType with
  | 0 => do
    let (value, rest) ← readVarint 10 bytes
    if value < 2 ^ 64 then return (.Number value, rest) else none
  | 1 => do
    let (chunk, rest) ← readChunk 8 bytes
    return (.Chunk chunk, rest)
  | 2 => do
    let (length, rest) ← readVarint 10 bytes
    let (chunk, rest) ← readChunk length rest
    return (.Chunk chunk, rest)
  | 5 => do
    let (chunk, rest) ← readChunk 4 bytes
    return (.Chunk chunk, rest)
  | _ => none

-- Splits a message into its fields. Each field takes at least two bytes.
def readFields : Nat → List UInt8 → Option (List (Nat × Content))
  | _, [] => some []
  | 0, _ => none
  | limit + 1, bytes => do
    let (key, rest) ← readVarint 10 bytes
    let (content, rest) ← readContent (key % 8) rest
    let fields ← readFields limit rest
    return (key / 8, content) :: fields

def fieldsOf (bytes : List UInt8) : Option (List (Nat × Content)) := readFields bytes.length bytes

-- The last value of a number field, 0 if there is none.
def Field.uintOf (number : Nat) (fields : List (Nat × Content)) : Option Nat :=
  fields.foldlM (fun value field =>
    if field.1 = number then
      match field.2 with
      | .Number value => some value
      | .Chunk _ => none
    else some value) 0

theorem readVarint_varint {limit n : Nat} (h : n < 128 ^ limit) (hpos : 0 < limit) (rest : List UInt8) :
    readVarint limit (varint n ++ rest) = some (n, rest) := by
  induction limit generalizing n with
  | zero => exact absurd hpos (Nat.lt_irrefl 0)
  | succ limit ih =>
      rw [varint]
      by_cases hn : n < 128
      · have hbyte : (UInt8.ofNat n).toNat = n := by
          rw [UInt8.toNat_ofNat']
          omega
        rw [if_pos hn, List.singleton_append, readVarint, hbyte, if_pos hn]
      · have hbyte : (UInt8.ofNat (n % 128 + 128)).toNat = n % 128 + 128 := by
          rw [UInt8.toNat_ofNat']
          omega
        have hlimit : 0 < limit := by
          by_contra hzero
          rw [Nat.eq_zero_of_not_pos hzero] at h
          omega
        have hquot : n / 128 < 128 ^ limit := by
          rw [pow_succ] at h
          exact Nat.div_lt_of_lt_mul (by rw [Nat.mul_comm]; exact h)
        rw [if_neg hn, List.cons_append, readVarint, hbyte, if_neg (by omega), ih hquot hlimit]
        simp only [Option.map_some]
        congr 2
        omega

theorem varint_ne_nil (n : Nat) : varint n ≠ [] := by
  rw [varint]
  by_cases hn : n < 128
  · rw [if_pos hn]
    exact List.cons_ne_nil _ _
  · rw [if_neg hn]
    exact List.cons_ne_nil _ _

-- Ten bytes hold every number of 64 bits.
theorem readVarint_uint64 {n : Nat} (h : n < 2 ^ 64) (rest : List UInt8) :
    readVarint 10 (varint n ++ rest) = some (n, rest) :=
  readVarint_varint (by omega) (by omega) rest

section Reading

variable {number limit : Nat} {rest : List UInt8} {fields : List (Nat × Content)}

theorem readFields_number {value : Nat} (hnumber : 8 * number < 2 ^ 64) (hvalue : value < 2 ^ 64)
    (hrest : readFields limit rest = some fields) :
    readFields (limit + 1) (varint (8 * number) ++ varint value ++ rest) =
      some ((number, .Number value) :: fields) := by
  have hne : varint (8 * number) ++ (varint value ++ rest) ≠ [] := by
    simp [varint_ne_nil]
  rw [List.append_assoc, readFields, readVarint_uint64 hnumber]
  · have htype : 8 * number % 8 = 0 := by omega
    have hkey : 8 * number / 8 = number := by omega
    simp only [htype, hkey, readContent, readVarint_uint64 hvalue, hvalue, hrest, Option.bind_eq_bind,
      Option.bind_some, if_true, Option.pure_def]
  · exact hne

theorem readFields_chunk {content : List UInt8} (hnumber : 8 * number + 2 < 2 ^ 64)
    (hcontent : content.length < 2 ^ 64) (hrest : readFields limit rest = some fields) :
    readFields (limit + 1) (Field.message number content ++ rest) =
      some ((number, .Chunk content) :: fields) := by
  have hchunk : readChunk content.length (content ++ rest) = some (content, rest) := by
    simp [readChunk]
  have hne : varint (8 * number + 2) ++ (varint content.length ++ (content ++ rest)) ≠ [] := by
    simp [varint_ne_nil]
  rw [Field.message, List.append_assoc, List.append_assoc, readFields, readVarint_uint64 hnumber]
  · have htype : (8 * number + 2) % 8 = 2 := by omega
    have hkey : (8 * number + 2) / 8 = number := by omega
    simp only [htype, hkey, readContent, readVarint_uint64 hcontent, hchunk, hrest, Option.bind_eq_bind,
      Option.bind_some, Option.pure_def]
  · exact hne

theorem readFields_succ {bytes : List UInt8} (h : readFields limit bytes = some fields) :
    readFields (limit + 1) bytes = some fields := by
  induction limit generalizing bytes fields with
  | zero =>
      cases bytes with
      | nil => exact h
      | cons byte rest => exact absurd h (by simp [readFields])
  | succ limit ih =>
      cases bytes with
      | nil => exact h
      | cons byte rest =>
          rw [readFields] at h ⊢
          · simp only [Option.bind_eq_bind, Option.bind_eq_some_iff, Option.pure_def] at h ⊢
            obtain ⟨key, hkey, content, hcontent, others, hothers, hall⟩ := h
            exact ⟨key, hkey, content, hcontent, others, ih hothers, hall⟩
          · exact List.cons_ne_nil _ _
          · exact List.cons_ne_nil _ _

theorem fieldsOf_eq {bytes : List UInt8} (h : readFields limit bytes = some fields)
    (hlimit : limit ≤ bytes.length) : fieldsOf bytes = some fields := by
  rw [fieldsOf]
  generalize bytes.length = most at hlimit ⊢
  induction hlimit with
  | refl => exact h
  | step _ ih => exact readFields_succ ih

end Reading

end RemoteVfs.Base
