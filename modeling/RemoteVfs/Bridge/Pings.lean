import RemoteVfs.Bridge
import RemoteVfs.Wire.Encoding

namespace RemoteVfs

namespace Pb

open Base

def Ping.decode (bytes : Bytes) : Option Ping := do
  let fields ← fieldsOf bytes
  return ⟨← Field.uintOf 1 fields⟩

-- The field of the oneof that stands last in the frame. Its messages that follow one
-- another are merged.
def ClientFrame.bodyOf (fields : List (Nat × Content)) : Option (Nat × Bytes) :=
  fields.foldl (fun body field =>
    if 10 ≤ field.1 ∧ field.1 ≤ 22 ∧ field.1 ≠ 14 then
      match body, field.2 with
      | some (number, content), .Chunk chunk =>
        if number = field.1 then some (number, content ++ chunk) else some (field.1, chunk)
      | none, .Chunk chunk => some (field.1, chunk)
      | _, .Number _ => body
    else body) none

-- What the server decodes from the bytes of a frame with a ping.
def ClientFrame.decodePing (bytes : Bytes) : Option ClientFrame := do
  let fields ← fieldsOf bytes
  let requestId ← Field.uintOf 1 fields
  match ClientFrame.bodyOf fields with
  | some (15, content) => return ⟨requestId, .Ping (← Ping.decode content)⟩
  | _ => none

end Pb

-- The frames that the connection worker reads and writes by itself.
namespace Bridge

open Base (readFields fieldsOf)

def PING_ID : Nat := 1 <<< 62

def varint (value : Nat) : Bytes :=
  if 0x80 ≤ value then UInt8.ofNat ((value &&& 0x7f) ||| 0x80) :: varint (value >>> 7)
  else [UInt8.ofNat value]
termination_by value
decreasing_by
  rw [Nat.shiftRight_eq_div_pow]
  omega

def ping (now : Nat) : Bytes := 0x08 :: varint now

-- The length is written into one byte.
def pingFrame (now : Nat) : Bytes :=
  0x08 :: varint PING_ID ++ [0x7a, UInt8.ofNat (ping now).length] ++ ping now

-- At most `left` bytes are read.
def requestId.loop : Nat → Nat → Nat → Bytes → Nat
  | 0, _, _, _ => 0
  | _ + 1, _, _, [] => 0
  | left + 1, value, shift, byte :: rest =>
    let value := value ||| ((byte &&& 0x7f).toNat <<< shift)
    if byte &&& 0x80 = 0 then value else loop left value (shift + 7) rest

def requestId : Bytes → Nat
  | [] => 0
  | first :: rest => if first ≠ 0x08 then 0 else requestId.loop 10 0 0 rest

-- A frame from the server, and what is posted as a push.
def onmessage (frame : Bytes) (bridge : Bridge) : Bridge × Option Bytes :=
  let id := requestId frame
  if id = PING_ID then (bridge, none)
  else
    let bridge := { bridge with queued := bridge.queued ++ [frame] }
    (bridge.deliver, if id = 0 then some frame else none)

theorem onmessage_step (frame : Bytes) (bridge : Bridge) :
    (bridge.onmessage frame).1 = (bridge.step (.Frame (requestId frame = PING_ID) frame)).1 := by
  by_cases hid : requestId frame = PING_ID
  · simp [onmessage, step, hid]
  · simp [onmessage, step, hid]

theorem varint_eq (value : Nat) : varint value = Base.varint value := by
  induction value using Nat.strongRecOn with
  | ind value ih =>
      rw [varint, Base.varint]
      by_cases hvalue : value < 128
      · rw [if_neg (by omega), if_pos hvalue]
      · have hlow : value &&& 0x7f = value % 128 := Nat.and_two_pow_sub_one_eq_mod value 7
        have hmark : value % 128 ||| 0x80 = value % 128 + 128 := by
          have := Nat.two_pow_add_eq_or_of_lt (show value % 128 < 2 ^ 7 by omega) 1
          rw [Nat.or_comm, Nat.add_comm]
          exact this.symm
        have hhigh : value >>> 7 = value / 128 := Nat.shiftRight_eq_div_pow value 7
        rw [if_pos (by omega), if_neg hvalue, hlow, hmark, hhigh, ih (value / 128) (by omega)]

-- The key of field 1 of a message, if it is a number.
private theorem varint_key : Base.varint (8 * 1) = [0x08] := by
  rw [Base.varint, if_pos (by omega)]
  rfl

private theorem low_bits (byte : UInt8) : (byte &&& 0x7f).toNat = byte.toNat % 128 := by
  rw [UInt8.toNat_and]
  exact Nat.and_two_pow_sub_one_eq_mod byte.toNat 7

private theorem mark_eq_zero (byte : UInt8) : byte &&& 0x80 = 0 ↔ byte.toNat < 128 := by
  have hall : ∀ n < 256, UInt8.ofNat n &&& 0x80 = 0 ↔ n < 128 := by decide +kernel
  have := hall byte.toNat byte.toNat_lt
  rwa [UInt8.ofNat_toNat] at this

-- `value` holds the `shift` bits that are read already.
theorem requestId_loop_varint {left value shift n : Nat} (hvalue : value < 2 ^ shift)
    (hn : n < 128 ^ left) (hleft : 0 < left) (rest : Bytes) :
    requestId.loop left value shift (Base.varint n ++ rest) = value + n * 2 ^ shift := by
  induction left generalizing value shift n with
  | zero => exact absurd hleft (Nat.lt_irrefl 0)
  | succ left ih =>
      have hor (bits : Nat) : value ||| (bits <<< shift) = value + bits * 2 ^ shift := by
        have := Nat.two_pow_add_eq_or_of_lt hvalue bits
        rw [Nat.shiftLeft_eq, Nat.or_comm, Nat.mul_comm bits, ← this, Nat.add_comm]
      rw [Base.varint]
      by_cases hsmall : n < 128
      · have hbyte : (UInt8.ofNat n).toNat = n := by
          rw [UInt8.toNat_ofNat']
          omega
        have hmark : UInt8.ofNat n &&& 0x80 = 0 := (mark_eq_zero _).mpr (by omega)
        rw [if_pos hsmall, List.singleton_append, requestId.loop, if_pos hmark, low_bits, hbyte, hor,
          Nat.mod_eq_of_lt hsmall]
      · have hbyte : (UInt8.ofNat (n % 128 + 128)).toNat = n % 128 + 128 := by
          rw [UInt8.toNat_ofNat']
          omega
        have hmark : ¬ UInt8.ofNat (n % 128 + 128) &&& 0x80 = 0 := by
          rw [mark_eq_zero, hbyte]
          omega
        have hmore : 0 < left := by
          by_contra hzero
          rw [Nat.eq_zero_of_not_pos hzero] at hn
          omega
        have hquot : n / 128 < 128 ^ left := by
          rw [pow_succ] at hn
          exact Nat.div_lt_of_lt_mul (by rw [Nat.mul_comm]; exact hn)
        have hbits : (n % 128 + 128) % 128 = n % 128 := by omega
        have hread : value + n % 128 * 2 ^ shift < 2 ^ (shift + 7) := by
          have : (n % 128 + 1) * 2 ^ shift ≤ 128 * 2 ^ shift := Nat.mul_le_mul_right _ (by omega)
          rw [Nat.add_mul] at this
          rw [pow_add]
          omega
        rw [if_neg hsmall, List.cons_append, requestId.loop, if_neg hmark, low_bits, hbyte, hor, hbits,
          ih hread hquot hmore]
        have hsplit : n * 2 ^ shift = (n % 128 + 128 * (n / 128)) * 2 ^ shift := by
          rw [Nat.mod_add_div]
        rw [hsplit, pow_add]
        ring

theorem requestId_of_first {first : UInt8} {rest : Bytes} (h : first ≠ 0x08) :
    requestId (first :: rest) = 0 := by
  rw [requestId, if_pos h]

-- The key of a body is never the key of the request id.
theorem requestId_body (body : Pb.ServerBody) :
    requestId (Base.Field.message body.field.1 body.field.2) = 0 := by
  cases body <;>
  · simp only [Base.Field.message, Pb.ServerBody.field]
    rw [Base.varint]
    exact requestId_of_first (by decide)

theorem requestId_encode {frame : Pb.ServerFrame} (h : frame.requestId < 2 ^ 64) :
    requestId frame.encode = frame.requestId := by
  unfold Pb.ServerFrame.encode Base.Field.uint
  by_cases hzero : frame.requestId = 0
  · rw [if_pos hzero, List.nil_append, hzero]
    cases frame.body with
    | none => rfl
    | some body => exact requestId_body body
  · rw [if_neg hzero, varint_key, List.append_assoc, List.singleton_append, requestId, if_neg (by decide),
      requestId_loop_varint (by omega) (by omega) (by omega)]
    omega

theorem length_ping_le {now : Nat} (h : now < 2 ^ 53) : (ping now).length ≤ 9 := by
  have := Base.length_varint_le 7 (show now < 128 ^ (7 + 1) by omega)
  rw [ping, List.length_cons, varint_eq]
  omega

-- The length of a ping fits into the one byte that the worker writes for it.
theorem pingFrame_eq {now : Nat} (h : now < 2 ^ 53) :
    pingFrame now = Base.varint (8 * 1) ++ Base.varint PING_ID ++ Base.Field.message 15 (ping now) := by
  have hlength := length_ping_le h
  have hkey : Base.varint (8 * 15 + 2) = [0x7a] := by
    rw [Base.varint, if_pos (by omega)]
    rfl
  have hcount : Base.varint (ping now).length = [UInt8.ofNat (ping now).length] := by
    rw [Base.varint, if_pos (by omega)]
  rw [pingFrame, Base.Field.message, hkey, hcount, varint_key, varint_eq]
  simp only [List.cons_append, List.nil_append, List.append_assoc]

theorem pingFrame_canonical {now : Nat} (hpos : 0 < now) (h : now < 2 ^ 53) :
    pingFrame now = Pb.ClientFrame.encode ⟨PING_ID, .Ping ⟨now⟩⟩ := by
  have hping : ping now = Pb.Ping.encode ⟨now⟩ := by
    rw [ping, Pb.Ping.encode, Base.Field.uint, if_neg (Nat.ne_of_gt hpos), varint_key, varint_eq]
    rfl
  have hid : Base.Field.uint 1 PING_ID = Base.varint (8 * 1) ++ Base.varint PING_ID := by
    rw [Base.Field.uint, if_neg (by decide)]
  rw [pingFrame_eq h, hping, ← hid]
  rfl

theorem fieldsOf_ping {now : Nat} (h : now < 2 ^ 53) : fieldsOf (ping now) = some [(1, .Number now)] := by
  have hping : ping now = Base.varint (8 * 1) ++ Base.varint now ++ [] := by
    rw [ping, varint_eq, varint_key, List.append_nil]
    rfl
  have hread : readFields (0 + 1) (ping now) = some [(1, .Number now)] := by
    rw [hping]
    exact Base.readFields_number (by omega) (by omega) rfl
  exact Base.fieldsOf_eq hread (by simp [ping])

theorem fieldsOf_pingFrame {now : Nat} (h : now < 2 ^ 53) :
    fieldsOf (pingFrame now) = some [(1, .Number PING_ID), (15, .Chunk (ping now))] := by
  have hlength := length_ping_le h
  have hbody : readFields (0 + 1) (Base.Field.message 15 (ping now) ++ []) =
      some [(15, .Chunk (ping now))] :=
    Base.readFields_chunk (by omega) (by omega) rfl
  rw [List.append_nil] at hbody
  have hread : readFields (0 + 1 + 1) (pingFrame now) =
      some [(1, .Number PING_ID), (15, .Chunk (ping now))] := by
    rw [pingFrame_eq h]
    exact Base.readFields_number (by omega) (by decide) hbody
  have htwo : 0 + 1 + 1 ≤ (pingFrame now).length := by
    simp only [pingFrame, List.length_cons, List.length_append]
    omega
  exact Base.fieldsOf_eq hread htwo

theorem decodePing_pingFrame {now : Nat} (h : now < 2 ^ 53) :
    Pb.ClientFrame.decodePing (pingFrame now) = some ⟨PING_ID, .Ping ⟨now⟩⟩ := by
  have hping : Pb.Ping.decode (ping now) = some ⟨now⟩ := by
    rw [Pb.Ping.decode, fieldsOf_ping h]
    rfl
  have hbody : Pb.ClientFrame.bodyOf [(1, .Number PING_ID), (15, .Chunk (ping now))] =
      some (15, ping now) := rfl
  have hid : Base.Field.uintOf 1 [(1, .Number PING_ID), (15, .Chunk (ping now))] = some PING_ID := rfl
  rw [Pb.ClientFrame.decodePing, fieldsOf_pingFrame h]
  simp only [Option.bind_eq_bind, Option.bind_some, hid, hbody, hping, Option.pure_def]

-- The worker reads the request id that the server encoded. It keeps the answers to its own
-- pings to itself and pushes the unprompted frames. Its pings are what the server expects.
theorem worker_agrees_with_the_encoding :
    (∀ (frame : Pb.ServerFrame) (bridge : Bridge), frame.requestId < 2 ^ 64 →
      requestId frame.encode = frame.requestId ∧
      (frame.requestId = PING_ID → bridge.onmessage frame.encode = (bridge, none)) ∧
      (frame.requestId ≠ PING_ID → (bridge.onmessage frame.encode).1 =
        Bridge.deliver { bridge with queued := bridge.queued ++ [frame.encode] }) ∧
      ((bridge.onmessage frame.encode).2 = if frame.requestId = 0 then some frame.encode else none)) ∧
    (∀ now, 0 < now → now < 2 ^ 53 → pingFrame now = Pb.ClientFrame.encode ⟨2 ^ 62, .Ping ⟨now⟩⟩) ∧
    (∀ now, now < 2 ^ 53 →
      Pb.ClientFrame.decodePing (pingFrame now) = some ⟨2 ^ 62, .Ping ⟨now⟩⟩) := by
  have hping : (2 : Nat) ^ 62 = PING_ID := by decide
  refine ⟨?_, ?_, ?_⟩
  · intro frame bridge hid
    have hread := requestId_encode hid
    have hzero : PING_ID ≠ 0 := by decide
    refine ⟨hread, ?_, ?_, ?_⟩
    · intro hown
      rw [onmessage, hread, if_pos hown]
    · intro hother
      rw [onmessage, hread, if_neg hother]
    · by_cases hown : frame.requestId = PING_ID
      · rw [onmessage, hread, if_pos hown, if_neg (by omega)]
      · rw [onmessage, hread, if_neg hown]
  · intro now hpos hnow
    rw [hping]
    exact pingFrame_canonical hpos hnow
  · intro now hnow
    rw [hping]
    exact decodePing_pingFrame hnow

theorem worker_agrees_with_the_encoding_pong :
    (start true).onmessage (Pb.ServerFrame.encode ⟨PING_ID, some (.Pong 300)⟩) = (start true, none) ∧
    Pb.ClientFrame.decodePing (pingFrame 300) = some ⟨2 ^ 62, .Ping ⟨300⟩⟩ :=
  ⟨(worker_agrees_with_the_encoding.1 ⟨PING_ID, some (.Pong 300)⟩ (start true) (by decide)).2.1 rfl,
    worker_agrees_with_the_encoding.2.2 300 (by decide)⟩

-- At time 0 the worker writes the field that the encoding leaves out.
theorem ping_at_zero_is_longer :
    pingFrame 0 ≠ Pb.ClientFrame.encode ⟨2 ^ 62, .Ping ⟨0⟩⟩ := by
  intro heq
  have hlength := congrArg List.length heq
  rw [pingFrame_eq (by omega)] at hlength
  revert hlength
  decide +kernel

end Bridge

end RemoteVfs
