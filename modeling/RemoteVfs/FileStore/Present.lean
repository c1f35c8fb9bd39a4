import RemoteVfs.FileStore
import Mathlib.Data.Nat.Bitwise
import Mathlib.Tactic.IntervalCases

namespace RemoteVfs.Present

open Base

variable {present : Present}

theorem toNat_mask (index : Nat) : (mask index).toNat = 2 ^ (index % 8) := by
  have hlt : index % 8 < 8 := Nat.mod_lt _ (by decide)
  unfold mask
  generalize index % 8 = k at hlt ⊢
  interval_cases k <;> rfl

theorem bit_eq (byte : UInt8) (index : Nat) :
    (byte &&& mask index != 0) = byte.toNat.testBit (index % 8) := by
  have hzero : byte &&& mask index = 0 ↔ byte.toNat &&& 2 ^ (index % 8) = 0 := by
    rw [← UInt8.toNat_inj, UInt8.toNat_and, toNat_mask]
    rfl
  rw [Nat.and_two_pow] at hzero
  cases hbit : byte.toNat.testBit (index % 8) with
  | false => simpa [hbit] using hzero
  | true => simpa [hbit] using hzero

theorem has_eq (present : Present) (index : Nat) :
    present.has index =
      ((present.bytes[index / 8]?).map fun byte => byte.toNat.testBit (index % 8)).getD false := by
  unfold has
  cases present.bytes[index / 8]? with
  | none => rfl
  | some byte => exact bit_eq byte index

@[simp] theorem length_set (present : Present) (index : Nat) :
    (present.set index).bytes.length = present.bytes.length := by
  simp [set]

@[simp] theorem length_clear (present : Present) (index : Nat) :
    (present.clear index).bytes.length = present.bytes.length := by
  simp [clear]

theorem has_set (present : Present) (index i : Nat) :
    (present.set index).has i =
      (present.has i || decide (i = index ∧ index / 8 < present.bytes.length)) := by
  rw [has_eq, has_eq, set, List.getElem?_modify]
  cases hget : present.bytes[i / 8]? with
  | none =>
      have hout : present.bytes.length ≤ i / 8 := List.getElem?_eq_none_iff.mp hget
      have hnot : ¬(i = index ∧ index / 8 < present.bytes.length) := by
        rintro ⟨rfl, hlt⟩
        omega
      simp [hnot]
  | some byte =>
      have hlt : i / 8 < present.bytes.length := (List.getElem?_eq_some_iff.mp hget).1
      by_cases hbyte : index / 8 = i / 8
      · have hsame : index % 8 = i % 8 ↔ i = index := by omega
        simp [hbyte, toNat_mask, Nat.testBit_or, Nat.testBit_two_pow, hlt, hsame]
      · have hne : i ≠ index := by omega
        simp [hbyte, hne]

theorem toNat_not_mask (byte : UInt8) (index i : Nat) (hi : i < 8) :
    (byte &&& ~~~mask index).toNat.testBit i = (byte.toNat.testBit i && decide (i ≠ index % 8)) := by
  have hmask : (~~~mask index).toNat = 255 - 2 ^ (index % 8) := by
    have hlt : index % 8 < 8 := Nat.mod_lt _ (by decide)
    unfold mask
    generalize index % 8 = k at hlt ⊢
    interval_cases k <;> rfl
  rw [UInt8.toNat_and, Nat.testBit_and, hmask]
  congr 1
  have hlt : index % 8 < 8 := Nat.mod_lt _ (by decide)
  generalize index % 8 = k at hlt ⊢
  interval_cases k <;> interval_cases i <;> rfl

theorem has_clear (present : Present) (index i : Nat) :
    (present.clear index).has i = (present.has i && decide (i ≠ index)) := by
  rw [has_eq, has_eq, clear, List.getElem?_modify]
  by_cases hbyte : index / 8 = i / 8
  · have hsame : i % 8 = index % 8 ↔ i = index := by omega
    cases hget : present.bytes[i / 8]? with
    | none => simp
    | some byte =>
        have hbit := toNat_not_mask byte index (i % 8) (Nat.mod_lt _ (by decide))
        simp only [hbyte, if_true, Option.map_eq_map, Option.map_some, Option.getD_some, hbit, ne_eq, hsame]
  · have hne : i ≠ index := by omega
    simp [hbyte, hne]

theorem length_foldl_clear (indexes : List Nat) (present : Present) :
    (indexes.foldl clear present).bytes.length = present.bytes.length := by
  induction indexes generalizing present with
  | nil => rfl
  | cons index rest ih => rw [List.foldl_cons, ih, length_clear]

theorem has_foldl_clear (indexes : List Nat) (present : Present) (i : Nat) :
    (indexes.foldl clear present).has i = (present.has i && decide (i ∉ indexes)) := by
  induction indexes generalizing present with
  | nil => simp
  | cons index rest ih =>
      rw [List.foldl_cons, ih, has_clear, Bool.and_assoc]
      simp [not_or]

theorem has_empty (pageCount i : Nat) : (empty pageCount).has i = false := by
  rw [has_eq, empty, List.getElem?_replicate]
  split_ifs <;> simp

theorem div_lt_divCeil {pageCount i : Nat} : i / 8 < divCeil pageCount 8 ↔ i < roundUp 8 pageCount := by
  unfold roundUp divCeil
  omega

theorem le_roundUp_eight (pageCount : Nat) : pageCount ≤ roundUp 8 pageCount :=
  FlatFile.le_roundUp (by decide) pageCount

@[simp] theorem length_resized (present : Present) (pageCount : Nat) :
    (present.resized pageCount).bytes.length = divCeil pageCount 8 := by
  unfold resized
  simp only [length_foldl_clear, List.length_append, List.length_replicate, List.length_take]
  omega

-- Exactly the bits of the blocks below the new page count stay.
theorem has_resized (present : Present) (pageCount i : Nat) :
    (present.resized pageCount).has i = (decide (i < pageCount) && present.has i) := by
  have hround := le_roundUp_eight pageCount
  unfold resized
  simp only [has_foldl_clear]
  rw [has_eq]
  dsimp only
  by_cases hin : i < pageCount
  · have hbyte : i / 8 < divCeil pageCount 8 := div_lt_divCeil.mpr (by omega)
    have hkeep : i ∉ List.range' pageCount (roundUp 8 pageCount - pageCount) := by
      rw [List.mem_range'_1]
      omega
    rw [has_eq]
    by_cases hlen : i / 8 < present.bytes.length
    · rw [List.getElem?_append_left (by rw [List.length_take]; omega), List.getElem?_take_of_lt hbyte]
      simp [hin, hkeep]
    · rw [List.getElem?_append_right (by rw [List.length_take]; omega), List.getElem?_replicate,
        List.getElem?_eq_none (Nat.le_of_not_lt hlen)]
      split_ifs <;> simp
  · by_cases hcut : i < roundUp 8 pageCount
    · have hcleared : i ∈ List.range' pageCount (roundUp 8 pageCount - pageCount) := by
        rw [List.mem_range'_1]
        omega
      simp [hin, hcleared]
    · have hout : ¬i / 8 < divCeil pageCount 8 := fun h => hcut (div_lt_divCeil.mp h)
      rw [List.getElem?_eq_none (by
        simp only [List.length_append, List.length_replicate, List.length_take]
        omega)]
      simp [hin]

end RemoteVfs.Present
