import Mathlib.Data.List.GetD
import Mathlib.Algebra.Notation.Defs
import Mathlib.Tactic.Ring
import Mathlib.Tactic.SplitIfs

namespace RemoteVfs.Base

-- The number of units that hold `size` cells.
def divCeil (size unit : Nat) : Nat := (size + unit - 1) / unit

def roundUp (unit size : Nat) : Nat := divCeil size unit * unit

-- A plain array of cells that grows and shrinks in whole units. Cells past the end
-- are blank, so a file that grows again shows blanks.
@[ext] structure FlatFile (α : Type) [Zero α] where
  size : Nat
  cell : Nat → α
  blank : ∀ p, size ≤ p → cell p = 0

namespace FlatFile

variable {α : Type} [Zero α]

-- The file that `count` blocks of `unit` cells make up.
def ofBlocks (unit count : Nat) (block : Nat → List α) : FlatFile α where
  size := count * unit
  cell p := if p < count * unit then (block (p / unit)).getD (p % unit) 0 else 0
  blank p hp := if_neg (by omega)

theorem cell_ofBlocks {unit : Nat} (hu : 0 < unit) (count : Nat) (block : Nat → List α) (p : Nat) :
    (ofBlocks unit count block).cell p =
      if p / unit < count then (block (p / unit)).getD (p % unit) 0 else 0 := by
  simp only [ofBlocks, Nat.div_lt_iff_lt_mul hu]

theorem ofBlocks_congr {unit count : Nat} (hu : 0 < unit) {block block' : Nat → List α}
    (h : ∀ i < count, block i = block' i) :
    ofBlocks unit count block = ofBlocks unit count block' := by
  ext p
  · rfl
  · rw [cell_ofBlocks hu, cell_ofBlocks hu]
    split_ifs with hp
    · rw [h _ hp]
    · rfl

def cells (file : FlatFile α) (offset length : Nat) : List α :=
  (List.range length).map fun k => file.cell (offset + k)

-- The flag is false if the read extends past the end.
def read (file : FlatFile α) (offset length : Nat) : List α × Bool :=
  (file.cells offset length, decide (length = 0 ∨ offset + length ≤ file.size))

@[simp] theorem length_cells (file : FlatFile α) (offset length : Nat) :
    (file.cells offset length).length = length := by
  simp [cells]

theorem cells_add (file : FlatFile α) (offset first second : Nat) :
    file.cells offset (first + second) =
      file.cells offset first ++ file.cells (offset + first) second := by
  simp only [cells, List.range_add, List.map_append, List.map_map, Function.comp_def, Nat.add_assoc]

theorem cells_past_end (file : FlatFile α) {offset : Nat} (h : file.size ≤ offset) (length : Nat) :
    file.cells offset length = List.replicate length 0 := by
  refine List.eq_replicate_iff.mpr ⟨length_cells file offset length, ?_⟩
  intro value hvalue
  obtain ⟨k, -, rfl⟩ := List.mem_map.mp hvalue
  exact file.blank _ (by omega)

def grown (file : FlatFile α) (unit offset : Nat) (data : List α) : Nat :=
  if data = [] then file.size else max file.size (roundUp unit (offset + data.length))

theorem le_roundUp {unit : Nat} (hu : 0 < unit) (n : Nat) : n ≤ roundUp unit n := by
  unfold roundUp divCeil
  have hd := Nat.div_add_mod (n + unit - 1) unit
  have hm := Nat.mod_lt (n + unit - 1) hu
  rw [Nat.mul_comm] at hd
  omega

theorem roundUp_mono {unit : Nat} {m n : Nat} (h : m ≤ n) : roundUp unit m ≤ roundUp unit n := by
  unfold roundUp divCeil
  exact Nat.mul_le_mul_right _ (Nat.div_le_div_right (by omega))

-- Overlays the cells, growing to whole units.
def write (file : FlatFile α) (unit : Nat) (hu : 0 < unit) (offset : Nat) (data : List α) :
    FlatFile α where
  size := file.grown unit offset data
  cell p := if offset ≤ p ∧ p < offset + data.length then data.getD (p - offset) 0 else file.cell p
  blank p hp := by
    have hr := le_roundUp hu (offset + data.length)
    have hout : ¬(offset ≤ p ∧ p < offset + data.length) := by
      unfold grown at hp
      split_ifs at hp with hd
      · simp only [hd, List.length_nil]; omega
      · omega
    rw [if_neg hout]
    apply file.blank
    unfold grown at hp
    split_ifs at hp
    · exact hp
    · omega

-- Keeps the first `size` cells, rounded up to whole units.
def truncate (file : FlatFile α) (unit size : Nat) : FlatFile α where
  size := roundUp unit size
  cell p := if p < roundUp unit size then file.cell p else 0
  blank p hp := by rw [if_neg (by omega)]

@[simp] theorem write_nil (file : FlatFile α) (unit : Nat) (hu : 0 < unit) (offset : Nat) :
    file.write unit hu offset [] = file := by
  ext p
  · simp [write, grown]
  · simp only [write, List.length_nil, Nat.add_zero]
    rw [if_neg (by omega)]

-- Consecutive writes are one write.
theorem write_write (file : FlatFile α) (unit : Nat) (hu : 0 < unit) (offset : Nat)
    (first second : List α) :
    (file.write unit hu offset first).write unit hu (offset + first.length) second =
      file.write unit hu offset (first ++ second) := by
  ext p
  · have hm : roundUp unit (offset + first.length) ≤
        roundUp unit (offset + (first.length + second.length)) := roundUp_mono (by omega)
    simp only [write, grown, List.append_eq_nil_iff, List.length_append, Nat.add_assoc]
    by_cases h1 : first = []
    · subst h1; simp
    · by_cases h2 : second = []
      · subst h2; simp [h1]
      · simp only [h1, h2, ite_false, false_and]
        omega
  · simp only [write, List.length_append]
    by_cases hlo : offset ≤ p
    · by_cases h1 : p < offset + first.length
      · rw [if_neg (by omega), if_pos ⟨hlo, h1⟩, if_pos ⟨hlo, by omega⟩,
          List.getD_append _ _ _ _ (by omega)]
      · by_cases h2 : p < offset + first.length + second.length
        · rw [if_pos ⟨by omega, h2⟩, if_pos ⟨hlo, by omega⟩,
            List.getD_append_right _ _ _ _ (by omega)]
          congr 1
          omega
        · rw [if_neg (by omega), if_neg (by omega), if_neg (by omega)]
    · rw [if_neg (by omega), if_neg (by omega), if_neg (by omega)]

-- Files of single cells: `put` is a write at any offset, `resize` cuts the file or adds
-- blank cells.
def put (file : FlatFile α) (offset : Nat) (data : List α) : FlatFile α :=
  file.write 1 Nat.one_pos offset data

def resize (file : FlatFile α) (size : Nat) : FlatFile α := file.truncate 1 size

def empty : FlatFile α := ⟨0, fun _ => 0, fun _ _ => rfl⟩

@[simp] theorem size_resize (file : FlatFile α) (size : Nat) : (file.resize size).size = size := by
  simp [resize, truncate, roundUp, divCeil]

theorem size_put (file : FlatFile α) (offset : Nat) (data : List α) :
    (file.put offset data).size = if data = [] then file.size else max file.size (offset + data.length) := by
  simp [put, write, grown, roundUp, divCeil]

theorem le_size_put (file : FlatFile α) (offset : Nat) (data : List α) :
    file.size ≤ (file.put offset data).size := by
  rw [size_put]
  split_ifs <;> omega

theorem cell_put (file : FlatFile α) (offset : Nat) (data : List α) (p : Nat) :
    (file.put offset data).cell p =
      if offset ≤ p ∧ p < offset + data.length then data.getD (p - offset) 0 else file.cell p := rfl

theorem cell_resize (file : FlatFile α) (size p : Nat) :
    (file.resize size).cell p = if p < size then file.cell p else 0 := by
  simp [resize, truncate, roundUp, divCeil]

theorem cells_congr {a b : FlatFile α} {offset length : Nat}
    (h : ∀ p, offset ≤ p → p < offset + length → a.cell p = b.cell p) :
    a.cells offset length = b.cells offset length := by
  refine List.map_congr_left fun k hk => h _ (by omega) ?_
  have := List.mem_range.mp hk
  omega

theorem cells_resize (file : FlatFile α) {size offset length : Nat} (h : offset + length ≤ size) :
    (file.resize size).cells offset length = file.cells offset length :=
  cells_congr fun p _ hp => by rw [cell_resize, if_pos (by omega)]

-- A write leaves the cells beside it alone.
theorem cells_put_beside (file : FlatFile α) {first length offset : Nat} {data : List α}
    (h : offset + length ≤ first ∨ first + data.length ≤ offset) :
    (file.put first data).cells offset length = file.cells offset length :=
  cells_congr fun p hlo hhi => by rw [cell_put, if_neg (by omega)]

theorem cells_put_self (file : FlatFile α) (offset : Nat) (data : List α) :
    (file.put offset data).cells offset data.length = data := by
  refine List.ext_getElem (by simp) fun k hk hk' => ?_
  simp only [cells, List.getElem_map, List.getElem_range, cell_put]
  rw [if_pos (by omega), Nat.add_sub_cancel_left, List.getD_eq_getElem _ _ hk']

end FlatFile

end RemoteVfs.Base
