import RemoteVfs.FileStore.Format
import RemoteVfs.Network
import Mathlib.Data.List.TakeWhile

namespace RemoteVfs.FileStore

open Base

variable {file : FlatFile UInt8} {head before : Head}

-- What the code reads back from the bytes of the file.
def headerOf (file : FlatFile UInt8) : Option (Head × UInt8) :=
  if file.size < HEADER_BYTES then none else decode (file.cells 0 HEADER_BYTES)

def presentOf (file : FlatFile UInt8) (head : Head) : Present :=
  if file.size < bitsAt head + divCeil head.pageCount 8 then .empty head.pageCount
  else ⟨file.cells (bitsAt head) (divCeil head.pageCount 8)⟩

def blockOf (file : FlatFile UInt8) (head : Head) (i : Nat) : Bytes :=
  file.cells (HEADER_BYTES + i * head.pageSize) head.pageSize

-- The file as the map of the blocks it holds.
def diskOf (file : FlatFile UInt8) : Disk where
  header := (headerOf file).map fun header => (header.1, decide (header.2 = CLEAN))
  block i :=
    match headerOf file with
    | none => none
    | some (head, _) =>
      if i < head.pageCount ∧ (presentOf file head).has i = true then some (blockOf file head i)
      else none

-- The page size of the copy, and no bits for blocks past its end.
structure Regular (pageSize : Nat) (file : FlatFile UInt8) : Prop where
  pageSize : ∀ head state, headerOf file = some (head, state) → head.pageSize = pageSize
  padding : ∀ head state, headerOf file = some (head, state) →
    ∀ i, (presentOf file head).has i = true → i < head.pageCount

theorem headerOf_empty : headerOf .empty = none := rfl

theorem diskOf_empty : diskOf .empty = .empty := rfl

theorem regular_empty (pageSize : Nat) : Regular pageSize .empty :=
  ⟨fun _ _ h => (nomatch h), fun _ _ h => (nomatch h)⟩

theorem holds_diskOf {state : UInt8} (h : headerOf file = some (before, state)) (i : Nat) :
    (diskOf file).holds i =
      if i < before.pageCount ∧ (presentOf file before).has i = true then some (blockOf file before i)
      else none := by
  simp only [Disk.holds, diskOf, h, Option.map_some]
  split_ifs <;> simp_all

theorem holds_diskOf_none (h : headerOf file = none) (i : Nat) : (diskOf file).holds i = none := by
  simp [Disk.holds, diskOf, h]

-- The steps of a change: the header is marked, blocks are written, then the bitmap and the
-- new header.
def marked (file : FlatFile UInt8) (head : Head) : FlatFile UInt8 := file.put 0 (layout head WRITING)

def blocked (head : Head) : List (Nat × Bytes) → FlatFile UInt8 → FlatFile UInt8
  | [], file => file
  | (index, data) :: rest, file =>
    if head.pageCount ≤ index then blocked head rest file
    else blocked head rest (file.put (HEADER_BYTES + index * head.pageSize) data)

def marks (head : Head) : List (Nat × Bytes) → Present → Present
  | [], present => present
  | (index, _) :: rest, present =>
    if head.pageCount ≤ index then marks head rest present else marks head rest (present.set index)

def bodied (file : FlatFile UInt8) (head : Head) (present : Present) : FlatFile UInt8 :=
  (file.put (bitsAt head) present.bytes).resize (bitsAt head + present.bytes.length)

def finished (file : FlatFile UInt8) (head : Head) (present : Present) : FlatFile UInt8 :=
  (bodied file head present).put 0 (layout head CLEAN)

theorem length_layout (h : head.Named) (state : UInt8) : (layout head state).length = HEADER_BYTES :=
  (encode_eq (encode_named h state)).2

theorem headerOf_put_layout (file : FlatFile UInt8) (h : head.Named) (state : UInt8) :
    headerOf (file.put 0 (layout head state)) = decode (layout head state) := by
  have hlength := length_layout h state
  have hsize : ¬(file.put 0 (layout head state)).size < HEADER_BYTES := by
    rw [FlatFile.size_put, hlength]
    split_ifs with hnil
    · rw [hnil] at hlength
      cases hlength
    · omega
  have hcells := file.cells_put_self 0 (layout head state)
  rw [hlength] at hcells
  rw [headerOf, if_neg hsize, hcells]

theorem headerOf_put (file : FlatFile UInt8) (h : head.Fits) (state : UInt8) :
    headerOf (file.put 0 (layout head state)) = some (head, state) := by
  rw [headerOf_put_layout file h.names, decode_layout h]

section Finished

variable {present : Present}

theorem headerOf_finished (h : head.Fits) :
    headerOf (finished file head present) = some (head, CLEAN) := headerOf_put _ h CLEAN

theorem le_bitsAt (head : Head) : HEADER_BYTES ≤ bitsAt head := Nat.le_add_right _ _

theorem presentOf_finished (h : head.Fits) (hlength : present.bytes.length = divCeil head.pageCount 8) :
    presentOf (finished file head present) head = present := by
  have hbits := le_bitsAt head
  have hsize : ¬(finished file head present).size < bitsAt head + divCeil head.pageCount 8 := by
    have hbody : (bodied file head present).size = bitsAt head + divCeil head.pageCount 8 := by
      rw [bodied, FlatFile.size_resize, hlength]
    rw [← hbody, Nat.not_lt]
    exact FlatFile.le_size_put _ _ _
  rw [presentOf, if_neg hsize, ← hlength, finished,
    FlatFile.cells_put_beside _ (Or.inr (by rw [length_layout h.names]; omega)), bodied,
    FlatFile.cells_resize _ le_rfl, FlatFile.cells_put_self]

-- A block ends where the next one begins, at the latest at the bitmap.
theorem block_le_bitsAt {i : Nat} (hi : i < head.pageCount) :
    HEADER_BYTES + i * head.pageSize + head.pageSize ≤ bitsAt head := by
  have hle : (i + 1) * head.pageSize ≤ head.pageCount * head.pageSize := Nat.mul_le_mul_right _ hi
  rw [Nat.succ_mul] at hle
  unfold bitsAt
  omega

theorem blockOf_finished (h : head.Fits) {i : Nat} (hi : i < head.pageCount) :
    blockOf (finished file head present) head i = blockOf file head i := by
  have hend := block_le_bitsAt hi
  rw [blockOf, finished, FlatFile.cells_put_beside _ (Or.inr (by rw [length_layout h.names]; omega)), bodied,
    FlatFile.cells_resize _ (by omega), FlatFile.cells_put_beside _ (Or.inl hend)]
  rfl

theorem regular_finished (h : head.Fits) (hlength : present.bytes.length = divCeil head.pageCount 8)
    (hbits : ∀ i, present.has i = true → i < head.pageCount) :
    Regular head.pageSize (finished file head present) := by
  refine ⟨fun other state hheader => ?_, fun other state hheader => ?_⟩
  · rw [headerOf_finished h] at hheader
    cases hheader
    rfl
  · rw [headerOf_finished h] at hheader
    cases hheader
    rw [presentOf_finished h hlength]
    exact hbits

theorem holds_finished (h : head.Fits) (hlength : present.bytes.length = divCeil head.pageCount 8)
    (i : Nat) : (diskOf (finished file head present)).holds i =
      if i < head.pageCount ∧ present.has i = true then some (blockOf file head i) else none := by
  rw [holds_diskOf (headerOf_finished h), presentOf_finished h hlength]
  split_ifs with hi
  · rw [blockOf_finished h hi.1]
  · rfl

end Finished

section Blocks

variable {blocks : List (Nat × Bytes)}

-- Two blocks do not overlap.
theorem beside {i index size : Nat} (h : i ≠ index) :
    HEADER_BYTES + i * size + size ≤ HEADER_BYTES + index * size ∨
      HEADER_BYTES + index * size + size ≤ HEADER_BYTES + i * size := by
  rcases Nat.lt_or_gt_of_ne h with hlt | hlt
  · have hle : (i + 1) * size ≤ index * size := Nat.mul_le_mul_right _ hlt
    rw [Nat.succ_mul] at hle
    exact Or.inl (by omega)
  · have hle : (index + 1) * size ≤ i * size := Nat.mul_le_mul_right _ hlt
    rw [Nat.succ_mul] at hle
    exact Or.inr (by omega)

-- A block has the content that was written last.
theorem blockOf_blocked (hsized : ∀ entry ∈ blocks, entry.2.length = head.pageSize)
    (file : FlatFile UInt8) {i : Nat} (hi : i < head.pageCount) :
    blockOf (blocked head blocks file) head i =
      ((blocks.reverse.find? (·.1 = i)).map Prod.snd).getD (blockOf file head i) := by
  induction blocks generalizing file with
  | nil => rfl
  | cons entry rest ih =>
      obtain ⟨index, data⟩ := entry
      have hrest := fun file => ih (fun entry h => hsized entry (List.mem_cons_of_mem _ h)) file
      have hdata : data.length = head.pageSize := hsized _ List.mem_cons_self
      rw [List.reverse_cons, List.find?_append, Option.map_or, Option.getD_or, blocked]
      by_cases hsame : index = i
      · subst hsame
        have hself := FlatFile.cells_put_self file (HEADER_BYTES + index * head.pageSize) data
        rw [hdata] at hself
        rw [if_neg (by omega), hrest, blockOf, hself]
        simp
      · have hnone : [(index, data)].find? (·.1 = i) = none := by simp [hsame]
        rw [hnone, Option.map_none, Option.getD_none]
        split_ifs
        · exact hrest file
        · rw [hrest, blockOf, FlatFile.cells_put_beside _ (by
            rw [hdata]
            exact beside fun h => hsame h.symm)]
          rfl

theorem length_marks (present : Present) :
    (marks head blocks present).bytes.length = present.bytes.length := by
  induction blocks generalizing present with
  | nil => rfl
  | cons entry rest ih =>
      rw [marks]
      split_ifs
      · exact ih present
      · rw [ih, Present.length_set]

theorem has_marks {present : Present} (hlength : present.bytes.length = divCeil head.pageCount 8)
    (i : Nat) : (marks head blocks present).has i =
      (present.has i || decide (i < head.pageCount ∧ i ∈ blocks.map Prod.fst)) := by
  induction blocks generalizing present with
  | nil => simp [marks]
  | cons entry rest ih =>
      obtain ⟨index, data⟩ := entry
      rw [marks]
      split_ifs with hpast
      · rw [ih hlength]
        have hne : i < head.pageCount → i ≠ index := by omega
        congr 1
        simp only [List.map_cons, List.mem_cons, decide_eq_decide]
        grind
      · have hbyte : index / 8 < present.bytes.length := by
          rw [hlength]
          exact Present.div_lt_divCeil.mpr ((Nat.lt_of_not_le hpast).trans_le
            (Present.le_roundUp_eight _))
        rw [ih (by rw [Present.length_set, hlength]), Present.has_set, Bool.or_assoc]
        congr 1
        simp only [List.map_cons, List.mem_cons, ← Bool.decide_or, decide_eq_decide, hbyte, and_true]
        grind

-- Marking the header and writing blocks of the new version leave the other blocks alone.
theorem blockOf_marked (h : before.Fits) (i : Nat) :
    blockOf (marked file before) head i = blockOf file head i := by
  rw [blockOf, marked, FlatFile.cells_put_beside _ (Or.inr (by rw [length_layout h.names]; omega))]
  rfl

theorem find_isSome_iff {i : Nat} :
    (blocks.reverse.find? (·.1 = i)).isSome = true ↔ i ∈ blocks.map Prod.fst := by
  rw [List.find?_isSome]
  simp [eq_comm]

end Blocks

-- The bitmap that stays of the copy in the file.
def kept (file : FlatFile UInt8) (pageCount : Nat) : Present :=
  match headerOf file with
  | some (before, _) => (presentOf file before).resized pageCount
  | none => .empty pageCount

theorem length_kept (file : FlatFile UInt8) (pageCount : Nat) :
    (kept file pageCount).bytes.length = divCeil pageCount 8 := by
  unfold kept
  split
  · exact Present.length_resized _ _
  · simp [Present.empty]

-- The header that is marked before a change.
def stale (file : FlatFile UInt8) (head : Head) : Head :=
  ((headerOf file).map Prod.fst).getD { head with version := 0 }

theorem headerOf_fits {state : UInt8} (h : headerOf file = some (before, state)) : before.Fits := by
  unfold headerOf at h
  split_ifs at h
  exact (decode_some (FlatFile.length_cells _ _ _) h).2

theorem stale_fits (h : head.Fits) (file : FlatFile UInt8) : (stale file head).Fits := by
  unfold stale
  cases hheader : headerOf file with
  | none => exact ⟨h.names, h.pageSize, h.pageCount, Nat.two_pow_pos 64⟩
  | some header => exact headerOf_fits hheader

theorem stale_named (h : head.Named) (file : FlatFile UInt8) : (stale file head).Named := by
  unfold stale
  cases hheader : headerOf file with
  | none => exact h
  | some header => exact (headerOf_fits hheader).names

-- What stays is what the copy held.
theorem holds_kept {pageSize : Nat} (h : Regular pageSize file) (hsize : head.pageSize = pageSize)
    (i : Nat) : (if i < head.pageCount ∧ (kept file head.pageCount).has i = true
        then some (blockOf file head i) else none) =
      if i < head.pageCount then (diskOf file).holds i else none := by
  by_cases hi : i < head.pageCount
  · cases hheader : headerOf file with
    | none =>
        rw [if_pos hi, holds_diskOf_none hheader, kept, hheader]
        simp [Present.has_empty]
    | some header =>
        obtain ⟨before, state⟩ := header
        have hsame : before.pageSize = head.pageSize := (h.pageSize before state hheader).trans hsize.symm
        have hpadding := h.padding before state hheader i
        rw [if_pos hi, holds_diskOf hheader, kept, hheader]
        dsimp only
        rw [Present.has_resized]
        simp only [hi, decide_true, Bool.true_and, true_and]
        by_cases hbit : (presentOf file before).has i = true
        · simp [hbit, hpadding hbit, blockOf, hsame]
        · simp [hbit]
  · simp [hi]

-- The file after a complete `write`.
def written (file : FlatFile UInt8) (head : Head) (blocks : List (Nat × Bytes)) : FlatFile UInt8 :=
  finished (blocked head blocks (marked file (stale file head))) head
    (marks head blocks (kept file head.pageCount))

-- The file after a complete `forget`.
def forgotten (file : FlatFile UInt8) (head : Head) (blocks : List Nat) : FlatFile UInt8 :=
  finished (marked file (stale file head)) head (blocks.foldl Present.clear (kept file head.pageCount))

variable {pageSize : Nat} {blocks : List (Nat × Bytes)}

theorem has_kept {i : Nat} (h : (kept file head.pageCount).has i = true) : i < head.pageCount := by
  unfold kept at h
  split at h
  · rw [Present.has_resized, Bool.and_eq_true, decide_eq_true_eq] at h
    exact h.1
  · rw [Present.has_empty] at h
    cases h

theorem disk_ext {a b : Disk} (hheader : a.header = b.header) (hblock : ∀ i, a.block i = b.block i) :
    a = b := by
  obtain ⟨header, block⟩ := a
  obtain ⟨header', block'⟩ := b
  obtain rfl : header = header' := hheader
  obtain rfl : block = block' := funext hblock
  rfl

-- Blocks past the end are not there.
theorem holds_eq_block {state : UInt8} (h : headerOf file = some (head, state)) (i : Nat) :
    (diskOf file).holds i = (diskOf file).block i := by
  rw [holds_diskOf h]
  simp only [diskOf, h]

theorem diskOf_finished {present : Present} (h : head.Fits) {block : Nat → Option Bytes}
    (hblock : ∀ i, (diskOf (finished file head present)).holds i = block i) :
    diskOf (finished file head present) = ⟨some (head, true), block⟩ := by
  refine disk_ext ?_ fun i => ?_
  · simp [diskOf, headerOf_finished h]
  · rw [← holds_eq_block (headerOf_finished h), hblock]

theorem regular_written (h : head.Fits) : Regular head.pageSize (written file head blocks) := by
  have hlength : (marks head blocks (kept file head.pageCount)).bytes.length = divCeil head.pageCount 8 := by
    rw [length_marks, length_kept]
  refine regular_finished h hlength fun i hbit => ?_
  rw [has_marks (length_kept _ _), Bool.or_eq_true, decide_eq_true_eq] at hbit
  rcases hbit with hkept | hblocks
  · exact has_kept hkept
  · exact hblocks.1

theorem diskOf_written (h : head.Fits) (hregular : Regular pageSize file)
    (hsize : head.pageSize = pageSize) (hsized : ∀ entry ∈ blocks, entry.2.length = head.pageSize) :
    diskOf (written file head blocks) = (diskOf file).write head blocks := by
  have hlength : (marks head blocks (kept file head.pageCount)).bytes.length = divCeil head.pageCount 8 := by
    rw [length_marks, length_kept]
  refine diskOf_finished h fun i => ?_
  rw [holds_finished h hlength]
  by_cases hi : i < head.pageCount
  · have hkept := holds_kept hregular hsize i
    rw [if_pos hi] at hkept ⊢
    simp only [hi, true_and] at hkept ⊢
    rw [← hkept, blockOf_blocked hsized _ hi, blockOf_marked (stale_fits h file), has_marks (length_kept _ _)]
    simp only [hi, true_and]
    cases hfind : blocks.reverse.find? (·.1 = i) with
    | some entry =>
        have hmem : i ∈ blocks.map Prod.fst := find_isSome_iff.mp (by rw [hfind]; rfl)
        simp [hmem]
    | none =>
        have hmem : i ∉ blocks.map Prod.fst := fun hmem => by
          have hsome := find_isSome_iff.mpr hmem
          rw [hfind] at hsome
          cases hsome
        simp [hmem]
  · simp [hi]

theorem regular_forgotten (h : head.Fits) (indexes : List Nat) :
    Regular head.pageSize (forgotten file head indexes) := by
  refine regular_finished h (by rw [Present.length_foldl_clear, length_kept]) fun i hbit => ?_
  rw [Present.has_foldl_clear, Bool.and_eq_true] at hbit
  exact has_kept hbit.1

theorem diskOf_forgotten (h : head.Fits) (hregular : Regular pageSize file)
    (hsize : head.pageSize = pageSize) (indexes : List Nat) :
    diskOf (forgotten file head indexes) = (diskOf file).forget head indexes := by
  have hlength : (indexes.foldl Present.clear (kept file head.pageCount)).bytes.length =
      divCeil head.pageCount 8 := by
    rw [Present.length_foldl_clear, length_kept]
  refine diskOf_finished h fun i => ?_
  rw [holds_finished h hlength, blockOf_marked (stale_fits h file), Present.has_foldl_clear]
  have hkept := holds_kept hregular hsize i
  by_cases hi : i < head.pageCount
  · rw [if_pos hi] at hkept
    simp only [hi, true_and] at hkept ⊢
    rw [← hkept]
    by_cases hmem : i ∈ indexes
    · simp [hmem]
    · simp [hmem]
  · simp [hi]

section Reading

theorem takeWhile_range' (q : Nat → Bool) (first count pageCount : Nat) :
    (List.range' first count).takeWhile (fun i => decide (i < pageCount) && q i) =
      (List.range' first (min (first + count) pageCount - first)).takeWhile q := by
  induction count generalizing first with
  | zero => simp
  | succ count ih =>
      rw [List.range'_succ, List.takeWhile_cons, ih]
      by_cases hfirst : first < pageCount
      · have hmin : min (first + (count + 1)) pageCount - first =
            min (first + 1 + count) pageCount - (first + 1) + 1 := by omega
        rw [hmin, List.range'_succ, List.takeWhile_cons]
        simp [hfirst]
      · have hmin : min (first + (count + 1)) pageCount - first = 0 := by omega
        simp [hmin, hfirst]

theorem takeWhile_eq_range' (q : Nat → Bool) (first count : Nat) :
    (List.range' first count).takeWhile q =
      List.range' first ((List.range' first count).takeWhile q).length := by
  have hprefix := List.takeWhile_prefix (l := List.range' first count) q
  have hlength := hprefix.length_le
  rw [List.length_range'] at hlength
  conv_lhs => rw [List.prefix_iff_eq_take.mp hprefix]
  exact List.take_range'_of_length_ge hlength

theorem filterMap_takeWhile (p : Nat → Prop) [DecidablePred p] (block : Nat → Bytes) (indexes : List Nat) :
    ((indexes.map fun i => if p i then some (block i) else none).takeWhile Option.isSome).filterMap id =
      (indexes.takeWhile fun i => decide (p i)).map block := by
  induction indexes with
  | nil => rfl
  | cons i rest ih =>
      rw [List.map_cons, List.takeWhile_cons, List.takeWhile_cons]
      by_cases hi : p i
      · simp only [hi, if_true, Option.isSome_some, List.filterMap_cons, id, decide_true, List.map_cons]
        exact congrArg _ ih
      · simp [hi]

-- What the copy returns are the blocks of the run that the code counts.
theorem read_diskOf (h : headerOf file = some (head, CLEAN)) {first count : Nat}
    (hcount : first + count < 2 ^ 64) :
    (diskOf file).read first count =
      (List.range' first (run (presentOf file head) head first count)).map (blockOf file head) := by
  have hholds : (diskOf file).holds = fun i =>
      if i < head.pageCount ∧ (presentOf file head).has i = true then some (blockOf file head i)
      else none := funext fun i => holds_diskOf h i
  have hheader : (diskOf file).header = some (head, true) := by simp [diskOf, h]
  rw [Disk.read, hheader, hholds]
  dsimp only
  rw [filterMap_takeWhile]
  congr 1
  have hrun := takeWhile_range' (presentOf file head).has first count head.pageCount
  simp only [Bool.decide_and, Bool.decide_eq_true]
  rw [hrun, run, Nat.mod_eq_of_lt hcount]
  exact takeWhile_eq_range' _ _ _

-- Every block of the run is held.
theorem holds_run {state : UInt8} (h : headerOf file = some (head, state)) {first count k : Nat}
    (hk : k < run (presentOf file head) head first count) :
    (diskOf file).holds (first + k) = some (blockOf file head (first + k)) := by
  have hmem : first + k ∈ (List.range' first (min ((first + count) % 2 ^ 64) head.pageCount -
      first)).takeWhile (presentOf file head).has := by
    rw [takeWhile_eq_range', List.mem_range'_1]
    exact ⟨Nat.le_add_right _ _, Nat.add_lt_add_left hk first⟩
  have hrange := List.mem_range'_1.mp ((List.takeWhile_prefix _).subset hmem)
  rw [holds_diskOf h, if_pos ⟨by omega, List.mem_takeWhile_imp hmem⟩]

-- The blocks of the run are in the file.
theorem run_le_size {first count : Nat} (hrun : run (presentOf file head) head first count ≠ 0) :
    HEADER_BYTES + first * head.pageSize +
      run (presentOf file head) head first count * head.pageSize ≤ file.size := by
  have hsome : ∃ i, (presentOf file head).has i = true := by
    have hne : (List.range' first (min ((first + count) % 2 ^ 64) head.pageCount - first)).takeWhile
        (presentOf file head).has ≠ [] := fun hnil => hrun (by rw [run, hnil]; rfl)
    exact ⟨_, List.mem_takeWhile_imp (List.head_mem hne)⟩
  have hlong : ¬file.size < bitsAt head + divCeil head.pageCount 8 := by
    obtain ⟨i, hi⟩ := hsome
    intro hshort
    rw [presentOf, if_pos hshort, Present.has_empty] at hi
    cases hi
  have hle : run (presentOf file head) head first count ≤
      min ((first + count) % 2 ^ 64) head.pageCount - first := by
    have hlength := (List.takeWhile_prefix (l := List.range' first
      (min ((first + count) % 2 ^ 64) head.pageCount - first)) (presentOf file head).has).length_le
    rwa [List.length_range'] at hlength
  have hend : (first + run (presentOf file head) head first count) * head.pageSize ≤
      head.pageCount * head.pageSize := Nat.mul_le_mul_right _ (by omega)
  rw [Nat.add_mul] at hend
  unfold bitsAt at hlong
  omega

end Reading

end RemoteVfs.FileStore
