import RemoteVfs.FileStore.Map
import RemoteVfs.Base.Program.Rules

namespace RemoteVfs

open Base Base.Prog

-- The file as it was synced, and what was done to it since.
structure Volume.At (faults : Nat → Option Fault) (synced : FlatFile UInt8)
    (unsynced : List FileChange) (volume : Volume) : Prop where
  faults : volume.faults = faults
  synced : volume.synced = synced
  unsynced : volume.unsynced = unsynced

def Faulty (faults : Nat → Option Fault) : Prop := ∃ n, faults n ≠ none

namespace Volume

variable {faults : Nat → Option Fault} {synced file : FlatFile UInt8} {unsynced : List FileChange}
  {stuck : Prop} {keep : Volume → Prop}

def applied (synced : FlatFile UInt8) (unsynced : List FileChange) : FlatFile UInt8 :=
  unsynced.foldl FileChange.apply synced

theorem applied_append (synced : FlatFile UInt8) (first second : List FileChange) :
    applied synced (first ++ second) = applied (applied synced first) second := by
  simp [applied]

theorem At.content {volume : Volume} (h : At faults synced unsynced volume) :
    volume.content = applied synced unsynced := by
  rw [Volume.content, h.synced, h.unsynced]
  rfl

-- A call fails only if the schedule says so.
theorem call_spec {α : Type} {pre : Volume → Prop} {failed : Fault → Volume → Volume}
    {body : Prog Volume String α} {good : α → Volume → Prop}
    (hfail : ∀ fault volume, pre volume → volume.faults volume.calls = some fault →
      keep (failed fault { volume with calls := volume.calls + 1 }))
    (hbody : Triple (fun volume => ∃ calls, pre { volume with calls := calls }) body (Halts stuck keep good)) :
    Triple pre (call failed body) (Halts stuck keep good) := by
  intro volume hpre
  unfold call
  cases hfault : volume.faults volume.calls with
  | some fault => exact hfail fault volume hpre hfault
  | none => exact hbody _ ⟨volume.calls, hpre⟩

section Calls

variable (hkeep : Faulty faults → ∀ volume, At faults synced unsynced volume → keep volume)

include hkeep

theorem unchanged_spec {fault : Fault} {volume : Volume} (h : At faults synced unsynced volume)
    (hfault : volume.faults volume.calls = some fault) :
    keep (unchanged fault { volume with calls := volume.calls + 1 }) := by
  refine hkeep ⟨volume.calls, ?_⟩ _ ⟨h.faults, h.synced, h.unsynced⟩
  rw [← h.faults, hfault]
  exact Option.some_ne_none fault

theorem length_spec : Triple (At faults synced unsynced) length
    (Halts stuck keep fun size volume => At faults synced unsynced volume ∧
      size = (applied synced unsynced).size) := by
  refine call_spec (fun _ _ h hfault => unchanged_spec hkeep h hfault) ?_
  rintro volume ⟨calls, h⟩
  have hat : At faults synced unsynced volume := ⟨h.faults, h.synced, h.unsynced⟩
  exact ⟨hat, congrArg FlatFile.size hat.content⟩

theorem seek_spec (offset : Nat) : Triple (At faults synced unsynced) (seek offset)
    (Halts stuck keep fun _ volume => At faults synced unsynced volume ∧ volume.position = offset) := by
  refine call_spec (fun _ _ h hfault => unchanged_spec hkeep h hfault) ?_
  rintro volume ⟨calls, h⟩
  exact ⟨⟨h.faults, h.synced, h.unsynced⟩, rfl⟩

theorem readExact_spec {offset count : Nat} (hsize : offset + count ≤ (applied synced unsynced).size) :
    Triple (fun volume => At faults synced unsynced volume ∧ volume.position = offset) (readExact count)
      (Halts stuck keep fun bytes volume => (At faults synced unsynced volume ∧
        volume.position = offset + count) ∧ bytes = (applied synced unsynced).cells offset count) := by
  refine call_spec (fun _ _ h hfault => unchanged_spec hkeep h.1 hfault) ?_
  rintro volume ⟨calls, h, hposition⟩
  have hat : At faults synced unsynced volume := ⟨h.faults, h.synced, h.unsynced⟩
  dsimp only at hposition ⊢
  rw [hat.content, hposition, if_pos hsize]
  exact ⟨⟨⟨h.faults, h.synced, h.unsynced⟩, rfl⟩, rfl⟩

theorem setLen_spec (size : Nat) : Triple (At faults synced unsynced) (setLen size)
    (Halts stuck keep fun _ => At faults synced (unsynced ++ [.SetLen size])) := by
  refine call_spec (fun _ _ h hfault => unchanged_spec hkeep h hfault) ?_
  rintro volume ⟨calls, h⟩
  exact ⟨h.faults, h.synced, congrArg (· ++ [FileChange.SetLen size]) h.unsynced⟩

theorem syncData_spec : Triple (At faults synced unsynced) syncData
    (Halts stuck keep fun _ => At faults (applied synced unsynced) []) := by
  refine call_spec (fun _ _ h hfault => unchanged_spec hkeep h hfault) ?_
  rintro volume ⟨calls, h⟩
  have hat : At faults synced unsynced volume := ⟨h.faults, h.synced, h.unsynced⟩
  exact ⟨h.faults, hat.content, rfl⟩

theorem openFile_spec : Triple (At faults synced unsynced) FileStore.openFile
    (Halts stuck keep fun _ => At faults synced unsynced) := by
  refine Triple.gets fun opened => Triple.ite (fun _ => Halts.pure fun _ h => h.1) fun _ => ?_
  refine call_spec (fun _ _ h hfault => unchanged_spec hkeep h.1 hfault) ?_
  rintro volume ⟨calls, h, -⟩
  exact ⟨h.faults, h.synced, h.unsynced⟩

end Calls

-- A failed write has written a part of its data.
theorem writeAll_spec {offset : Nat} {data : Bytes}
    (hkeep : ∀ n fault, faults n = some fault → ∀ volume, At faults synced
      (unsynced ++ [.Write offset (data.take (fault.written offset))]) volume → keep volume) :
    Triple (fun volume => At faults synced unsynced volume ∧ volume.position = offset) (writeAll data)
      (Halts stuck keep fun _ => At faults synced (unsynced ++ [.Write offset data])) := by
  refine call_spec ?_ ?_
  · rintro fault volume ⟨h, rfl⟩ hfault
    refine hkeep volume.calls fault (by rw [← h.faults, hfault]) _ ⟨h.faults, h.synced, ?_⟩
    exact congrArg (· ++ [_]) h.unsynced
  · rintro volume ⟨calls, h, rfl⟩
    exact ⟨h.faults, h.synced, congrArg (· ++ [_]) h.unsynced⟩

end Volume

namespace FileStore

open Volume

variable {faults : Nat → Option Fault} {synced file : FlatFile UInt8} {unsynced : List FileChange}
  {stuck : Prop} {keep : Volume → Prop}

section Reading

variable (hkeep : Faulty faults → ∀ volume, At faults synced unsynced volume → keep volume)

include hkeep

theorem readHeader_spec : Triple (At faults synced unsynced) readHeader
    (Halts stuck keep fun header volume => At faults synced unsynced volume ∧
      header = headerOf (applied synced unsynced)) := by
  refine Halts.bind (openFile_spec hkeep) fun _ => Halts.bind (length_spec hkeep) fun size => ?_
  rintro volume ⟨hat, rfl⟩
  by_cases hshort : (applied synced unsynced).size < HEADER_BYTES
  · rw [if_pos hshort]
    exact ⟨hat, by rw [headerOf, if_pos hshort]⟩
  · rw [if_neg hshort]
    have hsize : 0 + HEADER_BYTES ≤ (applied synced unsynced).size := by omega
    refine Halts.bind (seek_spec hkeep 0) (fun _ =>
      Halts.bind (readExact_spec hkeep hsize) fun bytes => ?_) volume hat
    refine Halts.pure fun _ h => ⟨h.1.1, ?_⟩
    rw [h.2, headerOf, if_neg hshort]

theorem readPresent_spec (head : Head) : Triple (At faults synced unsynced) (readPresent head)
    (Halts stuck keep fun present volume => At faults synced unsynced volume ∧
      present = presentOf (applied synced unsynced) head) := by
  refine Halts.bind (openFile_spec hkeep) fun _ => Halts.bind (length_spec hkeep) fun size => ?_
  rintro volume ⟨hat, rfl⟩
  by_cases hshort : (applied synced unsynced).size < bitsAt head + divCeil head.pageCount 8
  · rw [if_pos hshort]
    exact ⟨hat, by rw [presentOf, if_pos hshort]⟩
  · rw [if_neg hshort]
    refine Halts.bind (seek_spec hkeep _) (fun _ =>
      Halts.bind (readExact_spec hkeep (Nat.le_of_not_lt hshort)) fun bytes => ?_) volume hat
    refine Halts.pure fun _ h => ⟨h.1.1, ?_⟩
    rw [h.2, presentOf, if_neg hshort]

theorem keptPresent_spec (pageCount : Nat) :
    Triple (At faults synced unsynced)
      (keptPresent pageCount ((headerOf (applied synced unsynced)).map Prod.fst))
      (Halts stuck keep fun present volume => At faults synced unsynced volume ∧
        present = kept (applied synced unsynced) pageCount) := by
  unfold kept
  cases headerOf (applied synced unsynced) with
  | none => exact Halts.pure fun _ h => ⟨h, rfl⟩
  | some header =>
      refine Halts.bind (readPresent_spec hkeep header.1) fun present => Halts.pure fun _ h => ⟨h.1, ?_⟩
      rw [h.2]

theorem head_spec : Triple (At faults synced unsynced) head
    (Halts stuck keep fun value volume => At faults synced unsynced volume ∧
      value = (diskOf (applied synced unsynced)).head) := by
  refine Halts.bind (readHeader_spec hkeep) fun header => ?_
  rintro volume ⟨hat, rfl⟩
  rw [Disk.head, diskOf]
  cases hheader : headerOf (applied synced unsynced) with
  | none => exact ⟨hat, rfl⟩
  | some header =>
      obtain ⟨head, state⟩ := header
      by_cases hclean : state = CLEAN
      · exact ⟨hat, by simp [hclean]⟩
      · exact ⟨hat, by simp [hclean]⟩

theorem readBlocks_spec {pageSize : Nat} (run : Nat) {offset : Nat}
    (hsize : offset + run * pageSize ≤ (applied synced unsynced).size) :
    Triple (fun volume => At faults synced unsynced volume ∧ volume.position = offset)
      (readBlocks pageSize run)
      (Halts stuck keep fun blocks volume => At faults synced unsynced volume ∧
        blocks = (List.range run).map fun k =>
          (applied synced unsynced).cells (offset + k * pageSize) pageSize) := by
  induction run generalizing offset with
  | zero => exact Halts.pure fun _ h => ⟨h.1, rfl⟩
  | succ run ih =>
      rw [Nat.succ_mul] at hsize
      refine Halts.bind (readExact_spec hkeep (by omega)) fun block => ?_
      rintro volume ⟨hat, rfl⟩
      have hrest : offset + pageSize + run * pageSize ≤ (applied synced unsynced).size := by omega
      refine Halts.bind (ih hrest) (fun blocks => ?_) volume hat
      refine Halts.pure fun _ h => ⟨h.1, ?_⟩
      rw [h.2, List.range_succ_eq_map, List.map_cons, List.map_map, Nat.zero_mul, Nat.add_zero]
      congr 1
      refine List.map_congr_left fun k _ => ?_
      rw [Function.comp_apply, Nat.succ_mul, Nat.add_comm (k * pageSize), Nat.add_assoc]

theorem read_spec (first count : Nat) : Triple (At faults synced unsynced) (read first count)
    (Halts stuck keep fun blocks volume => At faults synced unsynced volume ∧
      (∀ k data, blocks[k]? = some data →
        (diskOf (applied synced unsynced)).holds (first + k) = some data) ∧
      (first + count < 2 ^ 64 → blocks = (diskOf (applied synced unsynced)).read first count)) := by
  refine Halts.bind (readHeader_spec hkeep) fun header => ?_
  rintro volume ⟨hat, rfl⟩
  cases hheader : headerOf (applied synced unsynced) with
  | none => exact ⟨hat, fun _ _ hk => by simp at hk, fun _ => by simp [Disk.read, diskOf, hheader]⟩
  | some header =>
      obtain ⟨head, state⟩ := header
      dsimp only
      split_ifs with hclean
      · exact ⟨hat, fun _ _ hk => by simp at hk,
          fun _ => by simp [Disk.read, diskOf, hheader, hclean]⟩
      · obtain rfl : state = CLEAN := not_not.mp hclean
        refine Halts.bind (readPresent_spec hkeep head) (fun present => ?_) volume hat
        rintro volume ⟨hat, rfl⟩
        by_cases hrun : run (presentOf (applied synced unsynced) head) head first count = 0
        · rw [if_pos hrun]
          exact ⟨hat, fun _ _ hk => by simp at hk,
            fun hcount => by rw [read_diskOf hheader hcount, hrun]; rfl⟩
        · rw [if_neg hrun]
          refine Halts.bind (openFile_spec hkeep) (fun _ => Halts.bind (seek_spec hkeep _) fun _ => ?_)
            volume hat
          refine Halts.mono (readBlocks_spec hkeep _ (run_le_size hrun)) (fun _ h => h) ?_
          rintro blocks volume ⟨hat, hblocks⟩
          have hshown : blocks = (List.range' first (run (presentOf (applied synced unsynced) head) head
              first count)).map (blockOf (applied synced unsynced) head) := by
            rw [hblocks, List.range'_eq_map_range, List.map_map]
            refine List.map_congr_left fun k _ => ?_
            rw [Function.comp_apply, blockOf, Nat.add_mul, Nat.add_assoc]
          refine ⟨hat, fun k data hk => ?_, fun hcount => by rw [read_diskOf hheader hcount, hshown]⟩
          have hlt := (List.getElem?_eq_some_iff.mp hk).1
          simp only [hshown, List.length_map, List.length_range'] at hlt
          rw [holds_run hheader hlt]
          simpa [hshown, List.getElem?_range', hlt] using hk

end Reading

-- A change that does not reach the header.
def Beyond : FileChange → Prop
  | .Write offset _ => HEADER_BYTES ≤ offset
  | .SetLen size => HEADER_BYTES ≤ size

-- The file with these changes since it was synced, none of them to the header.
def Body (faults : Nat → Option Fault) (synced file : FlatFile UInt8) (volume : Volume) : Prop :=
  ∃ unsynced, At faults synced unsynced volume ∧ applied synced unsynced = file ∧
    ∀ change ∈ unsynced, Beyond change

theorem Body.change {change : FileChange} (h : Beyond change) {unsynced : List FileChange}
    (hbeyond : ∀ change ∈ unsynced, Beyond change) {volume : Volume}
    (hat : At faults synced (unsynced ++ [change]) volume) :
    Body faults synced (change.apply (applied synced unsynced)) volume := by
  refine ⟨_, hat, by rw [applied_append]; rfl, fun other hother => ?_⟩
  rcases List.mem_append.mp hother with hold | hnew
  · exact hbeyond other hold
  · rw [List.mem_singleton.mp hnew]
    exact h

theorem writeHeader_spec {head : Head} {state : UInt8} (hstuck : ¬head.Named → stuck)
    (hunnamed : ¬head.Named → ∀ volume, At faults synced [] volume → keep volume)
    (hkeep : Faulty faults → ∀ volume, At faults synced [] volume → keep volume)
    (htorn : (layout head state).length = HEADER_BYTES → ∀ n fault, faults n = some fault →
      ∀ volume, At faults synced [.Write 0 ((layout head state).take (fault.written 0))] volume →
        keep volume)
    (hlost : (layout head state).length = HEADER_BYTES → Faulty faults →
      ∀ volume, At faults synced [.Write 0 (layout head state)] volume → keep volume) :
    Triple (At faults synced []) (writeHeader head state)
      (Halts stuck keep fun _ volume => At faults (synced.put 0 (layout head state)) [] volume ∧
        (layout head state).length = HEADER_BYTES) := by
  unfold writeHeader
  cases hencode : encode head state with
  | none =>
      exact fun volume hat => ⟨hstuck (encode_none hencode), hunnamed (encode_none hencode) volume hat⟩
  | some bytes =>
      obtain ⟨rfl, hlength⟩ := encode_eq hencode
      refine Halts.bind (openFile_spec hkeep) fun _ => Halts.bind (seek_spec hkeep 0) fun _ => ?_
      refine Halts.bind (writeAll_spec (htorn hlength)) fun _ => ?_
      exact Halts.mono (syncData_spec (hlost hlength)) (fun _ h => h) fun _ _ h => ⟨h, hlength⟩

section Body

variable (hkeep : Faulty faults → ∀ file volume, Body faults synced file volume → keep volume)

include hkeep

theorem writeBlocks_spec (head : Head) (blocks : List (Nat × Bytes)) (present : Present) :
    Triple (Body faults synced file) (writeBlocks head blocks present)
      (Halts stuck keep fun result volume => result = marks head blocks present ∧
        Body faults synced (blocked head blocks file) volume) := by
  induction blocks generalizing file present with
  | nil => exact Halts.pure fun _ h => ⟨rfl, h⟩
  | cons entry rest ih =>
      obtain ⟨index, data⟩ := entry
      rw [writeBlocks, marks, blocked]
      split_ifs with hpast
      · exact ih present
      · rintro volume ⟨unsynced, hat, rfl, hbeyond⟩
        have hstay : Faulty faults → ∀ volume, At faults synced unsynced volume → keep volume :=
          fun hfaulty volume hat => hkeep hfaulty _ volume ⟨unsynced, hat, rfl, hbeyond⟩
        have hoffset : ∀ data, Beyond (.Write (HEADER_BYTES + index * head.pageSize) data) :=
          fun _ => Nat.le_add_right _ _
        refine Halts.bind (seek_spec hstay _) (fun _ => Halts.bind (writeAll_spec ?_) fun _ => ?_)
          volume hat
        · intro n fault hfault volume hat
          exact hkeep ⟨n, by rw [hfault]; exact Option.some_ne_none fault⟩ _ volume
            (Body.change (hoffset _) hbeyond hat)
        · exact fun volume hat => ih (present.set index) volume (Body.change (hoffset data) hbeyond hat)

theorem finish_spec {head : Head} {present : Present} {good : Unit → Volume → Prop}
    (hheader : Triple (At faults (bodied file head present) []) (writeHeader head CLEAN)
      (Halts stuck keep good)) :
    Triple (Body faults synced file) (finish head present) (Halts stuck keep good) := by
  rintro volume ⟨unsynced, hat, rfl, hbeyond⟩
  have hstay : ∀ {unsynced}, (∀ change ∈ unsynced, Beyond change) → Faulty faults →
      ∀ volume, At faults synced unsynced volume → keep volume :=
    fun hbeyond hfaulty volume hat => hkeep hfaulty _ volume ⟨_, hat, rfl, hbeyond⟩
  have hbits : ∀ data, Beyond (.Write (bitsAt head) data) := fun _ => le_bitsAt head
  refine Halts.bind (seek_spec (hstay hbeyond) _) (fun _ => Halts.bind (writeAll_spec ?_) fun _ => ?_)
    volume hat
  · intro n fault hfault volume hat
    exact hkeep ⟨n, by rw [hfault]; exact Option.some_ne_none fault⟩ _ volume
      (Body.change (hbits _) hbeyond hat)
  intro volume hat
  obtain ⟨unsynced', hat', happlied, hbeyond'⟩ := Body.change (hbits present.bytes) hbeyond hat
  refine Halts.bind (setLen_spec (hstay hbeyond') _) (fun _ => ?_) volume hat'
  intro volume hat
  obtain ⟨unsynced'', hat'', happlied', hbeyond''⟩ := Body.change
    (show Beyond (.SetLen (bitsAt head + present.bytes.length)) from
      (le_bitsAt head).trans (Nat.le_add_right _ _)) hbeyond' hat
  refine Halts.bind (syncData_spec (hstay hbeyond'')) (fun _ => ?_) volume hat''
  rw [happlied', happlied]
  exact hheader

end Body

-- Where a change can stop: before the header is marked, while it is being marked, with a
-- marked header, and while the clean header is being written.
inductive Midway (faults : Nat → Option Fault) (file body : FlatFile UInt8) (first last : Bytes)
    (volume : Volume) : Prop where
  | Before (hat : At faults file [] volume)
  | Marking {n : Nat} {fault : Fault} (hlength : first.length = HEADER_BYTES)
      (hfault : faults n = some fault)
      (hat : At faults file [.Write 0 (first.take (fault.written 0))] volume)
  | Marked (hlength : first.length = HEADER_BYTES) (hat : At faults file [.Write 0 first] volume)
  | Changing {now : FlatFile UInt8} (hlength : first.length = HEADER_BYTES)
      (hbody : Body faults (file.put 0 first) now volume)
  | Changed (hlength : first.length = HEADER_BYTES)
      (hbeyond : body.cells 0 HEADER_BYTES = first ∧ HEADER_BYTES ≤ body.size)
      (hat : At faults body [] volume)
  | Finishing {n : Nat} {fault : Fault} (hlength : last.length = HEADER_BYTES)
      (hfault : faults n = some fault)
      (hbeyond : body.cells 0 HEADER_BYTES = first ∧ HEADER_BYTES ≤ body.size)
      (hat : At faults body [.Write 0 (last.take (fault.written 0))] volume)
  | Finished (hlength : last.length = HEADER_BYTES)
      (hbeyond : body.cells 0 HEADER_BYTES = first ∧ HEADER_BYTES ≤ body.size)
      (hat : At faults body [.Write 0 last] volume)

-- Changes beyond the header leave it alone.
theorem cells_beyond {unsynced : List FileChange} (h : ∀ change ∈ unsynced, Beyond change)
    (hsize : HEADER_BYTES ≤ file.size) :
    (applied file unsynced).cells 0 HEADER_BYTES = file.cells 0 HEADER_BYTES ∧
      HEADER_BYTES ≤ (applied file unsynced).size := by
  induction unsynced generalizing file with
  | nil => exact ⟨rfl, hsize⟩
  | cons change rest ih =>
      have hchange : Beyond change := h change List.mem_cons_self
      have hstep : (change.apply file).cells 0 HEADER_BYTES = file.cells 0 HEADER_BYTES ∧
          HEADER_BYTES ≤ (change.apply file).size := by
        cases change with
        | Write offset data =>
            have hoffset : HEADER_BYTES ≤ offset := hchange
            exact ⟨FlatFile.cells_put_beside _ (Or.inl (by omega)),
              hsize.trans (FlatFile.le_size_put _ _ _)⟩
        | SetLen size =>
            have hnew : HEADER_BYTES ≤ size := hchange
            refine ⟨FlatFile.cells_resize _ (by omega), ?_⟩
            rw [FileChange.apply, FlatFile.size_resize]
            exact hnew
      obtain ⟨hcells, hlarge⟩ := ih (fun change hmem => h change (List.mem_cons_of_mem _ hmem)) hstep.2
      exact ⟨hcells.trans hstep.1, hlarge⟩

theorem cells_put_header {bytes : Bytes} (h : bytes.length = HEADER_BYTES) (file : FlatFile UInt8) :
    (file.put 0 bytes).cells 0 HEADER_BYTES = bytes ∧ HEADER_BYTES ≤ (file.put 0 bytes).size := by
  refine ⟨?_, ?_⟩
  · rw [← h]
    exact FlatFile.cells_put_self file 0 bytes
  · rw [FlatFile.size_put]
    split_ifs with hnil
    · rw [hnil] at h
      cases h
    · omega

-- The part of a change after its header is marked.
theorem finish_midway {head : Head} {present : Present} {first : Bytes}
    (hlength : first.length = HEADER_BYTES) {now : FlatFile UInt8} :
    Triple (Body faults (file.put 0 first) now) (finish head present)
      (Halts (¬head.Named) (fun volume => Midway faults file (bodied now head present) first (layout head CLEAN) volume ∧
          (Faulty faults ∨ ¬head.Named))
        fun _ volume => At faults (finished now head present) [] volume ∧ head.Named) := by
  intro volume hbody
  obtain ⟨unsynced, hat, happlied, hbeyond⟩ := hbody
  have hheader : (bodied now head present).cells 0 HEADER_BYTES = first ∧
      HEADER_BYTES ≤ (bodied now head present).size := by
    obtain ⟨hfirst, hsize⟩ := cells_put_header hlength file
    have hnow := cells_beyond hbeyond hsize
    rw [happlied, hfirst] at hnow
    have hchanges : ∀ change ∈ ([.Write (bitsAt head) present.bytes,
        .SetLen (bitsAt head + present.bytes.length)] : List FileChange), Beyond change := by
      intro change hmem
      simp only [List.mem_cons, List.not_mem_nil, or_false] at hmem
      rcases hmem with rfl | rfl
      · exact le_bitsAt head
      · exact (le_bitsAt head).trans (Nat.le_add_right _ _)
    have hbodied := cells_beyond hchanges hnow.2
    exact ⟨hbodied.1.trans hnow.1, hbodied.2⟩
  refine finish_spec (fun hfaulty _ volume hbody => ⟨.Changing hlength hbody, Or.inl hfaulty⟩)
    (Halts.mono (writeHeader_spec id ?_ ?_ ?_ ?_) (fun _ h => h) fun _ _ h => ⟨h.1, named_of_length h.2⟩)
    volume ⟨unsynced, hat, happlied, hbeyond⟩
  · exact fun hunnamed volume hat => ⟨.Changed hlength hheader hat, Or.inr hunnamed⟩
  · exact fun hfaulty volume hat => ⟨.Changed hlength hheader hat, Or.inl hfaulty⟩
  · intro hlast n fault hfault volume hat
    exact ⟨.Finishing hlast hfault hheader hat, Or.inl ⟨n, by rw [hfault]; exact Option.some_ne_none _⟩⟩
  · exact fun hlast hfaulty volume hat => ⟨.Finished hlast hheader hat, Or.inl hfaulty⟩

-- Marking the header, then the rest of the change.
theorem marked_midway {head before : Head} {body : FlatFile UInt8} {rest : Prog Volume String Unit}
    {good : Unit → Volume → Prop} (hnamed : head.Named → before.Named)
    (hrest : (layout before WRITING).length = HEADER_BYTES →
      Triple (At faults (marked file before) []) rest (Halts (¬head.Named) (fun volume =>
        Midway faults file body (layout before WRITING) (layout head CLEAN) volume ∧
          (Faulty faults ∨ ¬head.Named)) good)) :
    Triple (At faults file []) (do writeHeader before WRITING; rest) (Halts (¬head.Named) (fun volume =>
        Midway faults file body (layout before WRITING) (layout head CLEAN) volume ∧
          (Faulty faults ∨ ¬head.Named)) good) := by
  refine Halts.bind (writeHeader_spec (fun hnot h => hnot (hnamed h)) ?_ ?_ ?_ ?_) fun _ => ?_
  · exact fun hnot volume hat => ⟨.Before hat, Or.inr fun h => hnot (hnamed h)⟩
  · exact fun hfaulty volume hat => ⟨.Before hat, Or.inl hfaulty⟩
  · intro hlength n fault hfault volume hat
    exact ⟨.Marking hlength hfault hat, Or.inl ⟨n, by rw [hfault]; exact Option.some_ne_none _⟩⟩
  · exact fun hlength hfaulty volume hat => ⟨.Marked hlength hat, Or.inl hfaulty⟩
  · exact fun volume h => hrest h.2 volume h.1

theorem body_nil {volume : Volume} (h : At faults file [] volume) : Body faults file file volume :=
  ⟨[], h, rfl, fun _ hmem => by cases hmem⟩

theorem write_spec (head : Head) (blocks : List (Nat × Bytes)) :
    Triple (At faults file []) (write head blocks) (Halts (¬head.Named) (fun volume =>
        Midway faults file (bodied (blocked head blocks (marked file (stale file head))) head
          (marks head blocks (kept file head.pageCount))) (layout (stale file head) WRITING)
          (layout head CLEAN) volume ∧ (Faulty faults ∨ ¬head.Named))
      fun _ volume => At faults (written file head blocks) [] volume ∧ head.Named) := by
  refine Halts.bind (readHeader_spec fun hfaulty volume hat => ⟨.Before hat, Or.inl hfaulty⟩)
    fun header => ?_
  rintro volume ⟨hat, rfl⟩
  refine Halts.bind (keptPresent_spec (fun hfaulty volume hat => ⟨.Before hat, Or.inl hfaulty⟩)
    head.pageCount) (fun present => ?_) volume hat
  rintro volume ⟨hat, rfl⟩
  refine marked_midway (fun h => stale_named h file) (fun hlength => ?_) volume hat
  have hkeep : Faulty faults → ∀ now volume, Body faults (marked file (stale file head)) now volume →
      Midway faults file (bodied (blocked head blocks (marked file (stale file head))) head
        (marks head blocks (kept file head.pageCount))) (layout (stale file head) WRITING)
        (layout head CLEAN) volume ∧ (Faulty faults ∨ ¬head.Named) :=
    fun hfaulty _ volume hbody => ⟨.Changing hlength hbody, Or.inl hfaulty⟩
  refine Halts.bind (openFile_spec fun hfaulty volume hat => hkeep hfaulty _ volume (body_nil hat))
    fun _ => ?_
  refine fun volume hat => Halts.bind (writeBlocks_spec hkeep head blocks _) (fun present => ?_) volume
    (body_nil hat)
  rintro volume ⟨rfl, hbody⟩
  exact finish_midway hlength volume hbody

theorem forget_spec {before : Head} {state : UInt8} (hheader : headerOf file = some (before, state))
    (head : Head) (blocks : List Nat) :
    Triple (At faults file []) (forget head blocks) (Halts (¬head.Named) (fun volume =>
        Midway faults file (bodied (marked file before) head
          (blocks.foldl Present.clear (kept file head.pageCount))) (layout before WRITING)
          (layout head CLEAN) volume ∧ (Faulty faults ∨ ¬head.Named))
      fun _ volume => At faults (forgotten file head blocks) [] volume ∧ head.Named) := by
  refine Halts.bind (readHeader_spec fun hfaulty volume hat => ⟨.Before hat, Or.inl hfaulty⟩)
    fun header => ?_
  rintro volume ⟨hat, rfl⟩
  change At faults file [] volume at hat
  have hstale : stale file head = before := by rw [stale, hheader]; rfl
  have hkept : kept file head.pageCount = (presentOf file before).resized head.pageCount := by
    rw [kept, hheader]
  rw [show applied file [] = file from rfl, hheader, forgotten, hstale, hkept]
  refine Halts.bind (readPresent_spec (fun hfaulty volume hat => ⟨.Before hat, Or.inl hfaulty⟩)
    before) (fun present => ?_) volume hat
  rintro volume ⟨hat, rfl⟩
  refine marked_midway (fun _ => (headerOf_fits hheader).names) (fun hlength => ?_) volume hat
  refine Halts.bind (openFile_spec fun hfaulty volume hat =>
    ⟨.Changing hlength (body_nil hat), Or.inl hfaulty⟩) fun _ volume hat => ?_
  exact finish_midway hlength volume (body_nil hat)

-- Without a copy nothing is done.
theorem forget_missing (hheader : headerOf file = none) (head : Head) (blocks : List Nat) :
    Triple (At faults file []) (forget head blocks) fun o volume => At faults file [] volume ∧
      (Faulty faults ∨ o = .err "no local copy to catch up") := by
  have hread : Triple (At faults file []) readHeader (Halts False (fun volume => At faults file [] volume ∧
      Faulty faults) fun header volume => At faults file [] volume ∧ header = headerOf file) :=
    readHeader_spec fun hfaulty volume hat => ⟨hat, hfaulty⟩
  intro volume hat
  have hafter := hread volume hat
  rw [forget, bind_apply]
  generalize readHeader volume = run at hafter ⊢
  rcases run with ⟨header | reason | _, after⟩
  · obtain ⟨hat', rfl⟩ := hafter
    rw [hheader]
    exact ⟨hat', Or.inr rfl⟩
  · exact ⟨hafter.1, Or.inl hafter.2⟩
  · exact hafter.1.elim

theorem clear_spec : Triple (fun volume => volume.faults = faults) clear
    (Halts stuck (fun volume => volume.faults = faults ∧ Faulty faults) fun _ => At faults .empty []) := by
  have hclosed : Triple (fun volume => volume.faults = faults)
      (Prog.modify fun volume => { volume with opened := false } : Prog Volume String Unit)
      (Halts stuck (fun volume => volume.faults = faults ∧ Faulty faults)
        fun _ volume => volume.faults = faults) := fun _ h => h
  refine Halts.bind hclosed fun _ => ?_
  refine call_spec (fun fault volume h hfault => ⟨h, volume.calls, ?_⟩) ?_
  · rw [← h, hfault]
    exact Option.some_ne_none fault
  · rintro volume ⟨calls, h⟩
    exact ⟨h, rfl, rfl⟩

end FileStore

end RemoteVfs
