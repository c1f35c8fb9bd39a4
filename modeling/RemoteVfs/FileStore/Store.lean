import RemoteVfs.FileStore.Run

namespace RemoteVfs

open Base Base.Prog

-- The store after the program was started again.
def Volume.reopen (file : FlatFile UInt8) : Volume := ⟨file, [], false, 0, fun _ => none, 0⟩

-- The calls that change the copy.
inductive StoreOp where
  | Write (head : Head) (blocks : List (Nat × Bytes))
  | Forget (head : Head) (blocks : List Nat)
  | Clear
  deriving DecidableEq, Repr

namespace StoreOp

def run : StoreOp → Prog Volume String Unit
  | Write head blocks => FileStore.write head blocks
  | Forget head blocks => FileStore.forget head blocks
  | Clear => FileStore.clear

-- The store after some calls, however they ended.
def runAll (ops : List StoreOp) (volume : Volume) : Volume :=
  ops.foldl (fun volume op => (op.run volume).2) volume

-- What they do to the map of the blocks.
def onDisk (disk : Disk) : StoreOp → Disk
  | Write head blocks => disk.write head blocks
  | Forget head blocks => if disk.header.isNone then disk else disk.forget head blocks
  | Clear => .empty

-- Only a copy that is there can be caught up.
def answer (disk : Disk) : StoreOp → Outcome String Unit
  | Forget _ _ => if disk.header.isNone then .err "no local copy to catch up" else .ok ()
  | _ => .ok ()

-- Heads that the header can hold, with one page size, and whole blocks.
def Valid (pageSize : Nat) : StoreOp → Prop
  | Write head blocks => head.Fits ∧ head.pageSize = pageSize ∧
      ∀ entry ∈ blocks, entry.2.length = pageSize
  | Forget head _ => head.Fits ∧ head.pageSize = pageSize
  | Clear => True

instance (pageSize : Nat) (op : StoreOp) : Decidable (op.Valid pageSize) := by
  cases op <;> unfold Valid <;> infer_instance

end StoreOp

namespace FileStore

open Volume

def calm : Nat → Option Fault := fun _ => none

theorem not_faulty_calm : ¬Faulty calm := fun ⟨_, h⟩ => h rfl

variable {file : FlatFile UInt8} {volume : Volume} {pageSize : Nat} {disk : Disk}

-- The file is the map, as long as no call fails.
def Stores (pageSize : Nat) (disk : Disk) (volume : Volume) : Prop :=
  ∃ file, At calm file [] volume ∧ Regular pageSize file ∧ diskOf file = disk

-- Without faults a program ends with a value.
theorem ok_of_halts {α : Type} {o : Outcome String α} {stuck : Prop} {good : α → Volume → Prop}
    (h : Halts stuck (fun _ => False) good o volume) : ∃ value, o = .ok value ∧ good value volume := by
  cases o with
  | ok value => exact ⟨value, rfl, h⟩
  | err reason => exact h.elim
  | hang => exact h.2.elim

theorem ok_of_calm {α : Type} {o : Outcome String α} {good : α → Volume → Prop}
    (h : Halts False (fun _ => False) good o volume) : ∃ value, o = .ok value ∧ good value volume :=
  ok_of_halts h

theorem stores_step (h : Stores pageSize disk volume) {op : StoreOp} (hop : op.Valid pageSize) :
    (op.run volume).1 = op.answer disk ∧ Stores pageSize (op.onDisk disk) (op.run volume).2 := by
  obtain ⟨file, hat, hregular, rfl⟩ := h
  cases op with
  | Write head blocks =>
      obtain ⟨hfits, rfl, hsized⟩ := hop
      have hspec := Halts.mono (write_spec head blocks) (fun _ h => h.2.elim not_faulty_calm
        fun hunnamed => hunnamed hfits.names) (fun _ _ h => h) volume hat
      obtain ⟨_, hok, hafter, -⟩ := ok_of_halts hspec
      exact ⟨hok, _, hafter, regular_written hfits, diskOf_written hfits hregular rfl hsized⟩
  | Forget head blocks =>
      obtain ⟨hfits, rfl⟩ := hop
      simp only [StoreOp.run, StoreOp.answer, StoreOp.onDisk]
      cases hheader : headerOf file with
      | none =>
          have hnone : (diskOf file).header.isNone = true := by simp [diskOf, hheader]
          obtain ⟨hafter, herr⟩ := forget_missing hheader head blocks volume hat
          rw [if_pos hnone, if_pos hnone]
          exact ⟨herr.resolve_left not_faulty_calm, file, hafter, hregular, rfl⟩
      | some header =>
          have hsome : ¬(diskOf file).header.isNone = true := by simp [diskOf, hheader]
          have hspec := Halts.mono (forget_spec hheader head blocks) (fun _ h =>
            h.2.elim not_faulty_calm fun hunnamed => hunnamed hfits.names) (fun _ _ h => h) volume hat
          obtain ⟨_, hok, hafter, -⟩ := ok_of_halts hspec
          rw [if_neg hsome, if_neg hsome]
          exact ⟨hok, _, hafter, regular_forgotten hfits blocks, diskOf_forgotten hfits hregular rfl blocks⟩
  | Clear =>
      obtain ⟨_, hok, hafter⟩ := ok_of_calm
        (Halts.mono clear_spec (fun _ h => not_faulty_calm h.2) (fun _ _ h => h) volume hat.faults)
      exact ⟨hok, .empty, hafter, regular_empty pageSize, diskOf_empty⟩

theorem stores_run {ops : List StoreOp} (hops : ∀ op ∈ ops, op.Valid pageSize)
    (h : Stores pageSize disk volume) : Stores pageSize (ops.foldl StoreOp.onDisk disk)
      (StoreOp.runAll ops volume) := by
  induction ops generalizing disk volume with
  | nil => exact h
  | cons op rest ih =>
      exact ih (fun op hop => hops op (List.mem_cons_of_mem _ hop))
        (stores_step h (hops op List.mem_cons_self)).2

theorem stores_reopen (pageSize : Nat) : Stores pageSize .empty (reopen .empty) :=
  ⟨.empty, ⟨rfl, rfl, rfl⟩, regular_empty pageSize, diskOf_empty⟩

theorem stores_head (h : Stores pageSize disk volume) :
    (head volume).1 = .ok disk.head ∧ Stores pageSize disk (head volume).2 := by
  obtain ⟨file, hat, hregular, rfl⟩ := h
  obtain ⟨value, hok, hafter, rfl⟩ := ok_of_calm
    (head_spec (fun hfaulty _ _ => not_faulty_calm hfaulty) _ hat)
  exact ⟨hok, file, hafter, hregular, rfl⟩

theorem stores_read (h : Stores pageSize disk volume) {first count : Nat}
    (hcount : first + count < 2 ^ 64) :
    (read first count volume).1 = .ok (disk.read first count) ∧
      Stores pageSize disk (read first count volume).2 := by
  obtain ⟨file, hat, hregular, rfl⟩ := h
  obtain ⟨value, hok, hafter, -, hvalue⟩ := ok_of_calm
    (read_spec (fun hfaulty _ _ => not_faulty_calm hfaulty) first count _ hat)
  refine ⟨?_, file, hafter, hregular, rfl⟩
  rw [hok, hvalue hcount]
  rfl

-- The cache file is a partial map from block numbers to blocks.
theorem store_is_block_map {ops : List StoreOp} (hops : ∀ op ∈ ops, op.Valid pageSize) :
    (head (StoreOp.runAll ops (reopen .empty))).1 =
        .ok (ops.foldl StoreOp.onDisk .empty).head ∧
      (∀ first count, first + count < 2 ^ 64 →
        (read first count (StoreOp.runAll ops (reopen .empty))).1 =
          .ok ((ops.foldl StoreOp.onDisk .empty).read first count)) ∧
      ∀ op : StoreOp, op.Valid pageSize →
        (op.run (StoreOp.runAll ops (reopen .empty))).1 =
          op.answer (ops.foldl StoreOp.onDisk .empty) := by
  have hstores := stores_run hops (stores_reopen pageSize)
  refine ⟨(stores_head hstores).1, ?_, fun op hop => (stores_step hstores hop).1⟩
  intro first count hcount
  exact (stores_read hstores hcount).1

def sampleHead (pageCount version : Nat) : Head := ⟨"alice", "db", 2, pageCount, version⟩

-- The bitmap moves into the place of later blocks when the file shrinks, and of earlier
-- ones when it grows.
def sampleOps : List StoreOp :=
  [.Write (sampleHead 9 1) [(0, [1, 1]), (8, [8, 8])], .Forget (sampleHead 1 2) [],
    .Write (sampleHead 10 3) [(1, [2, 2]), (12, [7, 7])]]

theorem store_is_block_map_moved :
    (∀ op ∈ sampleOps, op.Valid 2) ∧
      (head (StoreOp.runAll sampleOps (reopen .empty))).1 = .ok (some (sampleHead 10 3)) ∧
      (read 0 9 (StoreOp.runAll sampleOps (reopen .empty))).1 = .ok [[1, 1], [2, 2]] ∧
      (read 8 1 (StoreOp.runAll sampleOps (reopen .empty))).1 = .ok [] := by
  have hvalid : ∀ op ∈ sampleOps, op.Valid 2 := by decide +kernel
  obtain ⟨hhead, hread, -⟩ := store_is_block_map hvalid
  refine ⟨hvalid, ?_, ?_, ?_⟩
  · rw [hhead]
    decide +kernel
  · rw [hread 0 9 (by decide)]
    decide +kernel
  · rw [hread 8 1 (by decide)]
    decide +kernel

theorem write_unnamed {head : Head} (h : ¬head.Named) (blocks : List (Nat × Bytes)) :
    (write head blocks (reopen .empty)).1 = .hang := by
  have hheader : (readHeader (reopen .empty)).1 = .ok none := by decide +kernel
  have hencode : encode { head with version := 0 } WRITING = none := if_neg h
  have hstuck : writeHeader { head with version := 0 } WRITING = Prog.stuck := by
    rw [writeHeader, hencode]
  rw [write, Prog.bind_ok _ (Prod.ext hheader rfl)]
  change ((writeHeader { head with version := 0 } WRITING).bind _ _).1 = _
  rw [hstuck]
  rfl

theorem length_text_replicate (count : Nat) :
    (text (.ofList (List.replicate count 'a'))).length = count := by
  induction count with
  | zero => rfl
  | succ count ih =>
      have hone : ['a'].utf8Encode.size = 1 := rfl
      simp only [text, String.toUTF8_eq_toByteArray, String.toByteArray_ofList, Array.length_toList,
        ByteArray.size_data] at ih ⊢
      rw [List.replicate_succ, List.utf8Encode_cons, ByteArray.size_append, ih, hone, Nat.add_comm]

-- Names of 4061 bytes, one more than the header has room for.
def longNamed : Head := { sampleHead 1 1 with subject := .ofList (List.replicate 4059 'a') }

-- The sum of the first block and the count of a read is one of 64 bits: here it is 0, so nothing is
-- returned, although the block is there. A head that is only forgotten to does not come back from a
-- store without a copy, and a write with long names panics.
theorem store_is_no_block_map :
    ((read 1 (2 ^ 64 - 1) (StoreOp.runAll [.Write (sampleHead 2 1) [(0, [1, 1]), (1, [2, 2])]]
        (reopen .empty))).1 = .ok [] ∧
      ([StoreOp.Write (sampleHead 2 1) [(0, [1, 1]), (1, [2, 2])]].foldl StoreOp.onDisk
        .empty).holds 1 = some [2, 2] ∧
      ∀ op ∈ [StoreOp.Write (sampleHead 2 1) [(0, [1, 1]), (1, [2, 2])]], op.Valid 2) ∧
    ((forget (sampleHead 1 1) [] (reopen .empty)).1 = .err "no local copy to catch up" ∧
      (head (StoreOp.runAll [.Forget (sampleHead 1 1) []] (reopen .empty))).1 = .ok none) ∧
    (write longNamed [] (reopen .empty)).1 = .hang := by
  have hlong : ¬longNamed.Named := by
    have hlength : (text longNamed.subject).length = 4059 := length_text_replicate 4059
    have hdbId : (text longNamed.dbId).length = 2 := by decide
    unfold Head.Named HEADER_BYTES
    omega
  refine ⟨⟨?_, ?_, ?_⟩, ⟨?_, ?_⟩, write_unnamed hlong []⟩ <;> decide +kernel

end FileStore

end RemoteVfs
