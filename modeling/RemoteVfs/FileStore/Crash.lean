import RemoteVfs.FileStore.Store

namespace RemoteVfs

open Base Base.Prog

-- What can be left on the disk by a crash: what was synced, and any of the changes since.
def Volume.Crashed (volume : Volume) (file : FlatFile UInt8) : Prop :=
  ∃ changes, changes.Sublist volume.unsynced ∧ file = Volume.applied volume.synced changes

-- The header is at the start of the file, and is written as a whole or not at all.
def Atomic (faults : Nat → Option Fault) : Prop :=
  ∀ n fault, faults n = some fault → fault.written 0 = 0 ∨ HEADER_BYTES ≤ fault.written 0

namespace FileStore

open Volume

variable {faults : Nat → Option Fault} {file image body : FlatFile UInt8} {volume : Volume}

def Untrusted (file : FlatFile UInt8) : Prop :=
  ∀ head state, headerOf file = some (head, state) → state ≠ CLEAN

theorem untrusted_of_cells {before : Head} (hsize : HEADER_BYTES ≤ file.size)
    (h : file.cells 0 HEADER_BYTES = layout before WRITING) : Untrusted file := by
  intro head state hheader
  rw [headerOf, if_neg (Nat.not_lt.mpr hsize)] at hheader
  have hstate := (decode_some (FlatFile.length_cells _ _ _) hheader).1
  rw [h, state_layout] at hstate
  rw [hstate]
  decide

-- Nothing is read from a header that is marked.
theorem head_untrusted (h : Untrusted file) : (head (reopen file)).1 = .ok none := by
  have hat : At calm file [] (reopen file) := ⟨rfl, rfl, rfl⟩
  obtain ⟨value, hok, -, rfl⟩ := ok_of_calm
    (head_spec (fun hfaulty _ _ => not_faulty_calm hfaulty) (reopen file) hat)
  rw [hok]
  congr 1
  change (diskOf file).head = none
  unfold Disk.head diskOf
  cases hheader : headerOf file with
  | none => rfl
  | some header => simp [h header.1 header.2 hheader]

theorem read_untrusted (h : Untrusted file) (first count : Nat) :
    (read first count (reopen file)).1 = .ok [] := by
  have hat : At calm file [] (reopen file) := ⟨rfl, rfl, rfl⟩
  obtain ⟨header, hok, -, rfl⟩ := ok_of_calm
    (readHeader_spec (fun hfaulty _ _ => not_faulty_calm hfaulty) (reopen file) hat)
  rw [read, bind_ok _ (Prod.ext hok rfl)]
  change (_ : Outcome String (List Bytes) × Volume).1 = _
  rw [show applied file [] = file from rfl]
  cases hheader : headerOf file with
  | none => rfl
  | some header =>
      dsimp only
      rw [if_pos (h header.1 header.2 hheader)]
      rfl

-- A header that is written as a whole or not at all.
theorem put_atomic (hatomic : Atomic faults) {n : Nat} {fault : Fault} (hfault : faults n = some fault)
    {bytes : Bytes} (hlength : bytes.length = HEADER_BYTES) (file : FlatFile UInt8) :
    file.put 0 (bytes.take (fault.written 0)) = file ∨
      file.put 0 (bytes.take (fault.written 0)) = file.put 0 bytes := by
  rcases hatomic n fault hfault with hnone | hall
  · rw [hnone, List.take_zero]
    exact Or.inl (FlatFile.write_nil file 1 Nat.one_pos 0)
  · rw [List.take_of_length_le (by omega)]
    exact Or.inr rfl

theorem crashed_nil (hat : At faults file [] volume) (h : volume.Crashed image) : image = file := by
  obtain ⟨changes, hsub, rfl⟩ := h
  rw [hat.unsynced, List.sublist_nil] at hsub
  rw [hsub, hat.synced]
  rfl

theorem crashed_one {change : FileChange} (hat : At faults file [change] volume)
    (h : volume.Crashed image) : image = file ∨ image = change.apply file := by
  obtain ⟨changes, hsub, rfl⟩ := h
  rw [hat.unsynced] at hsub
  rw [hat.synced]
  rcases List.sublist_singleton.mp hsub with rfl | rfl
  · exact Or.inl rfl
  · exact Or.inr rfl

-- Wherever a change stops.
theorem midway_crashed {before : Head} {last : Bytes} (hatomic : Atomic faults)
    (h : Midway faults file body (layout before WRITING) last volume) (hcrash : volume.Crashed image) :
    image = file ∨ Untrusted image ∨
      (last.length = HEADER_BYTES ∧ image = body.put 0 last) := by
  have hput : ∀ {file : FlatFile UInt8}, (layout before WRITING).length = HEADER_BYTES →
      Untrusted (file.put 0 (layout before WRITING)) := fun hlength =>
    untrusted_of_cells (cells_put_header hlength _).2 (cells_put_header hlength _).1
  cases h with
  | Before hat => exact Or.inl (crashed_nil hat hcrash)
  | Marking hlength hfault hat =>
      rcases crashed_one hat hcrash with rfl | rfl
      · exact Or.inl rfl
      · rcases put_atomic hatomic hfault hlength file with heq | heq
        · exact Or.inl heq
        · exact Or.inr (Or.inl ((congrArg Untrusted heq).mpr (hput hlength)))
  | Marked hlength hat =>
      rcases crashed_one hat hcrash with rfl | rfl
      · exact Or.inl rfl
      · exact Or.inr (Or.inl (hput hlength))
  | Changing hlength hbody =>
      obtain ⟨unsynced, hat, -, hbeyond⟩ := hbody
      obtain ⟨changes, hsub, rfl⟩ := hcrash
      rw [hat.unsynced] at hsub
      obtain ⟨hfirst, hsize⟩ := cells_put_header hlength file
      obtain ⟨hcells, hlarge⟩ := cells_beyond (fun change hmem => hbeyond change (hsub.subset hmem)) hsize
      rw [hat.synced]
      exact Or.inr (Or.inl (untrusted_of_cells hlarge (hcells.trans hfirst)))
  | Changed _ hbeyond hat =>
      rw [crashed_nil hat hcrash]
      exact Or.inr (Or.inl (untrusted_of_cells hbeyond.2 hbeyond.1))
  | Finishing hlength hfault hbeyond hat =>
      rcases crashed_one hat hcrash with rfl | rfl
      · exact Or.inr (Or.inl (untrusted_of_cells hbeyond.2 hbeyond.1))
      · rcases put_atomic hatomic hfault hlength body with heq | heq
        · exact Or.inr (Or.inl ((congrArg Untrusted heq).mpr (untrusted_of_cells hbeyond.2 hbeyond.1)))
        · exact Or.inr (Or.inr ⟨hlength, heq⟩)
  | Finished hlength hbeyond hat =>
      rcases crashed_one hat hcrash with rfl | rfl
      · exact Or.inr (Or.inl (untrusted_of_cells hbeyond.2 hbeyond.1))
      · exact Or.inr (Or.inr ⟨hlength, rfl⟩)

-- The file that the change leaves if nothing fails.
theorem write_calm {head : Head} (hnamed : head.Named) (file : FlatFile UInt8)
    (blocks : List (Nat × Bytes)) :
    (write head blocks (reopen file)).2.content = written file head blocks := by
  have hat : At calm file [] (reopen file) := ⟨rfl, rfl, rfl⟩
  obtain ⟨_, -, hafter, -⟩ := ok_of_halts (Halts.mono (write_spec head blocks) (fun _ h =>
    h.2.elim not_faulty_calm fun hunnamed => hunnamed hnamed) (fun _ _ h => h) (reopen file) hat)
  exact hafter.content

theorem forget_calm {head before : Head} {state : UInt8} (hnamed : head.Named)
    (hheader : headerOf file = some (before, state)) (blocks : List Nat) :
    (forget head blocks (reopen file)).2.content = forgotten file head blocks := by
  have hat : At calm file [] (reopen file) := ⟨rfl, rfl, rfl⟩
  obtain ⟨_, -, hafter, -⟩ := ok_of_halts (Halts.mono (forget_spec hheader head blocks) (fun _ h =>
    h.2.elim not_faulty_calm fun hunnamed => hunnamed hnamed) (fun _ _ h => h) (reopen file) hat)
  exact hafter.content

-- The same copy is seen by whoever opens the file.
def SameCopy (file file' : FlatFile UInt8) : Prop :=
  (head (reopen file)).1 = (head (reopen file')).1 ∧
    ∀ first count, (read first count (reopen file)).1 = (read first count (reopen file')).1

theorem write_crashed (hatomic : Atomic faults) (hat : At faults file [] volume) (head : Head)
    (blocks : List (Nat × Bytes)) (hcrash : (write head blocks volume).2.Crashed image) :
    image = file ∨ Untrusted image ∨ image = (write head blocks (reopen file)).2.content := by
  have hspec := write_spec head blocks volume hat
  generalize write head blocks volume = run at hspec hcrash
  obtain ⟨result, after⟩ := run
  have hstopped : ∀ {after : Volume}, Midway faults file
      (bodied (blocked head blocks (marked file (stale file head))) head
        (marks head blocks (kept file head.pageCount))) (layout (stale file head) WRITING)
        (layout head CLEAN) after → after.Crashed image →
      image = file ∨ Untrusted image ∨ image = (write head blocks (reopen file)).2.content := by
    intro after hmidway hcrash
    rcases midway_crashed hatomic hmidway hcrash with hold | huntrusted | ⟨hlength, hnew⟩
    · exact Or.inl hold
    · exact Or.inr (Or.inl huntrusted)
    · rw [write_calm (named_of_length hlength)]
      exact Or.inr (Or.inr hnew)
  cases result with
  | ok value =>
      rw [write_calm hspec.2]
      exact Or.inr (Or.inr (crashed_nil hspec.1 hcrash))
  | err reason => exact hstopped hspec.1 hcrash
  | hang => exact hstopped hspec.2.1 hcrash

theorem forget_crashed (hatomic : Atomic faults) (hat : At faults file [] volume) (head : Head)
    (blocks : List Nat) (hcrash : (forget head blocks volume).2.Crashed image) :
    image = file ∨ Untrusted image ∨ image = (forget head blocks (reopen file)).2.content := by
  cases hheader : headerOf file with
  | none => exact Or.inl (crashed_nil (forget_missing hheader head blocks volume hat).1 hcrash)
  | some header =>
      obtain ⟨before, state⟩ := header
      have hspec := forget_spec hheader head blocks volume hat
      generalize forget head blocks volume = run at hspec hcrash
      obtain ⟨result, after⟩ := run
      have hstopped : ∀ {after : Volume}, Midway faults file (bodied (marked file before) head
          (blocks.foldl Present.clear (kept file head.pageCount))) (layout before WRITING)
          (layout head CLEAN) after → after.Crashed image →
          image = file ∨ Untrusted image ∨ image = (forget head blocks (reopen file)).2.content := by
        intro after hmidway hcrash
        rcases midway_crashed hatomic hmidway hcrash with hold | huntrusted | ⟨hlength, hnew⟩
        · exact Or.inl hold
        · exact Or.inr (Or.inl huntrusted)
        · rw [forget_calm (named_of_length hlength) hheader, forgotten, stale, hheader]
          exact Or.inr (Or.inr hnew)
      cases result with
      | ok value =>
          rw [forget_calm hspec.2 hheader]
          exact Or.inr (Or.inr (crashed_nil hspec.1 hcrash))
      | err reason => exact hstopped hspec.1 hcrash
      | hang => exact hstopped hspec.2.1 hcrash

theorem op_crashed {op : StoreOp} (hop : op ≠ .Clear) (hsynced : volume.unsynced = [])
    (hatomic : Atomic volume.faults) (hcrash : (op.run volume).2.Crashed image) :
    image = volume.synced ∨ Untrusted image ∨ image = (op.run (reopen volume.synced)).2.content := by
  have hat : At volume.faults volume.synced [] volume := ⟨rfl, rfl, hsynced⟩
  cases op with
  | Write head blocks => exact write_crashed hatomic hat head blocks hcrash
  | Forget head blocks => exact forget_crashed hatomic hat head blocks hcrash
  | Clear => exact absurd rfl hop

-- Wherever a change is interrupted, the copy is the old one, the new one, or not trusted.
theorem crash_leaves_old_or_new {op : StoreOp} (hop : op ≠ .Clear) (hsynced : volume.unsynced = [])
    (hatomic : Atomic volume.faults) (hcrash : (op.run volume).2.Crashed image) :
    ((head (reopen image)).1 = .ok none ∧
        ∀ first count, (read first count (reopen image)).1 = .ok []) ∨
      SameCopy image volume.synced ∨
      SameCopy image (op.run (reopen volume.synced)).2.content := by
  rcases op_crashed hop hsynced hatomic hcrash with hold | huntrusted | hnew
  · exact Or.inr (Or.inl (hold ▸ ⟨rfl, fun _ _ => rfl⟩))
  · exact Or.inl ⟨head_untrusted huntrusted, read_untrusted huntrusted⟩
  · exact Or.inr (Or.inr (hnew ▸ ⟨rfl, fun _ _ => rfl⟩))

-- The disk fails while the bitmap is written.
def failing : Volume :=
  { reopen (StoreOp.runAll [.Write (sampleHead 1 1) [(0, [1, 1])]] (reopen .empty)).content with
    faults := fun n => if n = 15 then some ⟨"lost", fun _ => 0⟩ else none }

theorem failing_atomic : Atomic failing.faults := by
  intro n fault hfault
  simp only [failing] at hfault
  split_ifs at hfault
  exact Or.inl (by rw [← Option.some.inj hfault])

theorem crash_leaves_old_or_new_half_written :
    ∃ image, failing.unsynced = [] ∧ Atomic failing.faults ∧
      ((StoreOp.Write (sampleHead 2 2) [(0, [3, 3]), (1, [4, 4])]).run failing).2.Crashed image ∧
      (((head (reopen image)).1 = .ok none ∧
          ∀ first count, (read first count (reopen image)).1 = .ok []) ∨
        SameCopy image failing.synced ∨
        SameCopy image ((StoreOp.Write (sampleHead 2 2) [(0, [3, 3]), (1, [4, 4])]).run
          (reopen failing.synced)).2.content) ∧
      (diskOf image).header.map Prod.snd = some false := by
  have hchange : ((StoreOp.Write (sampleHead 2 2) [(0, [3, 3]), (1, [4, 4])]).run failing).2.unsynced.take 1 =
      [.Write 4096 [3, 3]] := by decide +kernel
  have hcrash : ((StoreOp.Write (sampleHead 2 2) [(0, [3, 3]), (1, [4, 4])]).run failing).2.Crashed
      (applied ((StoreOp.Write (sampleHead 2 2) [(0, [3, 3]), (1, [4, 4])]).run failing).2.synced
        [.Write 4096 [3, 3]]) := ⟨_, hchange ▸ List.take_sublist _ _, rfl⟩
  exact ⟨_, rfl, failing_atomic, hcrash, crash_leaves_old_or_new (by simp) rfl failing_atomic hcrash,
    by decide +kernel⟩

-- What becomes of the map: a call that was interrupted has taken effect or not.
inductive Mapped : List (StoreOp × Bool) → Disk → Prop
  | New : Mapped [] .empty
  | Applied {past disk} (op : StoreOp) (done : Bool) : Mapped past disk → Mapped ((op, done) :: past) (op.onDisk disk)
  | Lost {past disk} (op : StoreOp) : Mapped past disk → Mapped ((op, false) :: past) disk

def Cleared : List (StoreOp × Bool) → Prop
  | [] | (.Clear, true) :: _ => True
  | _ => False

-- The cache file after any number of programs have used it one after another, with their calls, the
-- last one first, and whether each was completed. A copy without a head is cleared before it is written.
inductive Lived (pageSize : Nat) : List (StoreOp × Bool) → FlatFile UInt8 → Prop
  | New : Lived pageSize [] .empty
  | Done {past file op} : Lived pageSize past file → op.Valid pageSize →
      op = .Clear ∨ Cleared past ∨ (head (reopen file)).1 ≠ .ok none →
      Lived pageSize ((op, true) :: past) (op.run (reopen file)).2.content
  | Crash {past volume op image} : Lived pageSize past volume.synced → op.Valid pageSize → op ≠ .Clear →
      Cleared past ∨ (head (reopen volume.synced)).1 ≠ .ok none → volume.unsynced = [] →
      Atomic volume.faults → (op.run volume).2.Crashed image → Lived pageSize ((op, false) :: past) image

variable {pageSize : Nat} {disk : Disk} {past : List (StoreOp × Bool)}

theorem stores_content (h : Stores pageSize disk volume) : Stores pageSize disk (reopen volume.content) := by
  obtain ⟨file, hat, hregular, hdisk⟩ := h
  rw [hat.content]
  exact ⟨file, ⟨rfl, rfl, rfl⟩, hregular, hdisk⟩

-- A file without a head that may be written is a new one.
def Sound (pageSize : Nat) (past : List (StoreOp × Bool)) (disk : Disk) (file : FlatFile UInt8) : Prop :=
  Stores pageSize disk (reopen file) ∨ Untrusted file ∧ ¬Cleared past

theorem Sound.stores (h : Sound pageSize past disk file)
    (hseen : Cleared past ∨ (head (reopen file)).1 ≠ .ok none) : Stores pageSize disk (reopen file) := by
  rcases h with hstores | ⟨huntrusted, hcleared⟩
  · exact hstores
  · exact absurd (head_untrusted huntrusted) (hseen.resolve_left hcleared)

theorem Lived.sound (h : Lived pageSize past file) : ∃ disk, Mapped past disk ∧ Sound pageSize past disk file := by
  induction h with
  | New => exact ⟨.empty, .New, Or.inl (stores_reopen pageSize)⟩
  | @Done past file op h hop hseen ih =>
      obtain ⟨disk, hmapped, hsound⟩ := ih
      refine ⟨_, hmapped.Applied op true, Or.inl ?_⟩
      by_cases hclear : op = .Clear
      · subst hclear
        obtain ⟨_, -, hat⟩ := ok_of_calm (Halts.mono clear_spec (fun _ h => not_faulty_calm h.2)
          (fun _ _ h => h) (reopen file) rfl)
        exact stores_content ⟨.empty, hat, regular_empty pageSize, diskOf_empty⟩
      · exact stores_content (stores_step (hsound.stores (hseen.resolve_left hclear)) hop).2
  | @Crash past volume op image h hop hclear hseen hsynced hatomic hcrash ih =>
      obtain ⟨disk, hmapped, hsound⟩ := ih
      have hstores := hsound.stores hseen
      have hpast : ¬Cleared ((op, false) :: past) := by cases op <;> exact id
      rcases op_crashed hclear hsynced hatomic hcrash with rfl | huntrusted | rfl
      · exact ⟨disk, hmapped.Lost op, Or.inl hstores⟩
      · exact ⟨disk, hmapped.Lost op, Or.inr ⟨huntrusted, hpast⟩⟩
      · exact ⟨_, hmapped.Applied op false, Or.inl (stores_content (stores_step hstores hop).2)⟩

end FileStore

end RemoteVfs
