import RemoteVfs.Session.Run

namespace RemoteVfs

open Base Base.Prog

namespace Disk

variable {disk : Disk} {server server' : Server} {image : Image} {subject dbId : String}

theorem holds_write (disk : Disk) (head : Head) (blocks : List (Nat × Bytes)) (i : Nat) :
    (disk.write head blocks).holds i = if i < head.pageCount then
      ((blocks.reverse.find? (·.1 = i)).map Prod.snd).or (disk.holds i) else none := by
  unfold write holds
  dsimp only
  split_ifs <;> rfl

theorem holds_forget (disk : Disk) (head : Head) (blocks : List Nat) (i : Nat) :
    (disk.forget head blocks).holds i =
      if i < head.pageCount ∧ i ∉ blocks then disk.holds i else none := by
  unfold forget
  rw [holds]
  dsimp only
  by_cases hi : i < head.pageCount
  · rw [if_pos hi]
  · rw [if_neg hi, if_neg fun h => hi h.1]

-- A read returns a run of held blocks.
theorem getElem?_read {first count k : Nat} {data : Bytes}
    (h : (disk.read first count)[k]? = some data) : disk.holds (first + k) = some data := by
  have hrun : ∀ (first count k : Nat), ((((List.range' first count).map disk.holds).takeWhile
      Option.isSome).filterMap id)[k]? = some data → disk.holds (first + k) = some data := by
    intro first count
    induction count generalizing first with
    | zero => intro k hk; simp at hk
    | succ count ih =>
        intro k hk
        rw [List.range'_succ, List.map_cons, List.takeWhile_cons] at hk
        cases hheld : disk.holds first with
        | none => simp [hheld] at hk
        | some block =>
            simp only [hheld, Option.isSome_some, if_true, List.filterMap_cons, id] at hk
            cases k with
            | zero =>
                rw [List.getElem?_cons_zero] at hk
                rw [Nat.add_zero, hheld, hk]
            | succ k =>
                rw [List.getElem?_cons_succ] at hk
                rw [← ih (first + 1) k hk]
                congr 1
                omega
  unfold read at h
  split at h
  · exact hrun first count k h
  · simp at h

theorem length_read_le (disk : Disk) (first count : Nat) : (disk.read first count).length ≤ count := by
  unfold read
  split
  · refine (List.length_filterMap_le _ _).trans ((List.takeWhile_prefix _).length_le.trans ?_)
    simp
  · simp

-- Every block that the copy holds is the image's.
def Exact (image : Image) (disk : Disk) : Prop :=
  ∀ i data, disk.holds i = some data → data = image.block i

-- Every block below the page count that the copy holds is the image's. Further blocks may
-- be left over from before the file was cut.
def Coherent (image : Image) (disk : Disk) : Prop :=
  ∀ i data, i < image.pageCount → disk.holds i = some data → data = image.block i

-- If the head of the copy is one of this database and no write was interrupted, the copy
-- is exact at the version of the head.
def Trusted (server : Server) (subject dbId : String) (disk : Disk) : Prop :=
  ∀ head, disk.head = some head → head.subject = subject → head.dbId = dbId →
    head.version ≤ server.version ∧ Exact (server.imageAt head.version) disk

theorem Exact.coherent (h : Exact image disk) : Coherent image disk := fun i data _ => h i data

theorem exact_empty (image : Image) : Exact image empty := fun _ _ h => by cases h

theorem trusted_empty (server : Server) (subject dbId : String) :
    Trusted server subject dbId empty := fun _ h => by cases h

theorem trusted_interrupted (disk : Disk) (server : Server) (subject dbId : String) (head : Head)
    (left : Nat → Option Bytes) : Trusted server subject dbId (disk.interrupted head left) :=
  fun _ h => by cases h

theorem Trusted.extend (h : Trusted server subject dbId disk) (hext : server.Extends server') :
    Trusted server' subject dbId disk := by
  intro head hhead hsubject hdbId
  obtain ⟨hversion, hexact⟩ := h head hhead hsubject hdbId
  exact ⟨hversion.trans hext.version_le, by rw [hext.imageAt hversion]; exact hexact⟩

theorem trusted_of_exact {head : Head} (hhead : disk.head = some head)
    (hversion : head.version ≤ server.version) (hexact : Exact (server.imageAt head.version) disk) :
    Trusted server subject dbId disk := by
  intro head' hhead' _ _
  rw [hhead] at hhead'
  cases hhead'
  exact ⟨hversion, hexact⟩

-- Blocks of the image, written over a copy whose other blocks are the image's.
theorem exact_write {head : Head} {blocks : List (Nat × Bytes)}
    (hblocks : ∀ entry ∈ blocks, entry.1 < head.pageCount → entry.2 = image.block entry.1)
    (hrest : ∀ i data, i < head.pageCount → i ∉ blocks.map Prod.fst → disk.holds i = some data →
      data = image.block i) : Exact image (disk.write head blocks) := by
  intro i data h
  rw [holds_write] at h
  split_ifs at h with hi
  cases hfind : blocks.reverse.find? (·.1 = i) with
  | none =>
      rw [hfind] at h
      refine hrest i data hi (fun hmem => ?_) h
      obtain ⟨entry, hentry, rfl⟩ := List.mem_map.mp hmem
      simpa using List.find?_eq_none.mp hfind entry (List.mem_reverse.mpr hentry)
  | some entry =>
      rw [hfind] at h
      obtain rfl : entry.2 = data := by simpa using h
      have hmem := List.mem_reverse.mp (List.mem_of_find?_eq_some hfind)
      obtain rfl : entry.1 = i := by simpa using List.find?_some hfind
      exact hblocks entry hmem hi

-- `K` is what holds of the disk at every moment, also after an interrupted write. `F` holds
-- of it once nothing is left to write.
structure Allows (K F : Disk → Prop) : Prop where
  always : ∀ disk, F disk → K disk
  interrupted : ∀ (disk : Disk) (head : Head) (left : Nat → Option Bytes), K (disk.interrupted head left)

-- What the disk may be while the jobs of a queue are done: a job that fails clears the copy.
def Queued (K F : Disk → Prop) : List (Head × List (Nat × Bytes)) → Disk → Prop
  | [], disk => F disk
  | (head, blocks) :: rest, disk =>
    K disk ∧ Queued K F rest (disk.write head blocks) ∧ Queued K F rest .empty

namespace Queued

variable {K K' F F' : Disk → Prop} {queue : List (Head × List (Nat × Bytes))}

theorem always (h : Queued K F queue disk) (hF : Allows K F) : K disk := by
  cases queue with
  | nil => exact hF.always disk h
  | cons job rest => exact h.1

theorem imp (h : Queued K F queue disk) (hK : ∀ disk, K disk → K' disk)
    (hF : ∀ disk, F disk → F' disk) : Queued K' F' queue disk := by
  induction queue generalizing disk with
  | nil => exact hF disk h
  | cons job rest ih => exact ⟨hK disk h.1, ih h.2.1, ih h.2.2⟩

theorem and (h : Queued K F queue disk) (h' : Queued K' F' queue disk) :
    Queued K (fun disk => F disk ∧ F' disk) queue disk := by
  induction queue generalizing disk with
  | nil => exact ⟨h, h'⟩
  | cons job rest ih => exact ⟨h.1, ih h.2.1 h'.2.1, ih h.2.2 h'.2.2⟩

-- A further job at the end of the queue.
theorem append (h : Queued K F queue disk) {head : Head} {blocks : List (Nat × Bytes)}
    (hF : ∀ disk, F disk → K disk ∧ F' (disk.write head blocks)) (hempty : F' empty) :
    Queued K F' (queue ++ [(head, blocks)]) disk := by
  induction queue generalizing disk with
  | nil => exact ⟨(hF disk h).1, (hF disk h).2, hempty⟩
  | cons job rest ih => exact ⟨h.1, ih h.2.1, ih h.2.2⟩

end Queued

end Disk

-- The store of the local copy, as far as the disk is concerned.
namespace Net

variable {K I F : Disk → Prop}

theorem change_spec {head : Head} {next : Disk → Except String Disk} (hF : Disk.Allows K F)
    (hI : ∀ disk, I disk → K disk) (hnext : ∀ disk disk', I disk → next disk = .ok disk' → F disk') :
    Triple (fun net => I net.disk) (change head next)
      (Stops (fun net => K net.disk) fun _ net => F net.disk) := by
  intro net h
  rw [← (tick_same net).disk] at h
  unfold change
  dsimp only
  cases hdisk : next net.tick.2.disk with
  | error reason => exact hI _ h
  | ok disk =>
      have hdone := hnext _ _ h hdisk
      cases net.tick.1.fail with
      | none => exact hdone
      | some reason =>
          cases net.tick.1.torn with
          | some left => exact hF.interrupted _ _ left
          | none =>
              dsimp only
              split_ifs
              · exact hI _ h
              · exact hF.always _ hdone

theorem write_spec {head : Head} {blocks : List (Nat × Bytes)} (hF : Disk.Allows K F)
    (hI : ∀ disk, I disk → K disk) (hwrite : ∀ disk, I disk → F (disk.write head blocks)) :
    Triple (fun net => I net.disk) (store.write head blocks)
      (Stops (fun net => K net.disk) fun _ net => F net.disk) := by
  refine change_spec hF hI fun disk disk' h heq => ?_
  rw [← Except.ok.inj heq]
  exact hwrite disk h

theorem forget_spec {head : Head} {blocks : List Nat} (hF : Disk.Allows K F)
    (hI : ∀ disk, I disk → K disk) (hforget : ∀ disk, I disk → F (disk.forget head blocks)) :
    Triple (fun net => I net.disk) (store.forget head blocks)
      (Stops (fun net => K net.disk) fun _ net => F net.disk) := by
  refine change_spec hF hI fun disk disk' h heq => ?_
  split_ifs at heq
  rw [← Except.ok.inj heq]
  exact hforget disk h

theorem attempt_spec {α : Type} {good : α → Net → Prop} {body : Turn → Prog Net String α}
    (hbody : ∀ turn, Triple (fun net => I net.disk) (body turn)
      (Stops (fun net => I net.disk) good)) :
    Triple (fun net => I net.disk) (attempt body) (Stops (fun net => I net.disk) good) := by
  intro net h
  rw [← (tick_same net).disk] at h
  unfold attempt
  dsimp only
  cases net.tick.1.fail with
  | some reason => exact h
  | none => exact hbody _ _ h

theorem clear_spec :
    Triple (fun net => I net.disk) store.clear
      (Stops (fun net => I net.disk) fun _ net => net.disk = .empty) :=
  attempt_spec fun _ _ _ => rfl

theorem head_spec :
    Triple (fun net => I net.disk) store.head
      (Stops (fun net => I net.disk) fun head net => I net.disk ∧ net.disk.head = head) :=
  attempt_spec fun _ _ h => ⟨h, rfl⟩

theorem read_spec (first count : Nat) :
    Triple (fun net => I net.disk) (store.read first count)
      (Stops (fun net => I net.disk) fun blocks net =>
        I net.disk ∧ blocks = net.disk.read first count) :=
  attempt_spec fun _ _ h => ⟨h, rfl⟩

theorem ask_spec {ε α : Type} (answer : Turn → α) :
    Triple (fun net => I net.disk) (Env.ask (ask answer) : Prog Net ε α)
      (Returns fun _ net => I net.disk) := by
  intro net h
  rw [← (tick_same net).disk] at h
  exact h

end Net

namespace Background

-- The thread with the jobs it still has to do. Once it has given up it does none of them.
def Holds (K F : Disk → Prop) (queue : List (Head × List (Nat × Bytes))) (writer : Background)
    (disk : Disk) : Prop :=
  if writer.givenUp then K disk else Disk.Queued K F queue disk

variable (setup : Net.Setup) {ε : Type} {K F : Disk → Prop}

theorem Holds.always {writer : Background} {queue : List (Head × List (Nat × Bytes))} {disk : Disk}
    (h : writer.Holds K F queue disk) (hF : Disk.Allows K F) : K disk := by
  unfold Holds at h
  split_ifs at h
  · exact h
  · exact Disk.Queued.always h hF

-- The thread goes on with its queue and its state.
def Same (before after : Background) : Prop :=
  after.queue = before.queue ∧ after.running = before.running

theorem job_spec (hF : Disk.Allows K F) (head : Head) (blocks : List (Nat × Bytes))
    (rest : List (Head × List (Nat × Bytes))) (writer : Background) :
    Triple (fun net => writer.Holds K F ((head, blocks) :: rest) net.disk)
      (job (Net.env setup) head blocks writer : Prog Net ε Background)
      (Returns fun writer' net => writer.Same writer' ∧ writer'.Holds K F rest net.disk) := by
  unfold job
  refine Triple.ite (fun hgiven => fun net h => ?_) fun hgiven => ?_
  · refine ⟨⟨rfl, rfl⟩, ?_⟩
    rw [Holds, if_pos hgiven] at h ⊢
    exact h
  intro net h
  rw [Holds, if_neg hgiven] at h
  have hempty := h.2.2
  have hqueued : Disk.Allows K (Disk.Queued K F rest) := ⟨fun _ h => h.always hF, hF.interrupted⟩
  refine Stops.bind (Stops.attempt (Net.write_spec hqueued (fun _ h => h.1) fun _ h => h.2.1)) ?_ net h
  rintro (_ | _)
  · refine Stops.bind (Stops.attempt Net.clear_spec) ?_
    rintro (_ | _)
    · exact fun _ hkept => ⟨⟨rfl, rfl⟩, hkept⟩
    · refine fun net hclear => ⟨⟨rfl, rfl⟩, ?_⟩
      rw [Holds, if_neg hgiven]
      exact hclear ▸ hempty
  · refine fun _ hdone => ⟨⟨rfl, rfl⟩, ?_⟩
    rw [Holds, if_neg hgiven]
    exact hdone

theorem jobs_spec (hF : Disk.Allows K F) (list rest : List (Head × List (Nat × Bytes)))
    (writer : Background) :
    Triple (fun net => writer.Holds K F (list ++ rest) net.disk)
      (jobs (Net.env setup) list writer : Prog Net ε Background)
      (Returns fun writer' net => writer.Same writer' ∧ writer'.Holds K F rest net.disk) := by
  induction list generalizing writer with
  | nil => exact fun _ h => ⟨⟨rfl, rfl⟩, h⟩
  | cons entry list ih =>
      obtain ⟨head, blocks⟩ := entry
      refine Stops.bind (job_spec setup hF head blocks (list ++ rest) writer) fun next => ?_
      rintro net ⟨hsame, h⟩
      have hrest := ih next net h
      generalize jobs (Net.env setup) list next net = run at hrest ⊢
      rcases run with ⟨last | _ | _, net'⟩
      · exact ⟨⟨hrest.1.1.trans hsame.1, hrest.1.2.trans hsame.2⟩, hrest.2⟩
      · exact hrest
      · exact hrest

theorem advance_spec (hF : Disk.Allows K F) (count : Nat) (writer : Background) :
    Triple (fun net => writer.Holds K F writer.queue net.disk)
      (advance (Net.env setup) count writer : Prog Net ε Background)
      (Returns fun writer' net =>
        writer'.queue = writer.queue.drop count ∧ writer'.Holds K F writer'.queue net.disk) := by
  intro net h
  rw [← List.take_append_drop count writer.queue] at h
  have hjobs := jobs_spec (ε := ε) setup hF (writer.queue.take count) (writer.queue.drop count)
    { writer with queue := writer.queue.drop count } net h
  unfold advance
  generalize jobs (Net.env setup) (writer.queue.take count)
    { writer with queue := writer.queue.drop count } net = run at hjobs ⊢
  rcases run with ⟨last | _ | _, net'⟩
  · obtain ⟨hsame, hlast⟩ := hjobs
    have hqueue : last.queue = writer.queue.drop count := hsame.1
    exact ⟨hqueue, hqueue ▸ hlast⟩
  · exact hjobs
  · exact hjobs

-- A read waits for all jobs before it.
theorem read_spec (hF : Disk.Allows K F) (first count : Nat) (writer : Background) :
    Triple (fun net => writer.Holds K F writer.queue net.disk)
      (read (Net.env setup) first count writer)
      (Stops (fun net => K net.disk) fun result net => result.2.Holds K F result.2.queue net.disk ∧
        ∃ disk, F disk ∧ result.1 = disk.read first count) := by
  unfold read
  refine Triple.ite (fun _ => ?_) fun _ => fun _ h => h.always hF
  refine Stops.bind (Stops.mono (advance_spec setup hF writer.queue.length writer)
    (fun _ h => h.elim) fun _ _ h => h) fun last => Triple.ite (fun _ => ?_) fun hgiven => ?_
  · exact fun _ h => h.2.always hF
  rintro net ⟨hqueue, h⟩
  rw [List.drop_length] at hqueue
  rw [hqueue, Holds, if_neg hgiven] at h
  refine Stops.bind (Stops.mono (Net.read_spec first count) (fun _ h => hF.always _ h)
    fun _ _ h => h) (fun blocks => ?_) net h
  rintro net ⟨h, rfl⟩
  refine ⟨?_, _, h, rfl⟩
  rw [hqueue, Holds, if_neg hgiven]
  exact h

end Background

-- The blocks are held by a disk on which nothing is left to write.
def Disk.Shown (F : Disk → Prop) (first : Nat) (blocks : List Bytes) : Prop :=
  ∀ k data, blocks[k]? = some data → ∃ disk : Disk, F disk ∧ disk.holds (first + k) = some data

namespace LocalCopy

-- The copy in each of its states. The thread that writes it exists natively only.
def Holds (native : Bool) (K F : Disk → Prop) : LocalCopy → Disk → Prop
  | None, disk => K disk
  | Ready, disk => F disk
  | Writing writer, disk => native = true ∧ writer.Holds K F writer.queue disk

variable (setup : Net.Setup) {native : Bool} {K K' F F' : Disk → Prop} {copy : LocalCopy} {disk : Disk}

theorem Holds.always (h : copy.Holds native K F disk) (hF : Disk.Allows K F) : K disk := by
  cases copy with
  | None => exact h
  | Ready => exact hF.always disk h
  | Writing writer => exact h.2.always hF

theorem Holds.imp (h : copy.Holds native K F disk) (hK : ∀ disk, K disk → K' disk)
    (hF : ∀ disk, F disk → F' disk) : copy.Holds native K' F' disk := by
  cases copy with
  | None => exact hK disk h
  | Ready => exact hF disk h
  | Writing writer =>
      refine ⟨h.1, ?_⟩
      have hwriter := h.2
      unfold Background.Holds at hwriter ⊢
      split_ifs at hwriter ⊢
      · exact hK disk hwriter
      · exact hwriter.imp hK hF

theorem Holds.and (h : copy.Holds native K F disk) (h' : copy.Holds native K' F' disk) :
    copy.Holds native K (fun disk => F disk ∧ F' disk) disk := by
  cases copy with
  | None => exact h
  | Ready => exact ⟨h, h'⟩
  | Writing writer =>
      refine ⟨h.1, ?_⟩
      have hwriter := h.2
      have hwriter' := h'.2
      unfold Background.Holds at hwriter hwriter' ⊢
      split_ifs at hwriter hwriter' ⊢
      · exact hwriter
      · exact hwriter.and hwriter'

theorem read_spec (hF : Disk.Allows K F) (first count : Nat) (copy : LocalCopy) :
    Triple (fun net => copy.Holds native K F net.disk) (copy.read (Net.env setup) first count)
      (Stops (fun net => K net.disk) fun result net => result.2.Holds native K F net.disk ∧
        result.1.length ≤ count ∧ Disk.Shown F first result.1) := by
  have hread : ∀ disk, F disk → (disk.read first count).length ≤ count ∧
      Disk.Shown F first (disk.read first count) := fun disk h =>
    ⟨Disk.length_read_le _ _ _, fun k data hk => ⟨disk, h, Disk.getElem?_read hk⟩⟩
  cases copy with
  | None => exact fun _ h => ⟨h, Nat.zero_le _, fun _ _ hk => by simp at hk⟩
  | Ready =>
      refine Stops.bind (Stops.mono (Net.read_spec first count) (fun _ h => hF.always _ h)
        fun _ _ h => h) fun blocks => ?_
      rintro net ⟨h, rfl⟩
      exact ⟨h, hread _ h⟩
  | Writing writer =>
      rintro net ⟨hnative, h⟩
      refine Stops.bind (Background.read_spec setup hF first count writer) (fun result => ?_) net h
      rintro net' ⟨hwriter, disk, hdisk, hblocks⟩
      exact ⟨⟨hnative, hwriter⟩, hblocks ▸ hread disk hdisk⟩

end LocalCopy

end RemoteVfs
