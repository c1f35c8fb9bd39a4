import RemoteVfs.FileStore.Store
import RemoteVfs.Local.Thread

namespace RemoteVfs.FileStore

open Base Base.Prog Volume Background

variable {E : Env Volume} {faults : Nat → Option Fault} {pageSize : Nat} {contents : Nat → Nat → Bytes}
  {last : Head} {writer : Background} {volume : Volume}

-- A write carries blocks of its version, at least those below its page count that differ
-- from the version before.
structure Carries (contents : Nat → Nat → Bytes) (pageSize : Nat) (last head : Head)
    (blocks : List (Nat × Bytes)) : Prop where
  fits : head.Fits
  paged : head.pageSize = pageSize
  sized : ∀ entry ∈ blocks, entry.2.length = pageSize
  content : ∀ entry ∈ blocks, entry.1 < head.pageCount → entry.2 = contents head.version entry.1
  changed : ∀ i < head.pageCount, i < last.pageCount →
    contents head.version i ≠ contents last.version i → i ∈ blocks.map Prod.fst

def Chain (contents : Nat → Nat → Bytes) (pageSize : Nat) : Head → List Job → Prop
  | _, [] => True
  | last, .Write head blocks :: rest =>
    Carries contents pageSize last head blocks ∧ Chain contents pageSize head rest
  | last, .Read _ _ :: rest => Chain contents pageSize last rest

-- The reads, with the version of the last write queued before each of them.
def asked : Head → List Job → List (Nat × Nat)
  | _, [] => []
  | _, .Write head _ :: rest => asked head rest
  | last, .Read first _ :: rest => (first, last.version) :: asked last rest

-- Every block in the file is one of the last version, and so it is below its page count.
def Current (contents : Nat → Nat → Bytes) (pageSize : Nat) (last : Head)
    (file : FlatFile UInt8) : Prop :=
  Regular pageSize file ∧ ∀ i data, (diskOf file).holds i = some data →
    i < last.pageCount ∧ data = contents last.version i

-- A copy that could not be cleared after a failed write is not read any more.
def Serves (faults : Nat → Option Fault) (contents : Nat → Nat → Bytes) (pageSize : Nat) (last : Head)
    (writer : Background) (volume : Volume) : Prop :=
  volume.faults = faults ∧ (writer.givenUp = true ∨
    ∃ file, At faults file [] volume ∧ Current contents pageSize last file)

theorem current_empty (contents : Nat → Nat → Bytes) (pageSize : Nat) (last : Head) :
    Current contents pageSize last .empty := by
  refine ⟨regular_empty pageSize, fun i data h => ?_⟩
  rw [holds_diskOf_none headerOf_empty] at h
  cases h

theorem current_written {head : Head} {blocks : List (Nat × Bytes)} {file : FlatFile UInt8}
    (h : Current contents pageSize last file) (hcarries : Carries contents pageSize last head blocks) :
    Current contents pageSize head (written file head blocks) := by
  obtain ⟨hregular, hcurrent⟩ := h
  refine ⟨hcarries.paged ▸ regular_written hcarries.fits, fun i data hheld => ?_⟩
  rw [diskOf_written hcarries.fits hregular hcarries.paged
    (fun entry hmem => (hcarries.sized entry hmem).trans hcarries.paged.symm), Disk.holds] at hheld
  simp only [Disk.write] at hheld
  split_ifs at hheld with hi
  refine ⟨hi, ?_⟩
  cases hfind : blocks.reverse.find? (·.1 = i) with
  | some entry =>
      rw [hfind] at hheld
      obtain rfl : entry.2 = data := by simpa using hheld
      have hmem := List.mem_reverse.mp (List.mem_of_find?_eq_some hfind)
      obtain rfl : entry.1 = i := by simpa using List.find?_some hfind
      exact hcarries.content entry hmem hi
  | none =>
      rw [hfind] at hheld
      obtain ⟨hold, rfl⟩ := hcurrent i data (by simpa using hheld)
      by_contra hne
      have hsome := find_isSome_iff.mpr (hcarries.changed i hi hold (Ne.symm hne))
      rw [hfind] at hsome
      cases hsome

theorem midway_faults {file body : FlatFile UInt8} {first last : Bytes}
    (h : Midway faults file body first last volume) : volume.faults = faults := by
  cases h with
  | Before hat => exact hat.faults
  | Marking _ _ hat => exact hat.faults
  | Marked _ hat => exact hat.faults
  | Changing _ hbody => exact hbody.elim fun _ h => h.1.faults
  | Changed _ _ hat => exact hat.faults
  | Finishing _ _ _ hat => exact hat.faults
  | Finished _ _ hat => exact hat.faults

-- A write job of the thread, whatever fails in it.
theorem job_spec {ε : Type} (hstore : E.store = store) {head : Head} {blocks : List (Nat × Bytes)}
    (hcarries : Carries contents pageSize last head blocks) :
    Triple (Serves faults contents pageSize last writer) (job E head blocks writer : Prog Volume ε Background)
      (Returns fun after => Serves faults contents pageSize head after) := by
  rintro volume ⟨hfaults, hserves⟩
  unfold job
  split_ifs with hgiven
  · exact ⟨hfaults, Or.inl hgiven⟩
  · obtain ⟨file, hat, hcurrent⟩ := hserves.resolve_left hgiven
    have hwrite : Triple (At faults file []) (E.store.write head blocks) (Stops (fun volume =>
        volume.faults = faults) fun _ => At faults (written file head blocks) []) := by
      rw [hstore]
      exact Stops.mono (Halts.stops (write_spec head blocks) fun h => h hcarries.fits.names)
        (fun _ h => midway_faults h.1) fun _ _ h => h.1
    have hclear : Triple (fun volume => volume.faults = faults) E.store.clear (Stops (fun volume =>
        volume.faults = faults) fun _ => At faults .empty []) := by
      rw [hstore]
      exact Stops.mono (Halts.stops clear_spec not_false) (fun _ h => h.1) fun _ _ h => h
    refine Stops.bind (Stops.attempt hwrite) (fun result => ?_) volume hat
    cases result with
    | ok value =>
        exact fun volume hat => ⟨hat.faults, Or.inr ⟨_, hat, current_written hcurrent hcarries⟩⟩
    | error reason =>
        refine Stops.bind (Stops.attempt hclear) fun result => ?_
        cases result with
        | ok value =>
            exact fun volume hat => ⟨hat.faults, Or.inr ⟨_, hat, current_empty contents pageSize head⟩⟩
        | error reason => exact fun volume hfaults => ⟨hfaults, Or.inl rfl⟩

-- A read answers with blocks of the last version.
theorem read_answers (hstore : E.store = store) (hgiven : writer.givenUp = false) (first count : Nat) :
    Triple (Serves faults contents pageSize last writer) (E.store.read first count)
      (Stops (Serves faults contents pageSize last writer) fun blocks volume =>
        Serves faults contents pageSize last writer volume ∧
          ∀ k data, blocks[k]? = some data → data = contents last.version (first + k)) := by
  rintro volume ⟨hfaults, hserves⟩
  obtain ⟨file, hat, hcurrent⟩ := hserves.resolve_left (by simp [hgiven])
  have hkeep : ∀ volume, At faults file [] volume → Serves faults contents pageSize last writer volume :=
    fun volume hat => ⟨hat.faults, Or.inr ⟨file, hat, hcurrent⟩⟩
  rw [hstore]
  refine Stops.mono (Halts.stops (read_spec (fun _ => hkeep) first count) not_false)
    (fun _ h => h) ?_ volume hat
  rintro blocks volume ⟨hat, hheld, -⟩
  exact ⟨hkeep volume hat, fun k data hk => (hcurrent.2 _ data (hheld k data hk)).2⟩

-- Blocks of the version that was queued last before the read, or an error.
def Answers (contents : Nat → Nat → Bytes) (question : Nat × Nat) (answer : Except String (List Bytes)) :
    Prop :=
  ∀ blocks, answer = .ok blocks → ∀ k data, blocks[k]? = some data →
    data = contents question.2 (question.1 + k)

theorem answers_error (question : Nat × Nat) (reason : String) :
    Answers contents question (.error reason) := fun _ h => by cases h

theorem answer_spec {ε : Type} (hstore : E.store = store) (first count : Nat) :
    Triple (Serves faults contents pageSize last writer) (answer E first count writer : Prog Volume ε _)
      (Returns fun answer volume => Serves faults contents pageSize last writer volume ∧
        Answers contents (first, last.version) answer) := by
  unfold answer
  split_ifs with hgiven
  · exact fun volume h => ⟨h, answers_error _ _⟩
  · refine Stops.mono (Stops.attempt (read_answers hstore (by simpa using hgiven) first count))
      (fun _ h => h) fun answer volume h => ?_
    cases answer with
    | ok blocks =>
        refine ⟨h.1, fun blocks' heq => ?_⟩
        cases heq
        exact h.2
    | error reason => exact ⟨h, answers_error _ _⟩

theorem thread_spec {ε : Type} (hstore : E.store = store) {jobs : List Job}
    (hchain : Chain contents pageSize last jobs) :
    Triple (Serves faults contents pageSize last writer) (thread E jobs writer : Prog Volume ε _)
      (Returns fun answers _ => List.Forall₂ (Answers contents) (asked last jobs) answers) := by
  induction jobs generalizing last writer with
  | nil => exact fun volume _ => List.Forall₂.nil
  | cons entry rest ih =>
      cases entry with
      | Write head blocks =>
          exact Stops.bind (job_spec hstore hchain.1) fun after => ih hchain.2
      | Read first count =>
          refine Stops.bind (answer_spec hstore first count) fun answer => ?_
          rintro volume ⟨hserves, hanswer⟩
          refine Stops.bind (ih hchain) (fun answers => ?_) volume hserves
          exact fun volume hanswers => List.Forall₂.cons hanswer hanswers

-- The thread answers every read, whichever calls of the file system fail, and every block in
-- its answers is the one of the version that was queued last before the read.
theorem background_never_stale (hstore : E.store = store) {jobs : List Job}
    (hchain : Chain contents pageSize last jobs) (hsynced : volume.unsynced = [])
    (hcurrent : Current contents pageSize last volume.synced) (running : Bool) :
    ∃ answers after, (thread E jobs (.start running) : Prog Volume String _) volume = (.ok answers, after) ∧
      List.Forall₂ (Answers contents) (asked last jobs) answers := by
  have hserves : Serves volume.faults contents pageSize last (.start running) volume :=
    ⟨rfl, Or.inr ⟨volume.synced, ⟨rfl, rfl, hsynced⟩, hcurrent⟩⟩
  have hspec := thread_spec (ε := String) hstore hchain volume hserves
  generalize (thread E jobs (.start running) : Prog Volume String _) volume = run at hspec
  rcases run with ⟨answers | _ | _, after⟩
  · exact ⟨answers, after, rfl, hspec⟩
  · exact hspec.elim
  · exact hspec.elim

-- An environment in which there is nothing but the store.
def offline : Env Volume where
  fuel := 0
  native := true
  dial := Prog.fail ""
  reopen := Prog.fail ""
  send _ := Prog.fail ""
  receive := Prog.fail ""
  loggedIn _ := id
  reachable volume := (false, volume)
  token := Prog.fail ""
  now volume := (0, volume)
  pause _ := id
  random volume := ([], volume)
  sign := id
  store := store
  spawn volume := (true, volume)
  progress volume := (0, volume)
  debug _ := ""
  debugBroken _ := ""

def sampleContents (version i : Nat) : Bytes :=
  if version = 3 ∧ i = 0 then [2, 2] else [UInt8.ofNat version, UInt8.ofNat version]

def sampleJobs : List Job :=
  [.Write (sampleHead 2 1) [(0, [1, 1]), (1, [1, 1])],
    .Write (sampleHead 2 2) [(0, [2, 2]), (1, [2, 2])],
    .Write (sampleHead 2 3) [(1, [3, 3])], .Read 1 1, .Read 0 2]

-- The second write fails halfway, so the copy is cleared and the third one starts it anew.
theorem background_never_stale_half_written :
    ∃ answers after, (thread offline sampleJobs (.start true) : Prog Volume String _)
        { reopen .empty with
          faults := fun n => if n = 29 then some ⟨"lost", fun _ => 1⟩ else none } =
          (.ok answers, after) ∧
      List.Forall₂ (Answers sampleContents) [(1, 3), (0, 3)] answers := by
  have hchain : Chain sampleContents 2 (sampleHead 0 0) sampleJobs :=
    ⟨⟨by decide +kernel, rfl, by decide, by decide, by decide⟩,
      ⟨by decide +kernel, rfl, by decide, by decide, by decide⟩,
      ⟨by decide +kernel, rfl, by decide, by decide, by decide⟩, trivial⟩
  exact background_never_stale rfl hchain rfl (current_empty _ 2 (sampleHead 0 0)) true

end RemoteVfs.FileStore
