import RemoteVfs.Bridge

namespace RemoteVfs.Bridge

-- The requests that run in the queue. A write of the copy and a commit arrive in pieces.
inductive Task where
  | CopyHead
  | CopyRead
  | CopyWrite (last : Bool)
  | CopyClear
  | CopyForget
  | CopySelect
  | CopyFlush
  | LocalOpen
  | LocalRead
  | LocalCommit (last : Bool)
  | LocalClose
  | LocalDelete
  deriving DecidableEq, Repr

-- How the IndexedDB part of a job ends: with the answer that it leads to, or with an error.
inductive Result where
  | Ok (kind : Kind) (bytes : Bytes)
  | Failed (quota : Bool) (text : Bytes)
  deriving DecidableEq, Repr

-- The KIND slot and the jobs of the chain, with every call of `put`. The requests are numbered in
-- the order in which they are taken, and `failed` has those whose job failed before its answer.
structure Desk where
  kind : Kind
  chain : List (Nat × Task)
  taken : Nat
  puts : List Answer
  failed : List Nat
  deriving DecidableEq, Repr

namespace Desk

def start (kind : Kind) : Desk := { kind := kind, chain := [], taken := 0, puts := [], failed := [] }

def put (number : Nat) (kind : Kind) (bytes : Bytes) (desk : Desk) : Desk :=
  { desk with kind := kind, puts := desk.puts ++ [⟨number, kind, bytes⟩] }

def queue (number : Nat) (task : Task) (desk : Desk) : Desk :=
  { desk with chain := desk.chain ++ [(number, task)] }

-- `work`.
def take (task : Task) (desk : Desk) : Desk :=
  let number := desk.taken
  let desk := { desk with taken := desk.taken + 1 }
  match task with
  | .CopyWrite false | .LocalCommit false => desk.put number .Done []
  | .CopyWrite true => (desk.put number .Done []).queue number task
  | _ => desk.queue number task

-- The job of a write answers nothing and handles its own errors, and a flush cannot fail. The
-- jobs of a local database answer their errors in `answerLocal`, the others in `queue`.
def job (number : Nat) (task : Task) (result : Result) (desk : Desk) : Desk :=
  match task, result with
  | .CopyWrite _, _ => desk
  | .CopyFlush, _ => desk.put number .Done []
  | _, .Ok kind bytes => desk.put number kind bytes
  | .CopyHead, .Failed _ text | .CopyRead, .Failed _ text | .CopyClear, .Failed _ text
  | .CopyForget, .Failed _ text | .CopySelect, .Failed _ text =>
    let desk := { desk with failed := number :: desk.failed }
    if desk.kind ≠ .Error then desk.put number .Error ("local copy failed: ".toUTF8.toList ++ text)
    else desk
  | _, .Failed quota text =>
    { desk with failed := number :: desk.failed }.put number (if quota then .Full else .Error)
      ("local database: ".toUTF8.toList ++ text)

inductive Event where
  | Take (task : Task)
  | Finish (result : Result)
  deriving DecidableEq, Repr

-- The first job of the chain runs to its end. Nothing happens if there is none.
def step (desk : Desk) : Event → Desk
  | .Take task => desk.take task
  | .Finish result =>
    match desk.chain with
    | [] => desk
    | (number, task) :: rest => { desk with chain := rest }.job number task result

def run (desk : Desk) (events : List Event) : Desk := events.foldl step desk

end Desk

-- The jobs whose errors are answered in `queue`.
def Task.unguarded : Task → Bool
  | .CopyHead | .CopyRead | .CopyClear | .CopyForget | .CopySelect => true
  | _ => false

-- The job has an answer to give.
def Task.answers : Task → Bool
  | .CopyWrite _ => false
  | _ => true

-- The request that starts the task.
def Task.op : Task → Op
  | .CopyHead => .CopyHead
  | .CopyRead => .CopyRead
  | .CopyWrite last => .CopyWrite last
  | .CopyClear => .CopyClear
  | .CopyForget => .CopyForget
  | .CopySelect => .CopySelect
  | .CopyFlush => .CopyFlush
  | .LocalOpen => .LocalOpen
  | .LocalRead => .LocalRead
  | .LocalCommit last => .LocalCommit last
  | .LocalClose => .LocalClose
  | .LocalDelete => .LocalDelete

-- How the end of its job shows on the bridge.
def Task.finish : Task → Result → Bridge.Event
  | .CopyFlush, _ => .Finish .Done [] false
  | _, .Ok kind bytes => .Finish kind bytes false
  | .CopyHead, .Failed _ text | .CopyRead, .Failed _ text | .CopyClear, .Failed _ text
  | .CopyForget, .Failed _ text | .CopySelect, .Failed _ text =>
    .Finish .Error ("local copy failed: ".toUTF8.toList ++ text) true
  | _, .Failed quota text =>
    .Finish (if quota then .Full else .Error) ("local database: ".toUTF8.toList ++ text) false

namespace Desk

variable {desk : Desk}

-- No job that leaves its error to `queue` fails while the last answer is an error.
def clear (desk : Desk) : Event → Bool
  | .Finish (.Failed _ _) =>
    match desk.chain with
    | (_, task) :: _ => !task.unguarded || desk.kind ≠ .Error
    | [] => true
  | _ => true

def Clear (desk : Desk) : List Event → Prop
  | [] => True
  | event :: rest => desk.clear event = true ∧ (desk.step event).Clear rest

instance (desk : Desk) : (events : List Event) → Decidable (desk.Clear events)
  | [] => .isTrue trivial
  | event :: rest =>
    have := instDecidableClear (desk.step event) rest
    inferInstanceAs (Decidable (_ ∧ _))

-- The requests that a job of the chain answers.
def owed (chain : List (Nat × Task)) : List Nat := (chain.filter (·.2.answers)).map (·.1)

-- Every request was answered, is owed an answer or was dropped, and each one once.
structure Ledger (dropped : List Nat) (desk : Desk) : Prop where
  numbers : (desk.puts.map (·.number) ++ (owed desk.chain ++ dropped)).Perm (List.range desk.taken)
  errors : ∀ number ∈ desk.failed, number ∈ dropped ∨
    ∃ answer ∈ desk.puts, answer.number = number ∧ (answer.kind = .Error ∨ answer.kind = .Full)

theorem owed_append (chain : List (Nat × Task)) (number : Nat) (task : Task) :
    owed (chain ++ [(number, task)]) = owed chain ++ if task.answers then [number] else [] := by
  cases h : task.answers <;> simp [owed, h]

theorem owed_cons (number : Nat) (task : Task) (rest : List (Nat × Task)) :
    owed ((number, task) :: rest) = (if task.answers then [number] else []) ++ owed rest := by
  cases h : task.answers <;> simp [owed, h]

-- A further answer hides no earlier one.
theorem Ledger.errors_put {dropped : List Nat} (h : Ledger dropped desk) (answer : Answer) :
    ∀ number ∈ desk.failed, number ∈ dropped ∨
      ∃ other ∈ desk.puts ++ [answer], other.number = number ∧
        (other.kind = .Error ∨ other.kind = .Full) := by
  intro number hnumber
  rcases h.errors number hnumber with hdropped | ⟨other, hother, hkind⟩
  · exact .inl hdropped
  · exact .inr ⟨other, List.mem_append_left _ hother, hkind⟩

-- A request that is answered when it is taken.
theorem Ledger.answered {dropped : List Nat} (h : Ledger dropped desk) (kind : Kind) (bytes : Bytes) :
    Ledger dropped ({ desk with taken := desk.taken + 1 }.put desk.taken kind bytes) where
  numbers := by
    have hrange := h.numbers.append_right [desk.taken]
    rw [← List.range_succ, List.append_assoc] at hrange
    simp only [put, List.map_append, List.map_cons, List.map_nil, List.append_assoc]
    exact (List.perm_append_comm.append_left _).trans hrange
  errors := h.errors_put _

-- A request that is queued when it is taken.
theorem Ledger.queued {dropped : List Nat} (h : Ledger dropped desk) {task : Task}
    (htask : task.answers = true) :
    Ledger dropped ({ desk with taken := desk.taken + 1 }.queue desk.taken task) where
  numbers := by
    have hrange := h.numbers.append_right [desk.taken]
    rw [← List.range_succ, List.append_assoc, List.append_assoc] at hrange
    simp only [queue, owed_append, htask, if_true, List.append_assoc]
    exact ((List.perm_append_comm.append_left _).append_left _).trans hrange
  errors := h.errors

theorem Ledger.take {dropped : List Nat} (h : Ledger dropped desk) (task : Task) :
    Ledger dropped (desk.take task) := by
  cases task with
  | CopyWrite last =>
      have hanswered := h.answered .Done []
      cases last with
      | false => exact hanswered
      | true =>
          refine ⟨?_, hanswered.errors⟩
          simpa only [Desk.take, queue, owed_append, Task.answers, Bool.false_eq_true, if_false,
            List.append_nil] using hanswered.numbers
  | LocalCommit last =>
      cases last with
      | false => exact h.answered .Done []
      | true => exact h.queued rfl
  | _ => exact h.queued rfl

-- The end of the first job of the chain.
section Job

variable {dropped : List Nat} {number : Nat} {task : Task} {rest : List (Nat × Task)}

theorem Ledger.job_numbers (h : Ledger dropped desk) (hchain : desk.chain = (number, task) :: rest)
    (htask : task.answers = true) :
    (desk.puts.map (·.number) ++ (number :: (owed rest ++ dropped))).Perm (List.range desk.taken) := by
  have hnumbers := h.numbers
  rw [hchain, owed_cons, htask, if_pos rfl] at hnumbers
  exact hnumbers

theorem Ledger.job_silent (h : Ledger dropped desk) (hchain : desk.chain = (number, task) :: rest)
    (htask : task.answers = false) : Ledger dropped { desk with chain := rest } where
  numbers := by
    have hnumbers := h.numbers
    rw [hchain, owed_cons, htask] at hnumbers
    exact hnumbers
  errors := h.errors

theorem Ledger.job_put (h : Ledger dropped desk) (hchain : desk.chain = (number, task) :: rest)
    (htask : task.answers = true) (kind : Kind) (bytes : Bytes) :
    Ledger dropped ({ desk with chain := rest }.put number kind bytes) where
  numbers := by
    simpa [put] using h.job_numbers hchain htask
  errors := h.errors_put _

theorem Ledger.job_failed (h : Ledger dropped desk) (hchain : desk.chain = (number, task) :: rest)
    (htask : task.answers = true) {kind : Kind} (hkind : kind = .Error ∨ kind = .Full) (bytes : Bytes) :
    Ledger dropped
      ({ desk with chain := rest, failed := number :: desk.failed }.put number kind bytes) where
  numbers := (h.job_put hchain htask kind bytes).numbers
  errors := by
    intro other hother
    cases hother with
    | head => exact .inr ⟨_, List.mem_append_right _ (List.mem_singleton_self _), rfl, hkind⟩
    | tail _ hother => exact h.errors_put _ other hother

theorem Ledger.job_dropped (h : Ledger dropped desk) (hchain : desk.chain = (number, task) :: rest)
    (htask : task.answers = true) :
    Ledger (number :: dropped) { desk with chain := rest, failed := number :: desk.failed } where
  numbers := (List.perm_middle.append_left _).trans (h.job_numbers hchain htask)
  errors := by
    intro other hother
    cases hother with
    | head => exact .inl (List.mem_cons_self ..)
    | tail _ hother => exact (h.errors other hother).imp_left (List.mem_cons_of_mem _)

-- A failed job of the copy drops its request exactly if the last answer was an error.
theorem Ledger.job_unguarded (h : Ledger dropped desk) (hchain : desk.chain = (number, task) :: rest)
    (htask : task.answers = true) (bytes : Bytes) :
    ∃ lost, Ledger (lost ++ dropped)
        (let desk := { desk with chain := rest, failed := number :: desk.failed }
        if desk.kind ≠ .Error then desk.put number .Error bytes else desk) ∧
      (lost = [] ↔ desk.kind ≠ .Error) := by
  by_cases hkind : desk.kind = .Error
  · refine ⟨[number], ?_, by simp [hkind]⟩
    dsimp only
    rw [if_neg (fun hne => hne hkind)]
    exact h.job_dropped hchain htask
  · refine ⟨[], ?_, by simp [hkind]⟩
    dsimp only
    rw [if_pos hkind]
    exact h.job_failed hchain htask (.inl rfl) bytes

end Job

theorem Ledger.step {dropped : List Nat} (h : Ledger dropped desk) (event : Event) :
    ∃ lost, Ledger (lost ++ dropped) (desk.step event) ∧ (lost = [] ↔ desk.clear event = true) := by
  have hkept : ∀ {after : Desk}, Ledger dropped after → desk.clear event = true →
      ∃ lost, Ledger (lost ++ dropped) after ∧ (lost = [] ↔ desk.clear event = true) :=
    fun hafter hclear => ⟨[], hafter, by simp [hclear]⟩
  cases event with
  | Take task => exact hkept (h.take task) rfl
  | Finish result =>
      cases hchain : desk.chain with
      | nil =>
          rw [Desk.step, hchain]
          exact hkept h (by cases result <;> simp [clear, hchain])
      | cons first rest =>
          obtain ⟨number, task⟩ := first
          rw [Desk.step, hchain]
          cases result with
          | Ok kind bytes =>
              cases task with
              | CopyWrite last => exact hkept (h.job_silent hchain rfl) rfl
              | _ => exact hkept (h.job_put hchain rfl _ _) rfl
          | Failed quota text =>
              have hfull : (if quota then Kind.Full else .Error) = .Error ∨
                  (if quota then Kind.Full else .Error) = .Full := by cases quota <;> simp
              cases task with
              | CopyWrite last =>
                  exact hkept (h.job_silent hchain rfl) (by simp [clear, hchain, Task.unguarded])
              | CopyFlush =>
                  exact hkept (h.job_put hchain rfl _ _) (by simp [clear, hchain, Task.unguarded])
              | LocalOpen | LocalRead | LocalCommit | LocalClose | LocalDelete =>
                  exact hkept (h.job_failed hchain rfl hfull _) (by simp [clear, hchain, Task.unguarded])
              | _ =>
                  obtain ⟨lost, hledger, hlost⟩ := h.job_unguarded hchain rfl _
                  exact ⟨lost, hledger, hlost.trans (by simp [clear, hchain, Task.unguarded])⟩

theorem Ledger.run {dropped : List Nat} (h : Ledger dropped desk) (events : List Event) :
    ∃ lost, Ledger (lost ++ dropped) (desk.run events) ∧ (lost = [] ↔ desk.Clear events) := by
  induction events generalizing desk dropped with
  | nil => exact ⟨[], h, by simp [Clear]⟩
  | cons event rest ih =>
      obtain ⟨lost, hstep, hclear⟩ := h.step event
      obtain ⟨later, hrest, hclearRest⟩ := ih hstep
      refine ⟨later ++ lost, ?_, ?_⟩
      · rw [List.append_assoc]
        exact hrest
      · rw [List.append_eq_nil_iff, hclear, hclearRest, and_comm]
        rfl

theorem ledger_start (kind : Kind) : Ledger [] (start kind) where
  numbers := by simp [start, owed]
  errors := by simp [start]

-- When the queue has drained, every request has one answer, and that of a failed job is an error,
-- exactly if no job of the copy fails while the last answer is an error.
theorem each_request_is_answered_once (kind : Kind) (events : List Event)
    (hdrained : ((start kind).run events).chain = []) :
    (let desk := (start kind).run events
    (desk.puts.map (·.number)).Perm (List.range desk.taken) ∧
      ∀ number ∈ desk.failed, ∃ answer ∈ desk.puts, answer.number = number ∧
        (answer.kind = .Error ∨ answer.kind = .Full)) ↔ (start kind).Clear events := by
  obtain ⟨lost, hledger, hclear⟩ := (ledger_start kind).run events
  rw [List.append_nil] at hledger
  have hnumbers := hledger.numbers
  rw [hdrained, show owed [] = [] from rfl, List.nil_append] at hnumbers
  rw [← hclear]
  constructor
  · intro h
    -- As many answers as requests: none is left to be dropped.
    have hlength := hnumbers.length_eq
    rw [List.length_append, h.1.length_eq] at hlength
    exact List.length_eq_zero_iff.mp (by omega)
  · intro hlost
    subst hlost
    rw [List.append_nil] at hnumbers
    refine ⟨hnumbers, ?_⟩
    intro number hnumber
    exact (hledger.errors number hnumber).resolve_left (List.not_mem_nil)

-- Two failed jobs of the copy, with the answer of a local database between them.
theorem each_request_is_answered_once_three :
    let events : List Event := [.Take .CopyHead, .Finish (.Failed false [1]), .Take .LocalRead,
      .Take (.CopyWrite true), .Take .CopyRead, .Finish (.Ok .Frame [2]), .Finish (.Failed true [3]),
      .Finish (.Failed false [4])]
    (((start .Done).run events).puts.map (·.number)).Perm (List.range 4) :=
  ((each_request_is_answered_once .Done [.Take .CopyHead, .Finish (.Failed false [1]), .Take .LocalRead,
      .Take (.CopyWrite true), .Take .CopyRead, .Finish (.Ok .Frame [2]), .Finish (.Failed true [3]),
      .Finish (.Failed false [4])] (by decide +kernel)).mpr (by decide +kernel)).1

-- The second of two failed jobs of the copy in a row leaves its request without an answer.
theorem second_failure_is_not_answered :
    let desk := (start .Done).run
      [.Take .CopyHead, .Finish (.Failed false []), .Take .CopyRead, .Finish (.Failed false [])]
    desk.chain = [] ∧ desk.taken = 2 ∧ desk.failed = [1, 0] ∧ desk.puts.map (·.number) = [0] := by
  decide +kernel

-- The queue as it is part of the bridge, where no request waits to be taken.
structure Shows (desk : Desk) (bridge : Bridge) : Prop where
  kind : bridge.kind = desk.kind
  chain : bridge.chain = desk.chain.map fun job => if job.2.answers then some job.1 else none
  asked : bridge.asked = desk.taken
  answer : bridge.answer = desk.puts.length
  last : bridge.last = desk.puts.getLast?.getD ⟨0, .Done, []⟩
  request : bridge.request = none
  phase : bridge.phase = .Idle ∨ ∃ request, bridge.phase = .Asking request ∧ request.op ≠ .Reopen

variable {bridge : Bridge}

theorem Shows.put (h : desk.Shows bridge) (number : Nat) (kind : Kind) (bytes : Bytes) :
    (desk.put number kind bytes).Shows (bridge.put number kind bytes) where
  kind := rfl
  chain := h.chain
  asked := h.asked
  answer := by simp [Desk.put, Bridge.put, h.answer]
  last := by simp [Desk.put, Bridge.put]
  request := h.request
  phase := h.phase

theorem Shows.queue (h : desk.Shows bridge) (number : Nat) (task : Task) :
    (desk.queue number task).Shows
      { bridge with chain := bridge.chain ++ [if task.answers then some number else none] } :=
  ⟨h.kind, by simp [Desk.queue, h.chain], h.asked, h.answer, h.last, h.request, h.phase⟩

-- `ask` returns or gives up, and the next request finds the SQLite worker idle.
theorem Shows.idle (h : desk.Shows bridge) :
    desk.Shows (bridge.run [.Poll, .GiveUp]) ∧ (bridge.run [.Poll, .GiveUp]).phase = .Idle := by
  rcases h.phase with hidle | ⟨request, hasking, hop⟩
  · have hsame : bridge.run [.Poll, .GiveUp] = bridge := by simp [Bridge.run, Bridge.step, hidle]
    rw [hsame]
    exact ⟨h, hidle⟩
  · by_cases hanswer : bridge.answer = bridge.seen
    · have hgaveUp : bridge.run [.Poll, .GiveUp] = { bridge with phase := .Idle } := by
        simp [Bridge.run, Bridge.step, hasking, hanswer]
      rw [hgaveUp]
      exact ⟨⟨h.kind, h.chain, h.asked, h.answer, h.last, h.request, Or.inl rfl⟩, rfl⟩
    · have hreturned : bridge.run [.Poll, .GiveUp] =
          { bridge with seen := bridge.answer, phase := .Idle } := by
        simp [Bridge.run, Bridge.step, hasking, hanswer, hop]
      rw [hreturned]
      exact ⟨⟨h.kind, h.chain, h.asked, h.answer, h.last, h.request, Or.inl rfl⟩, rfl⟩

-- A request is asked and taken.
theorem Shows.take (h : desk.Shows bridge) (hidle : bridge.phase = .Idle) (task : Task) :
    (desk.take task).Shows (bridge.run [.Ask task.op, .Take none]) := by
  have hop : task.op ≠ .Reopen := by cases task <;> nofun
  have htaken : ∃ asked : Bridge, ({ desk with taken := desk.taken + 1 } : Desk).Shows asked ∧
      bridge.run [.Ask task.op, .Take none] = asked.work ⟨desk.taken, task.op⟩ none := by
    refine ⟨{ bridge with
      request := none, asked := bridge.asked + 1, phase := .Asking ⟨bridge.asked, task.op⟩ }, ?_, ?_⟩
    · exact ⟨h.kind, h.chain, congrArg (· + 1) h.asked, h.answer, h.last, rfl, Or.inr ⟨_, rfl, hop⟩⟩
    · rw [← h.asked]
      simp [Bridge.run, Bridge.step, hidle]
  obtain ⟨asked, htaken, hrun⟩ := htaken
  rw [hrun]
  cases task with
  | CopyWrite last =>
      cases last with
      | false => exact htaken.put _ _ _
      | true => exact (htaken.queue desk.taken (.CopyWrite true)).put _ _ _
  | LocalCommit last =>
      cases last with
      | false => exact htaken.put _ _ _
      | true => exact htaken.queue desk.taken (.LocalCommit true)
  | _ => exact htaken.queue desk.taken _

-- The first job of the chain ends.
theorem Shows.finish (h : desk.Shows bridge) (result : Result) {number : Nat} {task : Task}
    {rest : List (Nat × Task)} (hchain : desk.chain = (number, task) :: rest) :
    ({ desk with chain := rest }.job number task result).Shows (bridge.step (task.finish result)).1 := by
  have hjobs := h.chain
  rw [hchain, List.map_cons] at hjobs
  have hrest : ∀ failed, ({ desk with chain := rest, failed := failed } : Desk).Shows { bridge with
      chain := rest.map fun job => if job.2.answers then some job.1 else none } :=
    fun _ => ⟨h.kind, rfl, h.asked, h.answer, h.last, h.request, h.phase⟩
  have hsilent : task.answers = false → ∀ kind bytes unhandled,
      ({ desk with chain := rest } : Desk).Shows (bridge.finish kind bytes unhandled) := by
    intro hanswers kind bytes unhandled
    rw [hanswers] at hjobs
    unfold Bridge.finish
    rw [hjobs]
    exact hrest desk.failed
  have hput : task.answers = true → ∀ failed kind bytes,
      (({ desk with chain := rest, failed := failed } : Desk).put number kind bytes).Shows
        (bridge.finish kind bytes false) := by
    intro hanswers failed kind bytes
    rw [hanswers] at hjobs
    unfold Bridge.finish
    rw [hjobs]
    exact (hrest failed).put number kind bytes
  have hunhandled : task.answers = true → ∀ failed kind bytes,
      (let desk : Desk := { desk with chain := rest, failed := failed }
      if desk.kind ≠ .Error then desk.put number .Error bytes else desk).Shows
        (bridge.finish kind bytes true) := by
    intro hanswers failed kind bytes
    rw [hanswers, if_pos rfl] at hjobs
    unfold Bridge.finish
    rw [hjobs]
    dsimp only
    rw [if_pos rfl, ite_not]
    by_cases hkind : desk.kind = .Error
    · rw [if_pos hkind, if_pos (h.kind.trans hkind)]
      exact hrest failed
    · rw [if_neg hkind, if_neg (h.kind ▸ hkind)]
      exact (hrest failed).put number .Error bytes
  cases result with
  | Ok kind bytes =>
      cases task with
      | CopyWrite last => exact hsilent rfl _ _ _
      | _ => exact hput rfl _ _ _
  | Failed quota text =>
      cases task with
      | CopyWrite last => exact hsilent rfl _ _ _
      | CopyFlush | LocalOpen | LocalRead | LocalCommit | LocalClose | LocalDelete => exact hput rfl _ _ _
      | _ => exact hunhandled rfl _ _ _

-- Each event of the queue is what the bridge does.
theorem Shows.step (h : desk.Shows bridge) (event : Event) :
    ∃ events, (desk.step event).Shows (bridge.run events) := by
  cases event with
  | Take task =>
      obtain ⟨hshows, hidle⟩ := h.idle
      refine ⟨[.Poll, .GiveUp] ++ [.Ask task.op, .Take none], ?_⟩
      rw [Bridge.run, List.foldl_append]
      exact hshows.take hidle task
  | Finish result =>
      cases hchain : desk.chain with
      | nil =>
          refine ⟨[], ?_⟩
          rw [Desk.step, hchain]
          exact h
      | cons first rest =>
          obtain ⟨number, task⟩ := first
          refine ⟨[task.finish result], ?_⟩
          rw [Desk.step, hchain]
          exact h.finish result hchain

-- Every run of the queue is one of the bridge.
theorem queue_refines_bridge (events : List Event) :
    ∃ run, ((start .Done).run events).Shows ((Bridge.start false).run run) := by
  have hrun : ∀ {desk : Desk} {bridge : Bridge}, desk.Shows bridge →
      ∃ run, (desk.run events).Shows (bridge.run run) := by
    induction events with
    | nil => exact fun h => ⟨[], h⟩
    | cons event rest ih =>
        intro desk bridge h
        obtain ⟨first, hstep⟩ := h.step event
        obtain ⟨later, hlater⟩ := ih hstep
        refine ⟨first ++ later, ?_⟩
        rw [Bridge.run, List.foldl_append]
        exact hlater
  exact hrun ⟨rfl, rfl, rfl, rfl, rfl, rfl, Or.inl rfl⟩

end Desk

end RemoteVfs.Bridge
