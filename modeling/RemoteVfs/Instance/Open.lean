import RemoteVfs.Instance
import RemoteVfs.Worker.Lock
import RemoteVfs.Base.Program.Rules

namespace RemoteVfs

open Base Base.Prog Worker Browser

namespace Worker

-- The waits of a job.
def Runs : Job → Task → Prop
  | .Open _ _ _, .Acquiring _ _ _ | .Open _ _ _, .Connecting _ _ _ | .Open _ _ _, .Bumping _ _ _ _
  | .Open _ _ _, .Bumped _ _ _ _ | .Open _ _ _, .Withdrawing _ => True
  | .Read _ _, .Reading _ _ | .Commit _ _ _, .Committing _ _ _ => True
  | .Delete _, .Seizing _ | .Delete _, .Deleting _ => True
  | _, _ => False

-- The worker has this job to do, and no other.
def During (job : Job) (worker : Worker) : Prop :=
  (worker.task = .Idle ∧ worker.chain = [job] ∨ Runs job worker.task ∧ worker.chain = []) ∧
    (∀ pageSize create takeover, job = .Open pageSize create takeover → worker.slot = none)

structure Rests (worker : Worker) : Prop where
  task : worker.task = .Idle
  chain : worker.chain = []

-- What the answer to a job says about the open database.
def Leaves (slot : Option Local) : Job → Answer → Prop
  | .Open _ _ _, .Head _ => True
  | .Open _ _ _, _ => slot = none
  | .Close, _ => slot = none
  | _, _ => True

end Worker

namespace Browser

variable {n : Nat} {browser : Browser n} {i : Fin n}

-- How the job of a worker goes on with an event of its own.
def Proceeds (i : Fin n) (job : Job) (result : Browser n × Option Answer) : Prop :=
  match result.2 with
  | none => (result.1.workers i).During job
  | some answer => (result.1.workers i).Rests ∧ Leaves (result.1.workers i).slot job answer

variable {job : Job}

theorem proceeds_put {answer : Answer} (hchain : (browser.workers i).chain = [])
    (hleaves : Leaves (browser.workers i).slot job answer) : Proceeds i job (browser.put i answer) := by
  have hworker : (browser.put i answer).1.workers i = { browser.workers i with task := .Idle } :=
    Function.update_self ..
  change _ ∧ _
  rw [hworker]
  exact ⟨⟨rfl, hchain⟩, hleaves⟩

theorem proceeds_await {task : Task} (hchain : (browser.workers i).chain = []) (hruns : Runs job task)
    (hslot : ∀ pageSize create takeover, job = .Open pageSize create takeover →
      (browser.workers i).slot = none) : Proceeds i job (browser.await i task) := by
  have hworker : (browser.await i task).1.workers i = { browser.workers i with task := task } :=
    Function.update_self ..
  change During _ _
  rw [hworker]
  exact ⟨Or.inr ⟨hruns, hchain⟩, hslot⟩

theorem proceeds_releasePut {lock : HeldLock} {answer : Answer} (hchain : (browser.workers i).chain = [])
    (hleaves : Leaves (browser.workers i).slot job answer) :
    Proceeds i job ((browser.release lock).put i answer) :=
  proceeds_put (by rw [workers_release]; exact hchain) (by rw [workers_release]; exact hleaves)

theorem proceeds_acquire {steal : Bool} {task : HeldLock → Task} (hchain : (browser.workers i).chain = [])
    (hruns : ∀ lock, Runs job (task lock)) (hleaves : Leaves (browser.workers i).slot job .Busy)
    (hslot : ∀ pageSize create takeover, job = .Open pageSize create takeover →
      (browser.workers i).slot = none) :
    Proceeds i job (match browser.acquire steal with
      | (none, browser) => browser.put i .Busy
      | (some lock, browser) => browser.await i (task lock)) := by
  have hworkers := workers_acquire browser steal
  generalize browser.acquire steal = acquired at hworkers ⊢
  obtain ⟨_ | lock, after⟩ := acquired
  · exact proceeds_put (by rw [hworkers]; exact hchain) (by rw [hworkers]; exact hleaves)
  · exact proceeds_await (by rw [hworkers]; exact hchain) (hruns lock) (by rw [hworkers]; exact hslot)

theorem proceeds_delete {lock : HeldLock} {answer : Answer} (hduring : (browser.workers i).During job)
    (hchain : (browser.workers i).chain = []) (hleaves : Leaves (browser.workers i).slot job answer) :
    Proceeds i job (browser.delete i lock answer) := by
  unfold Browser.delete
  split_ifs
  · have hworkers : browser.deleteIndexedDb.workers = browser.workers := rfl
    exact proceeds_releasePut (by rw [hworkers]; exact hchain) (by rw [hworkers]; exact hleaves)
  · exact hduring

theorem proceeds_transaction {task : Task} (hchain : (browser.workers i).chain = []) (hruns : Runs job task)
    (hleaves : ∀ answer, Leaves (browser.workers i).slot job answer)
    (hslot : ∀ pageSize create takeover, job ≠ .Open pageSize create takeover) :
    Proceeds i job (browser.transaction i task) := by
  unfold Browser.transaction
  cases (browser.workers i).slot with
  | none => exact proceeds_put hchain (hleaves _)
  | some slot =>
      dsimp only
      split_ifs
      · exact proceeds_put hchain (hleaves _)
      · exact proceeds_put hchain (hleaves _)
      · exact proceeds_put hchain (hleaves _)
      · exact proceeds_await hchain hruns fun pageSize create takeover h =>
          absurd h (hslot pageSize create takeover)

theorem proceeds_start (hchain : (browser.workers i).chain = [])
    (hslot : ∀ pageSize create takeover, job = .Open pageSize create takeover →
      (browser.workers i).slot = none) : Proceeds i job (browser.start i job) := by
  unfold Browser.start
  cases job with
  | Open pageSize create takeover =>
      have hnone := hslot pageSize create takeover rfl
      dsimp only
      rw [hnone]
      exact proceeds_await hchain trivial fun _ _ _ _ => hnone
  | Read first count =>
      exact proceeds_transaction hchain trivial (fun _ => trivial) fun _ _ _ h => by cases h
  | Commit epoch pageCount blocks =>
      exact proceeds_transaction hchain trivial (fun _ => trivial) fun _ _ _ h => by cases h
  | Close =>
      dsimp only
      cases hopen : (browser.workers i).slot with
      | none => exact proceeds_put hchain hopen
      | some slot =>
          have hworker : ((browser.release slot.lock).set i
              { browser.workers i with slot := none }).workers i =
              { browser.workers i with slot := none } := Function.update_self ..
          exact proceeds_put (by rw [hworker]; exact hchain) (by rw [hworker]; rfl)
  | Delete takeover =>
      dsimp only
      split_ifs
      · exact proceeds_put hchain trivial
      · exact proceeds_await hchain trivial fun _ _ _ h => by cases h

theorem leaves_fault {slot : Option Local} (failure : Worker.Failure)
    (h : ∀ pageSize create takeover, job = .Open pageSize create takeover → slot = none)
    (hclose : job ≠ .Close) : Leaves slot job (fault failure) := by
  unfold fault
  cases job with
  | Open pageSize create takeover =>
      split_ifs <;> exact h pageSize create takeover rfl
  | Close => exact absurd rfl hclose
  | _ => split_ifs <;> trivial

theorem proceeds_resume (h : (browser.workers i).During job) (hruns : Runs job (browser.workers i).task)
    (hchain : (browser.workers i).chain = []) (failure : Option Worker.Failure) :
    Proceeds i job (browser.resume i failure) := by
  have hslot := h.2
  unfold Browser.resume
  cases htask : (browser.workers i).task with
  | Idle =>
      rw [htask] at hruns
      cases job <;> exact hruns.elim
  | Acquiring pageSize create takeover =>
      rw [htask] at hruns
      cases job with
      | Open size new steal =>
          cases failure with
          | some failure => exact proceeds_put hchain (leaves_fault failure hslot (by simp))
          | none => exact proceeds_acquire hchain (fun _ => trivial) (hslot size new steal rfl) hslot
      | _ => exact hruns.elim
  | Connecting pageSize create lock =>
      rw [htask] at hruns
      cases job with
      | Open size new steal =>
          cases failure with
          | some failure => exact proceeds_releasePut hchain (leaves_fault failure hslot (by simp))
          | none => exact proceeds_await (by exact hchain) trivial hslot
      | _ => exact hruns.elim
  | Bumping pageSize create lock connection =>
      rw [htask] at hruns
      cases job with
      | Open size new steal =>
          cases failure with
          | some failure => exact proceeds_releasePut hchain (leaves_fault failure hslot (by simp))
          | none => exact proceeds_await (by exact hchain) trivial hslot
      | _ => exact hruns.elim
  | Bumped head lock connection found =>
      rw [htask] at hruns
      cases job with
      | Open size new steal =>
          cases head with
          | none => exact proceeds_await hchain trivial hslot
          | some head =>
              dsimp only
              rw [put_set]
              change _ ∧ _
              simp only [Browser.set, Function.update_self]
              exact ⟨⟨rfl, hchain⟩, trivial⟩
      | _ => exact hruns.elim
  | Withdrawing lock =>
      rw [htask] at hruns
      cases job with
      | Open size new steal =>
          cases failure with
          | some failure => exact proceeds_releasePut hchain (leaves_fault failure hslot (by simp))
          | none => exact proceeds_delete h hchain (hslot size new steal rfl)
      | _ => exact hruns.elim
  | Reading first count =>
      rw [htask] at hruns
      cases job with
      | Read first' count' =>
          cases failure with
          | some failure => exact proceeds_put hchain trivial
          | none =>
              dsimp only
              cases (browser.workers i).slot with
              | none => exact h
              | some slot => exact proceeds_put hchain trivial
      | _ => exact hruns.elim
  | Committing epoch pageCount blocks =>
      rw [htask] at hruns
      cases job with
      | Commit epoch' pageCount' blocks' =>
          cases failure with
          | some failure => exact proceeds_put hchain trivial
          | none =>
              dsimp only
              cases localCommit (browser.stored.getD .empty) epoch pageCount blocks with
              | none => exact proceeds_put hchain trivial
              | some stored =>
                  dsimp only
                  rw [put_set]
                  change _ ∧ _
                  simp only [Browser.set, Function.update_self]
                  exact ⟨⟨rfl, hchain⟩, trivial⟩
      | _ => exact hruns.elim
  | Seizing takeover =>
      rw [htask] at hruns
      cases job with
      | Delete steal =>
          cases failure with
          | some failure => exact proceeds_put hchain trivial
          | none => exact proceeds_acquire hchain (fun _ => trivial) trivial hslot
      | _ => exact hruns.elim
  | Deleting lock =>
      rw [htask] at hruns
      cases job with
      | Delete steal =>
          cases failure with
          | some failure => exact proceeds_releasePut hchain trivial
          | none => exact proceeds_delete h hchain trivial
      | _ => exact hruns.elim

theorem during_lose {worker : Worker} (h : worker.During job) (holder : Option Nat) :
    (lose holder worker).During job := by
  have hruns : Runs job worker.task → Runs job (lose holder worker).task := by
    obtain ⟨chain, task, slot⟩ := worker
    cases task <;> cases job <;> exact id
  obtain ⟨hstate, hslot⟩ := h
  refine ⟨hstate.imp (fun h => ⟨by rw [lose, h.1], h.2⟩) fun h => ⟨hruns h.1, h.2⟩, ?_⟩
  intro pageSize create takeover hjob
  rw [lose, hslot pageSize create takeover hjob]
  rfl

theorem during_shut {worker : Worker} (h : worker.During job) : (shut worker).During job := by
  have hruns : Runs job worker.task → Runs job (shut worker).task := by
    obtain ⟨chain, task, slot⟩ := worker
    cases task <;> cases job <;> exact id
  obtain ⟨hstate, hslot⟩ := h
  refine ⟨hstate.imp (fun h => ⟨by rw [shut, h.1], h.2⟩) fun h => ⟨hruns h.1, h.2⟩, ?_⟩
  intro pageSize create takeover hjob
  rw [shut, hslot pageSize create takeover hjob]
  rfl

end Browser

namespace Instance

variable {n : Nat} {self : Fin n} {browser : Browser n} {job : Job}

-- An event of another instance.
theorem turn_other (hseated : ∀ i, (browser.workers i).Seated) {event : Event n} (h : event.of ≠ self) :
    (turn self event browser).2 = none ∧ (turn self event browser).1.workers self = browser.workers self := by
  have hturn : turn self event browser = ((browser.step event).1, none) := by
    cases event with
    | Lose i => rfl
    | Shut i => rfl
    | _ => exact if_neg h
  rw [hturn]
  exact ⟨rfl, workers_step_ne hseated h⟩

-- Whatever happens while the instance waits, its worker goes on with the job or answers it.
theorem turn_proceeds (h : (browser.workers self).During job) (hseated : ∀ i, (browser.workers i).Seated)
    (event : Event n) : Proceeds self job (turn self event browser) := by
  by_cases howner : event.of = self
  · cases event with
    | Ask i other =>
        obtain rfl : i = self := howner
        simp only [turn, if_true]
        exact h
    | Take i =>
        obtain rfl : i = self := howner
        simp only [turn, if_true, Browser.step]
        rcases h with ⟨⟨hidle, hchain⟩ | ⟨hruns, hchain⟩, hslot⟩
        · rw [hidle, hchain]
          have hworker : (browser.set i ⟨[], .Idle, (browser.workers i).slot⟩).workers i =
              ⟨[], .Idle, (browser.workers i).slot⟩ := Function.update_self ..
          exact proceeds_start (by rw [hworker]) (by rw [hworker]; exact hslot)
        · rw [hchain]
          split
          · rename_i hnil
            cases hnil
          · exact ⟨Or.inr ⟨hruns, hchain⟩, hslot⟩
    | Resume i failure =>
        obtain rfl : i = self := howner
        simp only [turn, if_true]
        rcases h with ⟨⟨hidle, hchain⟩ | ⟨hruns, hchain⟩, hslot⟩
        · simp only [Browser.step, Browser.resume, hidle]
          exact ⟨Or.inl ⟨hidle, hchain⟩, hslot⟩
        · exact proceeds_resume ⟨Or.inr ⟨hruns, hchain⟩, hslot⟩ hruns hchain failure
    | Lose i =>
        obtain rfl : i = self := howner
        change During job (Function.update browser.workers i _ i)
        rw [Function.update_self]
        exact during_lose h _
    | Shut i =>
        obtain rfl : i = self := howner
        change During job (Function.update browser.workers i _ i)
        rw [Function.update_self]
        exact during_shut h
  · obtain ⟨hnone, hkept⟩ := turn_other hseated howner
    unfold Proceeds
    rw [hnone, hkept]
    exact h

theorem turn_cases (self : Fin n) (event : Event n) (browser : Browser n) :
    (turn self event browser).1 = browser ∨ (turn self event browser).1 = (browser.step event).1 := by
  cases event with
  | Ask i job =>
      simp only [turn]
      split_ifs
      · exact Or.inl rfl
      · exact Or.inr rfl
  | Take i =>
      simp only [turn]
      split_ifs <;> exact Or.inr rfl
  | Resume i failure =>
      simp only [turn]
      split_ifs <;> exact Or.inr rfl
  | _ => exact Or.inr rfl

theorem turn_locked (self : Fin n) (h : browser.Locked) (event : Event n) : (turn self event browser).1.Locked := by
  rcases turn_cases self event browser with hsame | hstep
  · rw [hsame]
    exact h
  · rw [hstep]
    exact h.step event

theorem wait_some (schedule : List (Option (Event n))) (browser : Browser n) (answer : Answer) :
    wait self schedule browser (some answer) = (some answer, browser, schedule) := by
  cases schedule with
  | nil => rfl
  | cons entry rest => cases entry <;> rfl

-- The answer that is waited for is the one to the job.
theorem wait_proceeds (h : (browser.workers self).During job) (hlocked : browser.Locked)
    (schedule : List (Option (Event n))) {answer : Answer} {after : Browser n}
    {rest : List (Option (Event n))} (hwait : wait self schedule browser none = (some answer, after, rest)) :
    (after.workers self).Rests ∧ Leaves (after.workers self).slot job answer ∧ after.Locked := by
  induction schedule generalizing browser with
  | nil => cases hwait
  | cons entry schedule ih =>
      cases entry with
      | none => cases hwait
      | some event =>
          have hturn := turn_proceeds h hlocked.seated event
          have hkept := turn_locked self hlocked event
          rw [wait] at hwait
          generalize turn self event browser = turned at hturn hkept hwait
          obtain ⟨now, put⟩ := turned
          cases put with
          | none => exact ih hturn hkept hwait
          | some put =>
              dsimp only at hwait
              rw [wait_some] at hwait
              simp only [Prod.mk.injEq, Option.some.injEq] at hwait
              obtain ⟨rfl, rfl, -⟩ := hwait
              exact ⟨hturn.1, hturn.2, hkept⟩

-- Between two requests, if all of them were answered in time.
structure Ready (inst : Instance n) : Prop where
  answer : inst.answer = none
  rests : (inst.browser.workers inst.self).Rests
  locked : inst.browser.Locked

def InTime (inst : Instance n) : Prop := inst.late = true ∨ inst.Ready

theorem ask_late {inst after : Instance n} {answer : Outcome Refusal Answer}
    (h : ask job inst = (answer, after)) (hlate : inst.late = true) : after.late = true := by
  unfold ask at h
  dsimp only at h
  split at h
  · cases h
    exact hlate
  · cases h
    rfl

theorem ask_ready {inst after : Instance n} (h : inst.Ready)
    (hslot : ∀ pageSize create takeover, job = .Open pageSize create takeover →
      (inst.browser.workers inst.self).slot = none) {answer : Answer}
    (hask : ask job inst = (.ok answer, after)) :
    after.self = inst.self ∧ after.Ready ∧ Leaves (after.browser.workers after.self).slot job answer := by
  have hworker : (inst.browser.step (.Ask inst.self job)).1.workers inst.self =
      ⟨[job], .Idle, (inst.browser.workers inst.self).slot⟩ := by
    simp only [Browser.step, Browser.set, Function.update_self, h.rests.chain, h.rests.task, List.nil_append]
  have hduring : ((inst.browser.step (.Ask inst.self job)).1.workers inst.self).During job := by
    rw [hworker]
    exact ⟨Or.inl ⟨rfl, rfl⟩, hslot⟩
  unfold ask at hask
  dsimp only at hask
  rw [h.answer] at hask
  split at hask
  · rename_i answer' browser rest hwait
    cases hask
    obtain ⟨hrests, hleaves, hlocked⟩ := wait_proceeds hduring (h.locked.step _) inst.schedule hwait
    exact ⟨rfl, ⟨rfl, hrests, hlocked⟩, hleaves⟩
  · cases hask

theorem ask_err {inst after : Instance n} {refusal : Refusal} (hask : ask job inst = (.err refusal, after)) :
    after.late = true := by
  unfold ask at hask
  dsimp only at hask
  split at hask
  · cases hask
  · cases hask
    rfl

theorem ask_ne_hang {inst after : Instance n} : ask job inst ≠ (.hang, after) := by
  unfold ask
  dsimp only
  split <;> simp

-- The instance stays itself, and if its requests are answered in time it is ready again.
structure Keeps (before after : Instance n) : Prop where
  self : after.self = before.self
  inTime : before.InTime → after.InTime

instance : IsPreorder (Instance n) Keeps where
  refl _ := ⟨rfl, id⟩
  trans _ _ _ hab hbc := ⟨hbc.self.trans hab.self, hbc.inTime ∘ hab.inTime⟩

theorem ask_self (job : Job) (inst : Instance n) : (ask job inst).2.self = inst.self := by
  unfold ask
  dsimp only
  split <;> rfl

theorem ask_keeps (hjob : ∀ pageSize create takeover, job ≠ .Open pageSize create takeover) :
    Prog.Moves Keeps (ask job : Prog (Instance n) Refusal Answer) := by
  intro inst
  refine ⟨ask_self job inst, ?_⟩
  rintro (hlate | hready)
  · exact Or.inl (ask_late rfl hlate)
  · cases hask : ask job inst with
    | mk answer after =>
        cases answer with
        | ok answer => exact Or.inr (ask_ready hready (fun _ _ _ h => (hjob _ _ _ h).elim) hask).2.1
        | err refusal => exact Or.inl (ask_err hask)
        | hang => exact absurd hask ask_ne_hang

theorem read_keeps (first count : Nat) : Prog.Moves Keeps (read (n := n) first count) := by
  apply Prog.Moves.bind (ask_keeps (by simp))
  intro answer
  cases answer with
  | Blocks size blocks => exact Prog.Moves.ite (Prog.Moves.fail _) (Prog.Moves.pure _)
  | _ => exact Prog.Moves.fail _

-- After the database was closed in time, nothing is open.
theorem close_slot {inst : Instance n} (h : inst.InTime) (hlate : inst.close.late = false) :
    inst.close.Ready ∧ (inst.close.browser.workers inst.close.self).slot = none := by
  have hinst : inst.late = false := by
    by_contra hne
    rw [Bool.not_eq_false] at hne
    rw [show inst.close.late = true from ask_late rfl hne] at hlate
    cases hlate
  have hready : inst.Ready := h.resolve_left (by rw [hinst]; exact Bool.false_ne_true)
  cases hask : ask (n := n) .Close inst with
  | mk answer after =>
      rw [show inst.close = after from congrArg Prod.snd hask] at hlate ⊢
      cases answer with
      | ok answer =>
          obtain ⟨-, hready', hleaves⟩ := ask_ready hready (by simp) hask
          exact ⟨hready', hleaves⟩
      | err refusal =>
          rw [ask_err hask] at hlate
          cases hlate
      | hang => exact absurd hask ask_ne_hang

variable {debugBroken : Broken → String}

-- Loading blocks is a number of reads.
def OnlyReads (before after : LocalDatabase (Instance n)) : Prop :=
  Keeps before.source.world after.source.world

instance : IsPreorder (LocalDatabase (Instance n)) OnlyReads where
  refl db := Std.Refl.refl db.source.world
  trans _ _ _ := IsTrans.trans (r := Keeps) _ _ _

theorem onlyReads_of_world {before after : LocalDatabase (Instance n)}
    (h : after.source.world = before.source.world) : OnlyReads before after := by
  unfold OnlyReads
  rw [h]
  exact Std.Refl.refl _

theorem breakWith_onlyReads {α : Type} (broken : Broken) :
    Prog.Moves OnlyReads (LocalDatabase.breakWith broken : Prog (LocalDatabase (Instance n)) Broken α) :=
  fun _ => onlyReads_of_world rfl

theorem refuseRead_onlyReads {α : Type} (refusal : Refusal) :
    Prog.Moves OnlyReads (Load.refuseRead refusal : Prog (LocalDatabase (Instance n)) Broken α) := by
  cases refusal with
  | Busy => exact breakWith_onlyReads _
  | NoAnswer reason => exact breakWith_onlyReads _
  | _ => exact Prog.Moves.fail _

theorem read_onlyReads (first count : Nat) :
    Prog.Moves OnlyReads (LocalDatabase.onWorld (read (n := n) first count)) :=
  Prog.Moves.zoom (read_keeps first count) fun _ _ h => h

theorem fillStep_onlyReads (last next : Nat) :
    Prog.Moves OnlyReads (Load.fillStep (bridge (n := n) debugBroken) last next) := by
  refine Prog.Moves.ite (Prog.Moves.pure _) (Prog.Moves.bind (Prog.Moves.gets _) fun pages => ?_)
  apply Prog.Moves.bind (Prog.Moves.handle (read_onlyReads _ _) refuseRead_onlyReads)
  intro blocks
  split
  · exact Prog.Moves.fail _
  · refine Prog.Moves.bind (Prog.Moves.modify fun _ => ?_) fun _ =>
      Prog.Moves.bind (Prog.Moves.modify fun _ => ?_) fun _ => Prog.Moves.pure _
    · exact onlyReads_of_world rfl
    · exact onlyReads_of_world rfl

theorem fill_onlyReads (debugBroken : Broken → String) (first blocks : Nat) :
    Prog.Moves OnlyReads (Load.fill (bridge (n := n) debugBroken) first blocks) := by
  refine Prog.Moves.bind (Prog.Moves.gets id) fun db => ?_
  cases db.source.broken with
  | some broken => exact Prog.Moves.fail _
  | none => exact Prog.Moves.loop (fillStep_onlyReads _) _ _

-- No database is open in the instance, and it holds no lock: one that is held was granted to
-- another instance.
structure Closed (inst : Instance n) : Prop where
  slot : (inst.browser.workers inst.self).slot = none
  task : (inst.browser.workers inst.self).task = .Idle
  lock : ∀ token, inst.browser.lock = some token →
    ∃ other, other ≠ inst.self ∧ (inst.browser.workers other).token = some token

theorem Ready.closed {inst : Instance n} (h : inst.Ready)
    (hslot : (inst.browser.workers inst.self).slot = none) : inst.Closed := by
  refine ⟨hslot, h.rests.task, fun token hlock => ?_⟩
  obtain ⟨other, hother⟩ := h.locked.known token hlock
  refine ⟨other, ?_, hother⟩
  rintro rfl
  rw [Worker.token, Worker.lockOf, hslot, h.rests.task] at hother
  cases hother

-- The head that the connection worker answers is one that sizes the blocks in memory.
def Sized (opened : LocalOpened) : Prop :=
  0 < opened.pageSize ∧ opened.pageSize ≤ MAX_PAGE_SIZE ∧ opened.pageCount ≤ MAX_PAGE_COUNT

-- An opening that was refused in time has left nothing open.
theorem openDatabase_closed {inst after : Instance n} (h : inst.Ready)
    (hslot : (inst.browser.workers inst.self).slot = none) {name : String} {pageSize : Nat}
    {create takeover : Bool} {refusal : Refusal}
    (hopen : openDatabase name pageSize create takeover inst = (.err refusal, after))
    (hlate : after.late = false) : after.Closed := by
  unfold openDatabase at hopen
  split at hopen
  · cases hopen
    exact h.closed hslot
  · cases hask : ask (.Open pageSize create takeover) inst with
    | mk result now =>
        cases result with
        | hang => exact absurd hask ask_ne_hang
        | err refusal =>
            rw [Prog.bind_err _ hask] at hopen
            cases hopen
            rw [ask_err hask] at hlate
            cases hlate
        | ok answer =>
            rw [Prog.bind_ok _ hask] at hopen
            obtain ⟨-, hready, hleaves⟩ := ask_ready h (fun _ _ _ _ => hslot) hask
            cases answer with
            | Head head => cases hopen
            | _ =>
                cases hopen
                exact hready.closed hleaves

theorem openDatabase_ready {inst after : Instance n} (h : inst.Ready)
    (hslot : (inst.browser.workers inst.self).slot = none) {name : String} {pageSize : Nat}
    {create takeover : Bool} {opened : LocalOpened}
    (hopen : openDatabase name pageSize create takeover inst = (.ok opened, after)) : after.Ready := by
  unfold openDatabase at hopen
  split at hopen
  · cases hopen
  · cases hask : ask (.Open pageSize create takeover) inst with
    | mk result now =>
        cases result with
        | hang => exact absurd hask ask_ne_hang
        | err refusal =>
            rw [Prog.bind_err _ hask] at hopen
            cases hopen
        | ok answer =>
            rw [Prog.bind_ok _ hask] at hopen
            cases answer with
            | Head head =>
                cases hopen
                exact (ask_ready h (fun _ _ _ _ => hslot) hask).2.1
            | _ => cases hopen

-- A load that failed closes the database again.
theorem opening_closed {options : LocalOptions} {opened : LocalOpened}
    {desk after : LocalDatabase.Desk (Instance n)} {refusal : Refusal} (h : desk.world.Ready)
    (hopening : LocalDatabase.opening (bridge debugBroken) options opened desk = (.err refusal, after))
    (hlate : after.world.late = false) : after.world.Closed := by
  unfold LocalDatabase.opening at hopening
  dsimp only at hopening
  split at hopening
  · cases hopening
  · rename_i broken db hloaded
    cases hopening
    have hloads : OnlyReads ⟨.new opened.pageSize opened.pageCount options.blocksPerFetch options.cap,
        desk.stats, ⟨opened.epoch, none, desk.world⟩⟩ db := by
      split at hloaded
      · have hfill := fill_onlyReads debugBroken 0
          (Pages.new opened.pageSize opened.pageCount options.blocksPerFetch options.cap).pageCount
          ⟨.new opened.pageSize opened.pageCount options.blocksPerFetch options.cap, desk.stats,
            ⟨opened.epoch, none, desk.world⟩⟩
        rw [hloaded] at hfill
        exact hfill
      · cases hloaded
    obtain ⟨hready, hslot⟩ := close_slot (hloads.inTime (Or.inr h)) hlate
    exact hready.closed hslot
  · cases hopening

theorem openOn_closed {options : LocalOptions} {name : String}
    {desk after : LocalDatabase.Desk (Instance n)} {refusal : Refusal} (h : desk.world.Ready)
    (hslot : (desk.world.browser.workers desk.world.self).slot = none)
    (hsized : ∀ opened world, openDatabase name options.pageSize options.create options.takeover desk.world =
      (.ok opened, world) → Sized opened)
    (hopen : LocalDatabase.openOn (bridge debugBroken) name options desk = (.err refusal, after))
    (hlate : after.world.late = false) : after.world.Closed := by
  cases hfirst : openDatabase name options.pageSize options.create options.takeover desk.world with
  | mk result world =>
      have hzoom : Prog.zoom LocalDatabase.Desk.world (fun world desk => { desk with world := world })
          ((bridge debugBroken).openDatabase name options.pageSize options.create options.takeover) desk =
          (result, { desk with world := world }) := by
        rw [Prog.zoom, show (bridge debugBroken).openDatabase name options.pageSize options.create
          options.takeover desk.world = _ from hfirst]
      unfold LocalDatabase.openOn at hopen
      cases result with
      | hang =>
          rw [Prog.bind_hang _ hzoom] at hopen
          cases hopen
      | err reason =>
          rw [Prog.bind_err _ hzoom] at hopen
          cases hopen
          exact openDatabase_closed h hslot hfirst hlate
      | ok opened =>
          rw [Prog.bind_ok _ hzoom] at hopen
          obtain ⟨hpos, hsize, hcount⟩ := hsized opened world hfirst
          rw [if_neg (by omega)] at hopen
          exact opening_closed (openDatabase_ready h hslot hfirst) hopen hlate

end Instance

end RemoteVfs
