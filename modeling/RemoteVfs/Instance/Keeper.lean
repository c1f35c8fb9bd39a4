import RemoteVfs.Instance.Open
import RemoteVfs.LocalDatabase.Keeper
import RemoteVfs.Worker.Exclusive

namespace RemoteVfs

open Base Base.Prog Worker Browser

namespace Stored

-- A block that was never stored is blank. One of another size cannot be read at all.
def content (size : Nat) (stored : Stored) (i : Nat) : Bytes :=
  match stored.blocks i with
  | some data => if data.length = size then data else zeros size
  | none => zeros size

theorem length_content (size : Nat) (stored : Stored) (i : Nat) : (stored.content size i).length = size := by
  unfold content
  split
  · split_ifs with hsize
    · exact hsize
    · exact List.length_replicate
  · exact List.length_replicate

theorem content_commit {head : LocalHead} {blocks : List (Nat × Bytes)} (stored : Stored)
    (hsized : ∀ entry ∈ blocks, entry.2.length = head.pageSize) :
    (stored.commit head blocks).content head.pageSize =
      overlaid head.pageSize head.pageCount blocks (stored.content head.pageSize) := by
  funext i
  unfold overlaid content Stored.commit
  dsimp only
  split_ifs with hi
  · cases hfind : blocks.reverse.find? (·.1 = i) with
    | none => rfl
    | some entry =>
        have hmem := List.mem_reverse.mp (List.mem_of_find?_eq_some hfind)
        simp [hsized entry hmem]
  · rfl

-- What a read of stored blocks returns.
theorem content_of_localRead {stored : Stored} {size first count size' : Nat} {blocks : List Bytes}
    (h : localRead stored size first count = .Blocks size' blocks) :
    size' = size ∧ blocks = (List.range' first count).map (stored.content size) := by
  unfold localRead at h
  dsimp only at h
  cases hfind : (List.range' first count).findSome? (fun i => (stored.blocks i).bind fun data =>
      if data.length = size then none else some (i, data.length)) with
  | some found =>
      rw [hfind] at h
      simp [thrown, fault] at h
  | none =>
      rw [hfind] at h
      cases h
      refine ⟨rfl, List.map_congr_left fun i hi => ?_⟩
      have hnone := List.findSome?_eq_none_iff.mp hfind i hi
      unfold content
      cases hdata : stored.blocks i with
      | none => rfl
      | some data =>
          rw [hdata, Option.bind_some] at hnone
          split_ifs at hnone with hsize
          simp [hsize]

-- The file that is stored. There is none before the database was created.
def file : Option Stored → FlatFile UInt8
  | some stored =>
    match stored.head with
    | some head => .ofBlocks head.pageSize head.pageCount (stored.content head.pageSize)
    | none => .ofBlocks 0 0 fun _ => []
  | none => .ofBlocks 0 0 fun _ => []

def blocksOf : Option Stored → Nat → Bytes
  | some stored =>
    match stored.head with
    | some head => stored.content head.pageSize
    | none => fun _ => []
  | none => fun _ => []

end Stored

namespace Instance

variable {n : Nat} {self : Fin n} {browser : Browser n} {job : Job}

theorem turn_exclusive (self : Fin n) (h : browser.Exclusive) {event : Event n} (hsteals : event.steals = false) :
    (turn self event browser).1.Exclusive := by
  rcases turn_cases self event browser with hsame | hstep
  · rw [hsame]
    exact h
  · rw [hstep]
    exact h.step hsteals

-- The instance has the database open, with this page size, epoch and state.
def Open (pageSize epoch : Nat) (found : Stored) (worker : Worker) : Prop :=
  ∃ slot, worker.slot = some slot ∧ slot.pageSize = pageSize ∧ slot.epoch = epoch ∧ slot.found = found

-- A request on the open database, with its transaction.
inductive Request (epoch : Nat) : Job → Task → Prop
  | Read (first count : Nat) : Request epoch (.Read first count) (.Reading first count)
  | Commit (pageCount : Nat) (blocks : List (Nat × Bytes)) :
      Request epoch (.Commit epoch pageCount blocks) (.Committing epoch pageCount blocks)

-- The request is in the chain, or its transaction runs.
structure Asked (i : Fin n) (pageSize epoch : Nat) (found : Stored) (job : Job) (task : Task)
    (browser : Browser n) : Prop where
  exclusive : browser.Exclusive
  held : Open pageSize epoch found (browser.workers i)
  waits : (browser.workers i).task = .Idle ∧ (browser.workers i).chain = [job] ∨
    (browser.workers i).task = task ∧ (browser.workers i).chain = []

structure Answered (i : Fin n) (pageSize epoch : Nat) (found : Stored) (browser : Browser n) : Prop where
  exclusive : browser.Exclusive
  held : Open pageSize epoch found (browser.workers i)
  rests : (browser.workers i).Rests

-- The state after the answer. Only a commit that was answered with success changes it.
def Yields (pageSize epoch : Nat) (found : Stored) : Job → Answer → Stored → Prop
  | .Read first count, answer, after => after = found ∧ ∀ size blocks, answer = .Blocks size blocks →
      localRead found pageSize first count = .Blocks size blocks
  | .Commit _ pageCount blocks, answer, after =>
    if answer = .Done then after = found.commit ⟨pageSize, pageCount, epoch⟩ blocks else after = found
  | _, _, after => after = found

variable {pageSize epoch : Nat} {found : Stored} {task : Task}

-- An answer that reports no success.
theorem yields_refused {answer : Answer} (hrequest : Request epoch job task)
    (hblocks : ∀ size blocks, answer ≠ .Blocks size blocks) (hdone : answer ≠ .Done) :
    Yields pageSize epoch found job answer found := by
  cases hrequest with
  | Read first count => exact ⟨rfl, fun size blocks heq => absurd heq (hblocks size blocks)⟩
  | Commit pageCount blocks =>
      rw [Yields, if_neg hdone]

theorem yields_fault (hrequest : Request epoch job task) (failure : Worker.Failure) :
    Yields pageSize epoch found job (fault failure) found := by
  refine yields_refused hrequest (fun size blocks => ?_) (fault_ne_done failure)
  unfold fault
  split_ifs <;> simp

def Goes (self : Fin n) (pageSize epoch : Nat) (found : Stored) (job : Job) (task : Task)
    (result : Browser n × Option Answer) : Prop :=
  match result.2 with
  | none => Asked self pageSize epoch found job task result.1
  | some answer => ∃ after, Answered self pageSize epoch after result.1 ∧
      Yields pageSize epoch found job answer after

-- The request is answered without a change.
theorem goes_put {answer : Answer} (hexclusive : (browser.put self answer).1.Exclusive)
    (hheld : Open pageSize epoch found (browser.workers self))
    (hchain : (browser.workers self).chain = []) (hyields : Yields pageSize epoch found job answer found) :
    Goes self pageSize epoch found job task (browser.put self answer) := by
  have hworker : (browser.put self answer).1.workers self = { browser.workers self with task := .Idle } :=
    Function.update_self ..
  refine ⟨found, ⟨hexclusive, ?_, ?_⟩, hyields⟩
  · rw [hworker]
    exact hheld
  · rw [hworker]
    exact ⟨rfl, hchain⟩

theorem transaction_of_open {slot : Local} (hslot : (browser.workers self).slot = some slot) (task : Task) :
    browser.transaction self task = browser.put self .Busy ∨
      (∃ failure, browser.transaction self task = browser.put self (fault failure)) ∨
      browser.transaction self task = browser.await self task := by
  unfold Browser.transaction
  rw [hslot]
  dsimp only
  split_ifs
  · exact Or.inl rfl
  · exact Or.inr (Or.inl ⟨_, rfl⟩)
  · exact Or.inr (Or.inl ⟨_, rfl⟩)
  · exact Or.inr (Or.inr rfl)

theorem goes_transaction (hrequest : Request epoch job task)
     (hexclusive : (browser.transaction self task).1.Exclusive)
    (hheld : Open pageSize epoch found (browser.workers self)) (hchain : (browser.workers self).chain = []) :
    Goes self pageSize epoch found job task (browser.transaction self task) := by
  obtain ⟨slot, hslot, -⟩ := id hheld
  rcases transaction_of_open hslot task with heq | ⟨failure, heq⟩ | heq
  · rw [heq] at hexclusive ⊢
    exact goes_put hexclusive hheld hchain (yields_refused hrequest (by simp) (by simp))
  · rw [heq] at hexclusive ⊢
    exact goes_put hexclusive hheld hchain (yields_fault hrequest _)
  · rw [heq] at hexclusive ⊢
    have hworker : (browser.await self task).1.workers self = { browser.workers self with task := task } :=
      Function.update_self ..
    refine ⟨hexclusive, ?_, Or.inr ?_⟩
    · rw [hworker]
      exact hheld
    · rw [hworker]
      exact ⟨rfl, hchain⟩

theorem start_request (hrequest : Request epoch job task) :
    browser.start self job = browser.transaction self task := by
  cases hrequest <;> rfl

-- The transaction is over.
theorem goes_resume (h : Asked self pageSize epoch found job task browser) (hrequest : Request epoch job task)
    (htask : (browser.workers self).task = task) (hchain : (browser.workers self).chain = [])
    (failure : Option Worker.Failure) :
    Goes self pageSize epoch found job task (browser.resume self failure) := by
  have hexclusive : (browser.resume self failure).1.Exclusive :=
    h.exclusive.step (show (Event.Resume self failure).steals = false from rfl)
  cases failure with
  | some failure =>
      have heq : browser.resume self (some failure) = browser.put self (fault failure) := by
        cases hrequest <;> simp only [Browser.resume, htask]
      rw [heq] at hexclusive ⊢
      exact goes_put hexclusive h.held hchain (yields_fault hrequest _)
  | none =>
      obtain ⟨slot, hslot, hsize, hepoch, hfound⟩ := h.held
      obtain ⟨hstored, head, hhead, hheadEpoch, hheadSize⟩ := (h.exclusive.owns self).found hslot
      cases hrequest with
      | Read first count =>
          have heq : browser.resume self none =
              browser.put self (localRead found pageSize first count) := by
            simp only [Browser.resume, htask, hslot, hstored, Option.getD_some, hsize, hfound]
          rw [heq] at hexclusive ⊢
          exact goes_put hexclusive ⟨slot, hslot, hsize, hepoch, hfound⟩ hchain ⟨rfl, fun _ _ heq => heq⟩
      | Commit pageCount blocks =>
          have hlocal : localCommit (browser.stored.getD .empty) epoch pageCount blocks =
              some (found.commit ⟨pageSize, pageCount, epoch⟩ blocks) := by
            rw [hfound] at hstored hhead
            simp only [localCommit, hstored, Option.getD_some, hhead, hheadEpoch, hepoch, if_true, ← hheadSize,
              hsize]
          have hanswer : (browser.resume self none).2 = some .Done := by
            simp only [Browser.resume, htask, hlocal, Browser.put]
          have hworker : (browser.resume self none).1.workers self = ⟨[], .Idle, some { slot with
              found := found.commit ⟨pageSize, pageCount, epoch⟩ blocks }⟩ := by
            simp only [Browser.resume, htask, hlocal, put_set]
            simp only [Browser.set, Function.update_self, hslot, hchain, Option.map_some]
          unfold Goes
          rw [hanswer]
          refine ⟨found.commit ⟨pageSize, pageCount, epoch⟩ blocks, ⟨hexclusive, ?_, ?_⟩, ?_⟩
          · rw [hworker]
            exact ⟨_, rfl, hsize, hepoch, rfl⟩
          · rw [hworker]
            exact ⟨rfl, rfl⟩
          · rw [Yields, if_pos rfl]

-- Whatever happens in the meantime, the request goes on or is answered.
theorem turn_goes (h : Asked self pageSize epoch found job task browser) (hrequest : Request epoch job task)
    {event : Event n} (hsteals : event.steals = false) :
    Goes self pageSize epoch found job task (turn self event browser) := by
  have hexclusive := turn_exclusive self h.exclusive hsteals
  by_cases howner : event.of = self
  · cases event with
    | Ask i other =>
        obtain rfl : i = self := howner
        simp only [turn, if_true]
        exact h
    | Take i =>
        obtain rfl : i = self := howner
        simp only [turn, if_true, Browser.step] at hexclusive ⊢
        rcases h.waits with ⟨hidle, hchain⟩ | ⟨htask, hchain⟩
        · rw [hidle, hchain] at hexclusive ⊢
          dsimp only at hexclusive ⊢
          rw [start_request hrequest] at hexclusive ⊢
          have hworker : (browser.set i ⟨[], .Idle, (browser.workers i).slot⟩).workers i =
              ⟨[], .Idle, (browser.workers i).slot⟩ := Function.update_self ..
          refine goes_transaction hrequest hexclusive ?_ ?_
          · rw [hworker]
            exact h.held
          · rw [hworker]
        · rw [htask, hchain]
          cases hrequest <;> exact h
    | Resume i failure =>
        obtain rfl : i = self := howner
        simp only [turn, if_true, Browser.step]
        rcases h.waits with ⟨hidle, -⟩ | ⟨htask, hchain⟩
        · simp only [Browser.resume, hidle]
          exact h
        · exact goes_resume h hrequest htask hchain failure
    | Lose i =>
        obtain rfl : i = self := howner
        have hworker : (turn i (.Lose i) browser).1.workers i = browser.workers i :=
          (Function.update_self ..).trans (h.exclusive.lose i)
        exact ⟨hexclusive, hworker ▸ h.held, hworker ▸ h.waits⟩
    | Shut i =>
        obtain rfl : i = self := howner
        have hworker : (turn i (.Shut i) browser).1.workers i = Browser.shut (browser.workers i) :=
          Function.update_self ..
        refine ⟨hexclusive, ?_, ?_⟩
        · obtain ⟨slot, hslot, hsize, hepoch, hfound⟩ := h.held
          rw [hworker]
          exact ⟨_, congrArg (Option.map _) hslot, hsize, hepoch, hfound⟩
        · rw [hworker]
          rcases h.waits with ⟨hidle, hchain⟩ | ⟨htask, hchain⟩
          · exact Or.inl ⟨by simp only [Browser.shut, hidle], hchain⟩
          · refine Or.inr ⟨?_, hchain⟩
            cases hrequest <;> simp only [Browser.shut, htask]
  · obtain ⟨hnone, hworker⟩ := turn_other h.exclusive.seated howner
    unfold Goes
    rw [hnone]
    exact ⟨hexclusive, hworker ▸ h.held, hworker ▸ h.waits⟩

-- No instance takes the lock from another one.
def Polite (schedule : List (Option (Event n))) : Prop := ∀ event, some event ∈ schedule → event.steals = false

theorem Polite.tail {entry : Option (Event n)} {schedule : List (Option (Event n))}
    (h : Polite (entry :: schedule)) : Polite schedule := fun event hmem => h event (List.mem_cons_of_mem _ hmem)

-- What is stored is known to the instance that has the database open.
theorem Open.stored (h : Open pageSize epoch found (browser.workers self)) (hexclusive : browser.Exclusive) :
    browser.stored = some found ∧
      ∃ head, found.head = some head ∧ head.pageSize = pageSize ∧ head.epoch = epoch := by
  obtain ⟨slot, hslot, hsize, hepoch, hfound⟩ := h
  obtain ⟨hstored, head, hhead, hheadEpoch, hheadSize⟩ := (hexclusive.owns self).found hslot
  exact ⟨hfound ▸ hstored, head, hfound ▸ hhead, hheadSize.symm.trans hsize, hheadEpoch.trans hepoch⟩

-- If the timeout ends, the state is still the one before the request.
theorem wait_goes (h : Asked self pageSize epoch found job task browser) (hrequest : Request epoch job task)
    {schedule : List (Option (Event n))} (hpolite : Polite schedule) :
    Polite (wait self schedule browser none).2.2 ∧
      match (wait self schedule browser none).1 with
      | none => (wait self schedule browser none).2.1.stored = some found
      | some answer => ∃ after, Answered self pageSize epoch after (wait self schedule browser none).2.1 ∧
          Yields pageSize epoch found job answer after := by
  induction schedule generalizing browser with
  | nil => exact ⟨hpolite, (h.held.stored h.exclusive).1⟩
  | cons entry schedule ih =>
      cases entry with
      | none => exact ⟨hpolite.tail, (h.held.stored h.exclusive).1⟩
      | some event =>
          have hturn := turn_goes h hrequest (hpolite event List.mem_cons_self)
          rw [wait]
          generalize turn self event browser = turned at hturn ⊢
          obtain ⟨after, put⟩ := turned
          cases put with
          | none => exact ih hturn hpolite.tail
          | some answer =>
              dsimp only
              rw [wait_some]
              exact ⟨hpolite.tail, hturn⟩

-- Between two requests, with the database open.
structure Holding (pageSize epoch : Nat) (found : Stored) (inst : Instance n) : Prop where
  answer : inst.answer = none
  polite : Polite inst.schedule
  answered : Answered inst.self pageSize epoch found inst.browser

theorem Holding.stored {inst : Instance n} (h : Holding pageSize epoch found inst) :
    inst.browser.stored = some found ∧
      ∃ head, found.head = some head ∧ head.pageSize = pageSize ∧ head.epoch = epoch :=
  h.answered.held.stored h.answered.exclusive

theorem ask_holding (hrequest : Request epoch job task) :
    Triple (Holding pageSize epoch found) (ask job : Prog (Instance n) Refusal Answer) fun o inst =>
      match o with
      | .ok answer => ∃ after, Holding pageSize epoch after inst ∧ Yields pageSize epoch found job answer after
      | .err refusal => refusal.loses = true ∧ inst.browser.stored = some found
      | .hang => False := by
  intro inst h
  have hsteals : (Event.Ask inst.self job).steals = false := by cases hrequest <;> rfl
  have hworker : (inst.browser.step (.Ask inst.self job)).1.workers inst.self =
      ⟨[job], .Idle, (inst.browser.workers inst.self).slot⟩ := by
    simp only [Browser.step, Browser.set, Function.update_self, h.answered.rests.chain, h.answered.rests.task,
      List.nil_append]
  have hasked : Asked inst.self pageSize epoch found job task (inst.browser.step (.Ask inst.self job)).1 := by
    refine ⟨h.answered.exclusive.step hsteals, ?_, Or.inl ?_⟩
    · rw [hworker]
      exact h.answered.held
    · rw [hworker]
      exact ⟨rfl, rfl⟩
  have hwait := wait_goes hasked hrequest h.polite
  unfold ask
  dsimp only
  rw [h.answer]
  generalize wait inst.self inst.schedule (inst.browser.step (.Ask inst.self job)).1 none = waited at hwait
  obtain ⟨_ | answer, browser, rest⟩ := waited
  · exact ⟨rfl, hwait.2⟩
  · obtain ⟨hrest, after, hanswered, hyields⟩ := hwait
    exact ⟨after, ⟨rfl, hrest, hanswered⟩, hyields⟩

theorem fault_ne_head (failure : Worker.Failure) (head : LocalHead) : fault failure ≠ .Head head := by
  unfold fault
  split_ifs <;> simp

-- The head that is answered is the one that is stored.
theorem resume_head {create takeover : Bool} {size : Nat} (h : browser.Exclusive)
    (hruns : Runs (.Open size create takeover) (browser.workers self).task) {failure : Option Worker.Failure}
    {head : LocalHead} (hanswer : (browser.resume self failure).2 = some (.Head head)) :
    ∃ found, found.head = some head ∧
      Open head.pageSize head.epoch found ((browser.resume self failure).1.workers self) := by
  unfold Browser.resume at hanswer ⊢
  cases htask : (browser.workers self).task with
  | Bumped known lock connection found =>
      have hslot := h.seated self
      rw [Seated, htask] at hslot
      rw [htask] at hanswer
      cases known with
      | none => cases failure <;> cases hanswer
      | some known =>
          obtain ⟨-, stored, hstored, hknows⟩ := h.owns self ⟨connection.generation, known.epoch, found⟩
            (by rw [Worker.claim, hslot, htask])
          rw [Knows, hslot, htask] at hknows
          obtain rfl : known = stored := hknows
          have hopen : Open known.pageSize known.epoch found (((browser.set self { browser.workers self with
              slot := some ⟨connection, known.pageSize, known.epoch, lock, false, found⟩ }).put self
              (.Head known)).1.workers self) := by
            rw [put_set]
            simp only [Browser.set, Function.update_self]
            exact ⟨_, rfl, rfl, rfl, rfl⟩
          cases failure <;> cases hanswer <;> exact ⟨found, hstored, hopen⟩
  | Acquiring pageSize create' steal =>
      rw [htask] at hanswer
      cases failure with
      | some failure => simp [Browser.put, fault_ne_head] at hanswer
      | none =>
          dsimp only at hanswer
          split at hanswer <;> simp [Browser.put, Browser.await] at hanswer
  | Connecting pageSize create' lock =>
      rw [htask] at hanswer
      cases failure <;> simp [Browser.put, Browser.await, fault_ne_head] at hanswer
  | Bumping pageSize create' lock connection =>
      rw [htask] at hanswer
      cases failure <;> simp [Browser.put, Browser.await, fault_ne_head] at hanswer
  | Withdrawing lock =>
      rw [htask] at hanswer
      cases failure with
      | some failure => simp [Browser.put, fault_ne_head] at hanswer
      | none =>
          simp only [Browser.delete] at hanswer
          split_ifs at hanswer
          simp [Browser.put] at hanswer
  | _ =>
      rw [htask] at hruns
      exact hruns.elim

theorem turn_head {create takeover : Bool} {size : Nat} (h : browser.Exclusive)
    (hduring : (browser.workers self).During (.Open size create takeover)) {event : Event n} {head : LocalHead}
    (hanswer : (turn self event browser).2 = some (.Head head)) :
    ∃ found, found.head = some head ∧
      Open head.pageSize head.epoch found ((turn self event browser).1.workers self) := by
  by_cases howner : event.of = self
  · cases event with
    | Take i =>
        obtain rfl : i = self := howner
        simp only [turn, if_true, Browser.step] at hanswer
        obtain ⟨⟨hidle, hchain⟩ | ⟨hruns, hchain⟩, -⟩ := hduring
        · rw [hidle, hchain] at hanswer
          simp only [Browser.start] at hanswer
          split_ifs at hanswer
          · simp [Browser.put, thrown, fault_ne_head] at hanswer
          · cases hanswer
        · rw [hchain] at hanswer
          split at hanswer
          · rename_i hnil
            cases hnil
          · cases hanswer
    | Resume i failure =>
        obtain rfl : i = self := howner
        simp only [turn, if_true] at hanswer ⊢
        obtain ⟨⟨hidle, -⟩ | ⟨hruns, -⟩, -⟩ := hduring
        · simp only [Browser.step, Browser.resume, hidle] at hanswer
          cases hanswer
        · exact resume_head h hruns hanswer
    | Ask i other =>
        simp only [turn] at hanswer
        split_ifs at hanswer
    | Lose i => cases hanswer
    | Shut i => cases hanswer
  · cases (turn_other h.seated howner).1.symm.trans hanswer

theorem wait_head {create takeover : Bool} {size : Nat}
    (hduring : (browser.workers self).During (.Open size create takeover)) (hexclusive : browser.Exclusive)
    {schedule : List (Option (Event n))} (hpolite : Polite schedule)
    {head : LocalHead} {after : Browser n} {rest : List (Option (Event n))}
    (hwait : wait self schedule browser none = (some (.Head head), after, rest)) :
    Polite rest ∧ ∃ found, found.head = some head ∧ Answered self head.pageSize head.epoch found after := by
  induction schedule generalizing browser with
  | nil => cases hwait
  | cons entry schedule ih =>
      cases entry with
      | none => cases hwait
      | some event =>
          have hhead := @turn_head n self browser _ _ _ hexclusive hduring event
          have hturn := turn_proceeds hduring hexclusive.seated event
          have hkept := turn_exclusive self hexclusive (hpolite event List.mem_cons_self)
          rw [wait] at hwait
          generalize turn self event browser = turned at hhead hturn hkept hwait
          obtain ⟨now, put⟩ := turned
          cases put with
          | none => exact ih hturn hkept hpolite.tail hwait
          | some put =>
              dsimp only at hwait
              rw [wait_some] at hwait
              simp only [Prod.mk.injEq, Option.some.injEq] at hwait
              obtain ⟨rfl, rfl, rfl⟩ := hwait
              obtain ⟨found, hfound, hopen⟩ := hhead rfl
              exact ⟨hpolite.tail, found, hfound, hkept, hopen, hturn.1⟩

-- Before the database is opened.
structure Vacant (inst : Instance n) : Prop where
  answer : inst.answer = none
  rests : (inst.browser.workers inst.self).Rests
  exclusive : inst.browser.Exclusive
  polite : Polite inst.schedule
  slot : (inst.browser.workers inst.self).slot = none

theorem ask_opens {create : Bool} {size : Nat} {inst after : Instance n} (h : inst.Vacant) {head : LocalHead}
    (hask : ask (.Open size create false) inst = (.ok (.Head head), after)) :
    ∃ found, found.head = some head ∧ Holding head.pageSize head.epoch found after := by
  have hworker : (inst.browser.step (.Ask inst.self (.Open size create false))).1.workers inst.self =
      ⟨[.Open size create false], .Idle, (inst.browser.workers inst.self).slot⟩ := by
    simp only [Browser.step, Browser.set, Function.update_self, h.rests.chain, h.rests.task,
      List.nil_append]
  have hduring : ((inst.browser.step (.Ask inst.self (.Open size create false))).1.workers inst.self).During
      (.Open size create false) := by
    rw [hworker]
    exact ⟨Or.inl ⟨rfl, rfl⟩, fun _ _ _ _ => h.slot⟩
  unfold ask at hask
  dsimp only at hask
  rw [h.answer] at hask
  split at hask
  · rename_i answer browser rest hwait
    cases hask
    obtain ⟨hrest, found, hhead, hanswered⟩ := wait_head hduring (h.exclusive.step rfl) h.polite hwait
    exact ⟨found, hhead, rfl, hrest, hanswered⟩
  · cases hask

theorem openDatabase_holding {inst after : Instance n} (h : inst.Vacant) {name : String} {size : Nat}
    {create : Bool} {opened : LocalOpened}
    (hopen : openDatabase name size create false inst = (.ok opened, after)) :
    ∃ found, found.head = some ⟨opened.pageSize, opened.pageCount, opened.epoch⟩ ∧
      Holding opened.pageSize opened.epoch found after := by
  unfold openDatabase at hopen
  split at hopen
  · cases hopen
  · cases hask : ask (.Open size create false) inst with
    | mk result now =>
        cases result with
        | hang => exact absurd hask ask_ne_hang
        | err refusal =>
            rw [Prog.bind_err _ hask] at hopen
            cases hopen
        | ok answer =>
            rw [Prog.bind_ok _ hask] at hopen
            cases answer with
            | Head head =>
                cases hopen
                exact ask_opens h hask
            | _ => cases hopen

-- The file of the database as the browser has it at the moment.
def file (inst : Instance n) : FlatFile UInt8 := Stored.file inst.browser.stored

theorem file_of_stored {inst : Instance n} {head : LocalHead} (hstored : inst.browser.stored = some found)
    (hhead : found.head = some head) :
    inst.file = .ofBlocks head.pageSize head.pageCount (found.content head.pageSize) := by
  rw [file, hstored, Stored.file, hhead]

def Holds (epoch pageSize pageCount : Nat) (blocks : Nat → Bytes) (inst : Instance n) : Prop :=
  ∃ found, found.head = some ⟨pageSize, pageCount, epoch⟩ ∧ blocks = found.content pageSize ∧
    Holding pageSize epoch found inst

theorem read_holds {pageCount : Nat} {stored : Nat → Bytes} (first count : Nat) :
    Triple (Holds epoch pageSize pageCount stored) (read first count : Prog (Instance n) Refusal (List Bytes))
      fun o inst => match o with
      | .ok blocks => Holds epoch pageSize pageCount stored inst ∧ blocks = (List.range' first count).map stored
      | .err refusal => inst.file = .ofBlocks pageSize pageCount stored ∧
          (refusal.loses = false → Holds epoch pageSize pageCount stored inst)
      | .hang => False := by
  rintro inst ⟨found, hhead, rfl, hholding⟩
  have hask := ask_holding (Request.Read first count) inst hholding
  have herr {after : Instance n} (h : Holding pageSize epoch found after) (refusal : Refusal) :
      after.file = .ofBlocks pageSize pageCount (found.content pageSize) ∧
        (refusal.loses = false → Holds epoch pageSize pageCount (found.content pageSize) after) :=
    ⟨file_of_stored h.stored.1 hhead, fun _ => ⟨found, hhead, rfl, h⟩⟩
  unfold read
  rw [bind_apply]
  generalize ask (.Read first count) inst = run at hask
  obtain ⟨answer | refusal | _, after⟩ := run
  · obtain ⟨state, hafter, rfl, hblocks⟩ := hask
    cases answer with
    | Blocks size blocks =>
        obtain ⟨rfl, hread⟩ := Stored.content_of_localRead (hblocks size blocks rfl)
        dsimp only
        split_ifs
        · exact herr hafter _
        · exact ⟨⟨state, hhead, rfl, hafter⟩, hread⟩
    | _ => exact herr hafter _
  · obtain ⟨hloses, hstored⟩ := hask
    exact ⟨file_of_stored hstored hhead, fun hkept => by rw [hloses] at hkept; cases hkept⟩
  · exact hask.elim

theorem commit_holds {pageCount newCount : Nat} {stored : Nat → Bytes} {blocks : List (Nat × Bytes)}
    (hsized : ∀ entry ∈ blocks, entry.2.length = pageSize) :
    Triple (Holds epoch pageSize pageCount stored)
      (commit epoch newCount blocks : Prog (Instance n) Refusal Unit)
      fun o inst => match o with
      | .ok _ => Holds epoch pageSize newCount (overlaid pageSize newCount blocks stored) inst
      | .err _ => inst.file = .ofBlocks pageSize pageCount stored
      | .hang => False := by
  rintro inst ⟨found, hhead, rfl, hholding⟩
  have hask := ask_holding (Request.Commit newCount blocks) inst hholding
  unfold commit
  rw [bind_apply]
  generalize ask (.Commit epoch newCount blocks) inst = run at hask
  obtain ⟨answer | refusal | _, after⟩ := run
  · obtain ⟨state, hafter, hyields⟩ := hask
    cases answer with
    | Done =>
        rw [Yields, if_pos rfl] at hyields
        subst hyields
        exact ⟨_, rfl, (@Stored.content_commit ⟨pageSize, newCount, epoch⟩ blocks found hsized).symm, hafter⟩
    | _ =>
        rw [Yields, if_neg (by simp)] at hyields
        subst hyields
        exact file_of_stored hafter.stored.1 hhead
  · exact file_of_stored hask.2 hhead
  · exact hask.elim

-- The bridge of an instance keeps its local database, as long as nobody takes it over.
def keeper (debugBroken : Broken → String) : Keeper (bridge (n := n) debugBroken) where
  Free := Vacant
  Holds := Holds
  blocks inst := Stored.blocksOf inst.browser.stored
  shown := file
  stores := by
    rintro epoch pageSize pageCount stored inst ⟨found, hhead, rfl, hholding⟩
    rw [hholding.stored.1, Stored.blocksOf, hhead]
  sized := by
    rintro epoch pageSize pageCount stored inst ⟨found, hhead, rfl, hholding⟩ i
    exact Stored.length_content _ _ _
  shows := by
    rintro epoch pageSize pageCount stored inst ⟨found, hhead, rfl, hholding⟩
    exact file_of_stored hholding.stored.1 hhead
  opens name pageSize create inst h opened hopened := by
    obtain ⟨found, hhead, hholding⟩ := openDatabase_holding h (Prod.ext hopened rfl)
    exact ⟨found.content opened.pageSize, found, hhead, rfl, hholding⟩
  reads epoch pageSize pageCount stored first count := read_holds first count
  commits epoch pageSize pageCount stored newCount blocks hsized := commit_holds hsized
  now h := h

variable {start : Browser n} {events : List (Event n)} {inst : Instance n}

open LocalDatabase

def first : Fin 2 := ⟨0, Nat.zero_lt_two⟩

def second : Fin 2 := ⟨1, Nat.one_lt_two⟩

-- The second instance wants to open the database while the first one commits.
def contended : Instance 2 where
  self := first
  browser := twoInstances
  schedule := [.Take first, .Resume first none, .Resume first none, .Resume first none, .Resume first none,
    .Take first, .Ask second (.Open 2 true false), .Take second, .Resume second none,
    .Resume first none].map some
  answer := none
  clock := 0
  late := false

theorem contended_polite : Polite contended.schedule := by
  have hall : ∀ entry ∈ contended.schedule, entry.all (·.steals = false) = true := by decide +kernel
  intro event hmem
  simpa using hall (some event) hmem

def createOptions : LocalOptions := ⟨2, true, false, some ⟨1, 32⟩, none⟩

-- The database that the first instance creates.
def created : LocalDatabase (Instance 2) × Desk (Instance 2) :=
  match openOn (bridge fun _ => "") "db" createOptions ⟨{}, contended⟩ with
  | (.ok db, desk) => (db, desk)
  | (_, desk) => (⟨.new 1 0 none none, desk.stats, ⟨0, none, desk.world⟩⟩, desk)

def writeCommitRead : List LocalDatabase.Op := [.Write 0 [7, 8], .Commit, .Read 0 2]

end Instance

end RemoteVfs
