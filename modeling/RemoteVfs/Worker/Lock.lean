import RemoteVfs.Worker.Fencing

namespace RemoteVfs

open Worker

namespace Worker

-- Which jobs run with an open database, and which without one.
def Seated (worker : Worker) : Prop :=
  match worker.task with
  | .Idle => True
  | .Reading _ _ | .Committing _ _ _ => worker.slot ≠ none
  | _ => worker.slot = none

-- The lock of a worker, with its mark.
def lockOf (worker : Worker) : Option HeldLock :=
  match worker.slot, worker.task with
  | some slot, _ => some slot.lock
  | none, .Connecting _ _ lock | none, .Bumping _ _ lock _ | none, .Bumped _ lock _ _
  | none, .Withdrawing lock | none, .Deleting lock => some lock
  | none, _ => none

-- The lock that a worker holds or has lost.
def token (worker : Worker) : Option Nat := worker.lockOf.map HeldLock.token

-- A job that takes the lock from its holder.
def Job.steals : Job → Bool
  | .Open _ _ takeover | .Delete takeover => takeover
  | _ => false

def Task.steals : Task → Bool
  | .Acquiring _ _ takeover | .Seizing takeover => takeover
  | _ => false

def Polite (worker : Worker) : Prop :=
  (∀ job ∈ worker.chain, job.steals = false) ∧ worker.task.steals = false

-- What the worker knows of the head that is stored.
def Knows (worker : Worker) (head : LocalHead) : Prop :=
  match worker.slot, worker.task with
  | some slot, _ => head.pageSize = slot.pageSize ∧ head.epoch = slot.epoch
  | none, .Bumped (some known) _ _ _ => known = head
  | none, _ => True

-- The database is open only under the lock.
theorem lockOf_of_claim {worker : Worker} {claim : Claim} (h : worker.claim = some claim) :
    worker.lockOf ≠ none := by
  obtain ⟨chain, task, slot⟩ := worker
  cases slot with
  | some slot => simp [lockOf]
  | none => cases task <;> first | cases h | simp [lockOf]

end Worker

namespace Browser

variable {n : Nat} {browser after : Browser n} {i : Fin n} {calm : Prop} {worker : Worker}

-- While the database is open, the lock is in the slot, whatever the worker does.
theorem lockOf_open (h : worker.slot ≠ none) (task : Task) :
    ({ worker with task := task } : Worker).lockOf = worker.lockOf := by
  obtain ⟨slot, hslot⟩ := Option.ne_none_iff_exists'.mp h
  rw [lockOf, lockOf, hslot]

-- What is stored is what the instance has found or committed last.
def Owns (stored : Option Stored) (worker : Worker) : Prop :=
  ∀ claim, worker.claim = some claim →
    stored = some claim.found ∧ ∃ head, claim.found.head = some head ∧ worker.Knows head

-- What becomes of the lock of a worker. It stays, perhaps marked as lost, and only its holder
-- changes what is stored; it is given up; or it is granted, in `calm` only while it is free.
inductive Grip (calm : Prop) (browser after : Browser n) (old worker : Worker) : Prop where
  | Keep (lock : after.lock = browser.lock) (mine : worker.lockOf = old.lockOf)
      (stored : after.stored = browser.stored ∨ old.lockOf ≠ none)
  | Notice (lock : after.lock = browser.lock) (mine : worker.lockOf = old.lockOf.map (notify browser.lock))
      (stored : after.stored = browser.stored)
  | Release (held : HeldLock) (mine : old.lockOf = some held) (gone : worker.lockOf = none)
      (lock : ∀ token, after.lock = some token → browser.lock = some token ∧ held.token ≠ token)
  | Grant (held : HeldLock) (mine : worker.lockOf = some held) (valid : held.lost = false)
      (lock : after.lock = some held.token) (free : calm → browser.lock = none)

-- What an event does to one worker, to the lock and to what is stored.
structure Change (calm : Prop) (browser : Browser n) (i : Fin n) (after : Browser n) : Prop where
  workers : after.workers = Function.update browser.workers i (after.workers i)
  seated : (after.workers i).Seated
  polite : calm → (after.workers i).Polite
  grip : Grip calm browser after (browser.workers i) (after.workers i)
  owns : Owns browser.stored (browser.workers i) → Owns after.stored (after.workers i)

theorem Change.of_update (hworkers : after.workers = Function.update browser.workers i worker)
    (hseated : worker.Seated) (hpolite : calm → worker.Polite)
    (hgrip : Grip calm browser after (browser.workers i) worker)
    (howns : Owns browser.stored (browser.workers i) → Owns after.stored worker) :
    Change calm browser i after := by
  have hself : after.workers i = worker := by rw [hworkers, Function.update_self]
  rw [← hself] at hworkers hseated hpolite hgrip howns
  exact ⟨hworkers, hseated, hpolite, hgrip, howns⟩

-- The worker keeps its lock, and nothing is stored.
theorem Change.set (hseated : worker.Seated) (hpolite : calm → worker.Polite)
    (hlock : worker.lockOf = (browser.workers i).lockOf)
    (howns : Owns browser.stored (browser.workers i) → Owns browser.stored worker) :
    Change calm browser i (browser.set i worker) :=
  .of_update rfl hseated hpolite (.Keep rfl hlock (Or.inl rfl)) howns

theorem Change.same (hseated : (browser.workers i).Seated) (hpolite : calm → (browser.workers i).Polite) :
    Change calm browser i browser :=
  ⟨(Function.update_eq_self ..).symm, hseated, hpolite, .Keep rfl rfl (Or.inl rfl), id⟩

theorem owns_of_claim {stored : Option Stored} (h : worker.claim = none) : Owns stored worker :=
  fun claim hclaim => by cases h.symm.trans hclaim

theorem Owns.idle {stored : Option Stored} (h : Owns stored worker) :
    Owns stored { worker with task := .Idle } := by
  intro claim hclaim
  cases hslot : worker.slot with
  | none =>
      rw [Worker.claim, hslot] at hclaim
      cases hclaim
  | some slot =>
      have hmine := h claim
      rw [Worker.claim, hslot] at hclaim hmine
      simp only [Knows, hslot] at hmine ⊢
      exact hmine hclaim

-- What is stored, and the head of it, while the database is open.
theorem Owns.found {stored : Option Stored} (h : Owns stored worker) {slot : Local}
    (hslot : worker.slot = some slot) :
    stored = some slot.found ∧ ∃ head, slot.found.head = some head ∧ head.epoch = slot.epoch ∧
      slot.pageSize = head.pageSize := by
  obtain ⟨hstored, head, hhead, hknows⟩ :=
    h ⟨slot.connection.generation, slot.epoch, slot.found⟩ (by rw [Worker.claim, hslot])
  rw [Knows, hslot] at hknows
  exact ⟨hstored, head, hhead, hknows.2, hknows.1.symm⟩

-- A job ends that has no lock of its own.
theorem Change.put (hpolite : calm → (browser.workers i).Polite)
    (hkept : ({ browser.workers i with task := .Idle } : Worker).lockOf = (browser.workers i).lockOf)
    (answer : Answer) : Change calm browser i (browser.put i answer).1 :=
  .set trivial (fun hcalm => ⟨(hpolite hcalm).1, rfl⟩) hkept Owns.idle

theorem release_lock {held : HeldLock} (token : Nat) (h : (browser.release held).lock = some token) :
    browser.lock = some token ∧ held.token ≠ token := by
  unfold Browser.release at h
  split_ifs at h with hheld
  exact ⟨h, fun heq => hheld (heq ▸ h)⟩

-- A job ends that gives its lock up.
theorem Change.release {held : HeldLock} (hpolite : calm → (browser.workers i).Polite)
    (hmine : (browser.workers i).lockOf = some held) (hslot : worker.slot = none)
    (hchain : worker.chain = (browser.workers i).chain) (hidle : worker.task = .Idle) :
    Change calm browser i ((browser.release held).set i worker) := by
  refine .of_update (by rw [Browser.set, workers_release]) ?_ (fun hcalm => ?_)
    (.Release held hmine ?_ release_lock) fun _ => owns_of_claim (by rw [Worker.claim, hslot, hidle])
  · rw [Seated, hidle]
    trivial
  · rw [Polite, hchain, hidle]
    exact ⟨(hpolite hcalm).1, rfl⟩
  · rw [lockOf, hslot, hidle]

theorem Change.releasePut {held : HeldLock} (hpolite : calm → (browser.workers i).Polite)
    (hslot : (browser.workers i).slot = none) (hmine : (browser.workers i).lockOf = some held)
    (answer : Answer) : Change calm browser i ((browser.release held).put i answer).1 := by
  unfold Browser.put Browser.setTask
  rw [workers_release]
  exact .release hpolite hmine hslot rfl rfl

-- A lock is wanted. A takeover gets it always.
theorem Change.acquire {task : HeldLock → Task} {steal : Bool} (hpolite : calm → (browser.workers i).Polite)
    (hcalm : calm → steal = false) (hslot : (browser.workers i).slot = none)
    (hidle : (browser.workers i).lockOf = none)
    (htask : ∀ lock, ({ browser.workers i with task := task lock } : Worker).lockOf = some lock ∧
      ({ browser.workers i with task := task lock } : Worker).Seated ∧ (task lock).steals = false ∧
      ({ browser.workers i with task := task lock } : Worker).claim = none) :
    Change calm browser i (match browser.acquire steal with
      | (none, browser) => browser.put i .Busy
      | (some lock, browser) => browser.await i (task lock)).1 := by
  unfold Browser.acquire
  split_ifs with hfree
  · obtain ⟨hlock, hseated, hsteals, hclaim⟩ := htask ⟨browser.tokens, false⟩
    refine .of_update rfl hseated (fun h => ⟨(hpolite h).1, hsteals⟩) (.Grant _ hlock rfl rfl fun h => ?_)
      fun _ => owns_of_claim hclaim
    simpa [hcalm h] using hfree
  · exact .put hpolite (by rw [hidle, lockOf, hslot]) _

theorem Change.delete {held : HeldLock} (hpolite : calm → (browser.workers i).Polite)
    (hseated : (browser.workers i).Seated) (hslot : (browser.workers i).slot = none)
    (hmine : (browser.workers i).lockOf = some held) (answer : Answer) :
    Change calm browser i (browser.delete i held answer).1 := by
  unfold Browser.delete
  split_ifs
  · have hworkers : ((browser.deleteIndexedDb.release held).put i answer).1.workers =
        Function.update browser.workers i { browser.workers i with task := .Idle } := by
      unfold Browser.put Browser.setTask Browser.set
      rw [workers_release]
      rfl
    refine .of_update hworkers trivial (fun hcalm => ⟨(hpolite hcalm).1, rfl⟩)
      (.Release held hmine (by rw [lockOf, hslot]) ?_) fun _ => owns_of_claim (by rw [Worker.claim, hslot])
    exact @release_lock _ browser.deleteIndexedDb held
  · exact .same hseated hpolite

theorem owns_bumped (hslot : worker.slot = none) {pageSize : Nat} {create : Bool}
    {stored : Stored} {lock : HeldLock} {connection : Connection} :
    Owns (some (bump pageSize create stored).2) { worker with
      task := .Bumped (bump pageSize create stored).1 lock connection (bump pageSize create stored).2 } := by
  intro claim hclaim
  rw [Worker.claim, hslot] at hclaim
  cases hhead : (bump pageSize create stored).1 with
  | none =>
      rw [hhead] at hclaim
      cases hclaim
  | some head =>
      rw [hhead] at hclaim
      cases hclaim
      exact ⟨rfl, head, bump_head hhead, by rw [Knows, hslot]⟩

-- The database is open now, with what the opening found.
theorem Owns.opened {stored : Option Stored} (h : Owns stored worker) {head : LocalHead} {lock : HeldLock}
    {connection : Connection} {found : Stored} (hslot : worker.slot = none)
    (htask : worker.task = .Bumped (some head) lock connection found) :
    Owns stored { worker with
      task := .Idle, slot := some ⟨connection, head.pageSize, head.epoch, lock, false, found⟩ } := by
  intro claim hclaim
  have hbumped := h claim
  rw [Worker.claim, hslot, htask] at hbumped
  obtain ⟨hstored, known, hknown, hknows⟩ := hbumped hclaim
  rw [Knows, hslot, htask] at hknows
  exact ⟨hstored, known, hknown, hknows ▸ ⟨rfl, rfl⟩⟩

-- The transaction of a commit that the epoch allows.
theorem Owns.committed {stored : Option Stored} (h : Owns stored worker) {epoch pageCount : Nat}
    {blocks : List (Nat × Bytes)} {state : Stored}
    (hlocal : localCommit (stored.getD .empty) epoch pageCount blocks = some state) :
    Owns (some state) { worker with
      task := .Idle, slot := worker.slot.map fun slot => { slot with found := state } } := by
  intro claim hclaim
  cases hslot : worker.slot with
  | none =>
      simp only [Worker.claim, hslot, Option.map_none] at hclaim
      cases hclaim
  | some slot =>
      obtain ⟨hstored, head, hhead, hepoch, hsize⟩ := h.found hslot
      rw [hstored, Option.getD_some] at hlocal
      simp only [localCommit, hhead] at hlocal
      split_ifs at hlocal with hsame
      cases hlocal
      simp only [Worker.claim, hslot, Option.map_some, Option.some.injEq] at hclaim
      subst hclaim
      exact ⟨rfl, _, rfl, hsize.symm, hsame.symm.trans hepoch⟩

theorem resume_change (hseated : (browser.workers i).Seated) (hpolite : calm → (browser.workers i).Polite)
    (failure : Option Worker.Failure) : Change calm browser i (browser.resume i failure).1 := by
  have hchain : calm → ∀ job ∈ (browser.workers i).chain, job.steals = false := fun h => (hpolite h).1
  unfold Browser.resume
  cases htask : (browser.workers i).task with
  | Idle => exact .same hseated hpolite
  | Acquiring pageSize create takeover =>
      have hslot : (browser.workers i).slot = none := by rwa [Seated, htask] at hseated
      have hidle : (browser.workers i).lockOf = none := by rw [lockOf, hslot, htask]
      cases failure with
      | some failure => exact .put hpolite (by rw [hidle, lockOf, hslot]) _
      | none =>
          refine .acquire hpolite (fun h => ?_) hslot hidle fun lock =>
            ⟨by rw [lockOf, hslot], hslot, rfl, by rw [Worker.claim, hslot]⟩
          have hsteals := (hpolite h).2
          rwa [htask] at hsteals
  | Connecting pageSize create lock =>
      have hslot : (browser.workers i).slot = none := by rwa [Seated, htask] at hseated
      have hmine : (browser.workers i).lockOf = some lock := by rw [lockOf, hslot, htask]
      cases failure with
      | some failure => exact .releasePut hpolite hslot hmine _
      | none =>
          refine .of_update rfl hslot (fun h => ⟨hchain h, rfl⟩) (.Keep rfl ?_ (Or.inr (by rw [hmine]; simp)))
            fun _ => owns_of_claim (by simp only [Worker.claim, hslot])
          rw [hmine]
          simp only [lockOf, hslot]
  | Bumping pageSize create lock connection =>
      have hslot : (browser.workers i).slot = none := by rwa [Seated, htask] at hseated
      have hmine : (browser.workers i).lockOf = some lock := by rw [lockOf, hslot, htask]
      cases failure with
      | some failure => exact .releasePut hpolite hslot hmine _
      | none =>
          refine .of_update rfl hslot (fun h => ⟨hchain h, rfl⟩) (.Keep rfl ?_ (Or.inr (by rw [hmine]; simp)))
            fun _ => owns_bumped hslot
          rw [hmine]
          simp only [lockOf, store, hslot]
  | Bumped head lock connection found =>
      have hslot : (browser.workers i).slot = none := by rwa [Seated, htask] at hseated
      have hmine : (browser.workers i).lockOf = some lock := by rw [lockOf, hslot, htask]
      cases head with
      | none =>
          exact .set hslot (fun h => ⟨hchain h, rfl⟩) (by rw [hmine, lockOf, hslot])
            fun _ => owns_of_claim (by rw [Worker.claim, hslot])
      | some head =>
          dsimp only
          rw [put_set]
          exact .set trivial (fun h => ⟨hchain h, rfl⟩) (by rw [hmine, lockOf]) fun h => h.opened hslot htask
  | Withdrawing lock =>
      have hslot : (browser.workers i).slot = none := by rwa [Seated, htask] at hseated
      have hmine : (browser.workers i).lockOf = some lock := by rw [lockOf, hslot, htask]
      cases failure with
      | some failure => exact .releasePut hpolite hslot hmine _
      | none => exact .delete hpolite hseated hslot hmine _
  | Reading first count =>
      have hopen : (browser.workers i).slot ≠ none := by rwa [Seated, htask] at hseated
      cases failure with
      | some failure => exact .put hpolite (lockOf_open hopen _) _
      | none =>
          cases hslot : (browser.workers i).slot with
          | none => exact absurd hslot hopen
          | some slot => exact .put hpolite (lockOf_open hopen _) _
  | Committing epoch pageCount blocks =>
      have hopen : (browser.workers i).slot ≠ none := by rwa [Seated, htask] at hseated
      cases failure with
      | some failure => exact .put hpolite (lockOf_open hopen _) _
      | none =>
          dsimp only
          cases hlocal : localCommit (browser.stored.getD .empty) epoch pageCount blocks with
          | none => exact .put hpolite (lockOf_open hopen _) _
          | some stored =>
              dsimp only
              rw [put_set]
              obtain ⟨slot, hslot⟩ := Option.ne_none_iff_exists'.mp hopen
              refine .of_update rfl trivial (fun h => ⟨hchain h, rfl⟩) (.Keep rfl ?_ (Or.inr ?_))
                fun h => h.committed hlocal
              · simp only [lockOf, hslot, Option.map_some]
              · simp [lockOf, hslot]
  | Seizing takeover =>
      have hslot : (browser.workers i).slot = none := by rwa [Seated, htask] at hseated
      have hidle : (browser.workers i).lockOf = none := by rw [lockOf, hslot, htask]
      cases failure with
      | some failure => exact .put hpolite (by rw [hidle, lockOf, hslot]) _
      | none =>
          refine .acquire hpolite (fun h => ?_) hslot hidle fun lock =>
            ⟨by rw [lockOf, hslot], hslot, rfl, by rw [Worker.claim, hslot]⟩
          have hsteals := (hpolite h).2
          rwa [htask] at hsteals
  | Deleting lock =>
      have hslot : (browser.workers i).slot = none := by rwa [Seated, htask] at hseated
      have hmine : (browser.workers i).lockOf = some lock := by rw [lockOf, hslot, htask]
      cases failure with
      | some failure => exact .releasePut hpolite hslot hmine _
      | none => exact .delete hpolite hseated hslot hmine _

-- A worker without a job starts one.
section Start

variable (hidle : (browser.workers i).task = .Idle)

include hidle

theorem lockOf_idle :
    ({ browser.workers i with task := .Idle } : Worker).lockOf = (browser.workers i).lockOf := by
  rw [lockOf, lockOf, hidle]

theorem transaction_change {task : Task} (hpolite : calm → (browser.workers i).Polite)
    (hseated : (browser.workers i).slot ≠ none → ({ browser.workers i with task := task } : Worker).Seated)
    (hsteals : task.steals = false) : Change calm browser i (browser.transaction i task).1 := by
  have hkept := lockOf_idle hidle
  unfold Browser.transaction
  cases hslot : (browser.workers i).slot with
  | none => exact .put hpolite hkept _
  | some slot =>
      dsimp only
      split_ifs
      · exact .put hpolite hkept _
      · exact .put hpolite hkept _
      · exact .put hpolite hkept _
      · have hopen : (browser.workers i).slot ≠ none := by rw [hslot]; simp
        refine .set (hseated hopen) (fun h => ⟨(hpolite h).1, hsteals⟩) (lockOf_open hopen _)
          fun howns claim hclaim => ?_
        have hmine := howns claim
        rw [Worker.claim, hslot] at hclaim hmine
        simp only [Knows, hslot] at hmine ⊢
        exact hmine hclaim

theorem start_change {job : Job} (hpolite : calm → (browser.workers i).Polite)
    (hsteals : calm → job.steals = false) : Change calm browser i (browser.start i job).1 := by
  have hkept := lockOf_idle hidle
  -- a job that needs no open database
  have halone : ∀ task : Task, (browser.workers i).slot = none → (calm → task.steals = false) →
      ({ browser.workers i with task := task } : Worker).Seated →
      ({ browser.workers i with task := task } : Worker).lockOf = none →
      ({ browser.workers i with task := task } : Worker).claim = none →
      Change calm browser i (browser.await i task).1 := fun task hslot hsteals hseated hlock hclaim =>
    .set hseated (fun h => ⟨(hpolite h).1, hsteals h⟩) (by rw [hlock, lockOf, hslot, hidle])
      fun _ => owns_of_claim hclaim
  unfold Browser.start
  cases job with
  | Open pageSize create takeover =>
      dsimp only
      split_ifs with hslot
      · exact .put hpolite hkept _
      · have hnone : (browser.workers i).slot = none := by simpa using hslot
        exact halone _ hnone hsteals hnone (by rw [lockOf, hnone]) (by rw [Worker.claim, hnone])
  | Read first count => exact transaction_change hidle hpolite id rfl
  | Commit epoch pageCount blocks => exact transaction_change hidle hpolite id rfl
  | Close =>
      dsimp only
      cases hslot : (browser.workers i).slot with
      | none => exact .put hpolite hkept _
      | some slot =>
          dsimp only
          rw [put_set]
          exact .release hpolite (by rw [lockOf, hslot]) rfl rfl rfl
  | Delete takeover =>
      dsimp only
      split_ifs with hslot
      · exact .put hpolite hkept _
      · have hnone : (browser.workers i).slot = none := by simpa using hslot
        exact halone _ hnone hsteals hnone (by rw [lockOf, hnone]) (by rw [Worker.claim, hnone])

end Start

-- The worker is told that it has lost its lock.
theorem lose_keeps (holder : Option Nat) (h : worker.Seated) :
    (lose holder worker).Seated ∧ (lose holder worker).lockOf = worker.lockOf.map (notify holder) ∧
      (lose holder worker).task.steals = worker.task.steals ∧ (lose holder worker).claim = worker.claim ∧
      (lose holder worker).Knows = worker.Knows := by
  obtain ⟨chain, task, slot⟩ := worker
  cases slot with
  | some slot =>
      cases task with
      | Idle => exact ⟨trivial, rfl, rfl, rfl, rfl⟩
      | Reading first count => exact ⟨Option.some_ne_none _, rfl, rfl, rfl, rfl⟩
      | Committing epoch pageCount blocks => exact ⟨Option.some_ne_none _, rfl, rfl, rfl, rfl⟩
      | _ => cases h
  | none =>
      cases task with
      | Bumped head lock connection found => cases head <;> exact ⟨rfl, rfl, rfl, rfl, rfl⟩
      | _ => exact ⟨h, rfl, rfl, rfl, rfl⟩

-- What a worker has is still its own when its connection is closed.
theorem shut_keeps (h : worker.Seated) :
    (shut worker).Seated ∧ (shut worker).lockOf = worker.lockOf ∧
      (shut worker).task.steals = worker.task.steals ∧ (shut worker).claim = worker.claim ∧
      (shut worker).Knows = worker.Knows := by
  obtain ⟨chain, task, slot⟩ := worker
  cases slot with
  | some slot =>
      cases task with
      | Idle => exact ⟨trivial, rfl, rfl, rfl, rfl⟩
      | Reading first count => exact ⟨Option.some_ne_none _, rfl, rfl, rfl, rfl⟩
      | Committing epoch pageCount blocks => exact ⟨Option.some_ne_none _, rfl, rfl, rfl, rfl⟩
      | _ => cases h
  | none =>
      cases task with
      | Bumped head lock connection found => cases head <;> exact ⟨rfl, rfl, rfl, rfl, rfl⟩
      | _ => exact ⟨h, rfl, rfl, rfl, rfl⟩

theorem Owns.congr {stored : Option Stored} {other : Worker} (h : Owns stored worker)
    (hclaim : other.claim = worker.claim) (hknows : other.Knows = worker.Knows) : Owns stored other := by
  intro claim hmine
  rw [hknows]
  exact h claim (hclaim ▸ hmine)

-- The worker has taken a job off its chain before.
theorem Change.of_chain {rest : List Job} (hidle : (browser.workers i).task = .Idle)
    (h : Change calm (browser.set i ⟨rest, .Idle, (browser.workers i).slot⟩) i after) :
    Change calm browser i after := by
  have hself : (browser.set i ⟨rest, .Idle, (browser.workers i).slot⟩).workers i =
    ⟨rest, .Idle, (browser.workers i).slot⟩ := Function.update_self ..
  have hlock : (⟨rest, .Idle, (browser.workers i).slot⟩ : Worker).lockOf = (browser.workers i).lockOf :=
    lockOf_idle hidle
  obtain ⟨hworkers, hseated, hpolite, hgrip, howns⟩ := h
  rw [hself] at hgrip howns
  refine ⟨?_, hseated, hpolite, ?_, fun h => howns (h.idle.congr rfl rfl)⟩
  · rw [Browser.set, Function.update_idem] at hworkers
    exact hworkers
  · cases hgrip with
    | Keep lock mine stored => exact .Keep lock (mine.trans hlock) (hlock ▸ stored)
    | Notice lock mine stored => exact .Notice lock (hlock ▸ mine) stored
    | Release held mine gone lock => exact .Release held (hlock ▸ mine) gone lock
    | Grant held mine valid lock free => exact .Grant held mine valid lock free

theorem take_change (hseated : (browser.workers i).Seated) (hpolite : calm → (browser.workers i).Polite) :
    Change calm browser i (browser.step (.Take i)).1 := by
  simp only [Browser.step]
  cases htask : (browser.workers i).task with
  | Idle =>
      cases hchain : (browser.workers i).chain with
      | nil => exact .same hseated hpolite
      | cons job rest =>
          have hself : (browser.set i ⟨rest, .Idle, (browser.workers i).slot⟩).workers i =
            ⟨rest, .Idle, (browser.workers i).slot⟩ := Function.update_self ..
          have hjobs : calm → ∀ other ∈ job :: rest, other.steals = false := fun h => hchain ▸ (hpolite h).1
          refine .of_chain htask (start_change (by rw [hself]) (fun h => ?_) fun h =>
            hjobs h job List.mem_cons_self)
          rw [hself]
          exact ⟨fun other hmem => hjobs h other (List.mem_cons_of_mem _ hmem), rfl⟩
  | _ => exact .same hseated hpolite

def Event.steals : Event n → Bool
  | .Ask _ job => job.steals
  | _ => false

-- The worker that an event is about.
def Event.of : Event n → Fin n
  | .Ask i _ | .Take i | .Resume i _ | .Lose i | .Shut i => i

-- Without a takeover every event is calm.
theorem step_change (hseated : ∀ i, (browser.workers i).Seated) (event : Event n) :
    Change ((browser.workers event.of).Polite ∧ event.steals = false) browser event.of
      (browser.step event).1 := by
  cases event with
  | Ask i job =>
      refine .set (hseated i) (fun h => ⟨fun other hmem => ?_, h.1.2⟩) rfl fun howns => howns.congr rfl rfl
      rcases List.mem_append.mp hmem with hold | hnew
      · exact h.1.1 other hold
      · rw [List.mem_singleton.mp hnew]
        exact h.2
  | Take i => exact take_change (hseated i) And.left
  | Resume i failure => exact resume_change (hseated i) And.left failure
  | Lose i =>
      obtain ⟨hafter, hlock, hsteals, hclaim, hknows⟩ := lose_keeps browser.lock (hseated i)
      exact .of_update rfl hafter (fun h => ⟨h.1.1, hsteals.trans h.1.2⟩) (.Notice rfl hlock rfl)
        fun howns => howns.congr hclaim hknows
  | Shut i =>
      obtain ⟨hafter, hlock, hsteals, hclaim, hknows⟩ := shut_keeps (hseated i)
      exact .set hafter (fun h => ⟨h.1.1, hsteals.trans h.1.2⟩) hlock fun howns => howns.congr hclaim hknows

-- An event of one worker leaves the others alone.
theorem workers_step_ne (hseated : ∀ i, (browser.workers i).Seated) {event : Event n} {j : Fin n}
    (h : event.of ≠ j) : (browser.step event).1.workers j = browser.workers j := by
  rw [(step_change hseated event).workers, Function.update_of_ne h.symm]

-- Every lock that is held is known to a worker, so none is left behind.
structure Locked (browser : Browser n) : Prop where
  seated : ∀ i, (browser.workers i).Seated
  known : ∀ token, browser.lock = some token → ∃ i, (browser.workers i).token = some token

theorem Fresh.locked (h : browser.Fresh) (hlock : browser.lock = none) : browser.Locked where
  seated i := by rw [h.workers i]; trivial
  known token htoken := by rw [hlock] at htoken; cases htoken

theorem token_notify (holder : Option Nat) (lock : HeldLock) : (notify holder lock).token = lock.token := by
  unfold notify
  split_ifs <;> rfl

-- A lock that is held afterwards is the one of the worker, or of another one as before.
theorem Grip.known {old : Worker} (h : Grip calm browser after old worker) {token : Nat}
    (htoken : after.lock = some token) :
    worker.token = some token ∨ browser.lock = some token ∧ old.token ≠ some token := by
  have hkept : after.lock = browser.lock → worker.token = old.token →
      worker.token = some token ∨ browser.lock = some token ∧ old.token ≠ some token := by
    intro hlock hsame
    by_cases hmine : old.token = some token
    · exact Or.inl (hsame.trans hmine)
    · exact Or.inr ⟨hlock ▸ htoken, hmine⟩
  cases h with
  | Keep lock mine _ => exact hkept lock (by rw [Worker.token, Worker.token, mine])
  | Notice lock mine _ =>
      refine hkept lock ?_
      rw [Worker.token, mine, Option.map_map]
      exact congrArg (fun f => old.lockOf.map f) (funext (token_notify browser.lock))
  | Release held mine gone lock =>
      obtain ⟨hold, hne⟩ := lock token htoken
      refine Or.inr ⟨hold, fun heq => hne ?_⟩
      rw [Worker.token, mine] at heq
      exact Option.some.inj heq
  | Grant held mine valid lock _ =>
      rw [Worker.token, mine]
      exact Or.inl (lock.symm.trans htoken)

theorem Locked.step (h : browser.Locked) (event : Event n) : (browser.step event).1.Locked := by
  have hchange := step_change h.seated event
  generalize (browser.step event).1 = after at hchange
  have hother : ∀ j, j ≠ event.of → after.workers j = browser.workers j := fun j hj => by
    rw [hchange.workers, Function.update_of_ne hj]
  refine ⟨fun j => ?_, fun token htoken => ?_⟩
  · by_cases hj : j = event.of
    · rw [hj]
      exact hchange.seated
    · rw [hother j hj]
      exact h.seated j
  · rcases hchange.grip.known htoken with hnew | ⟨hold, hne⟩
    · exact ⟨_, hnew⟩
    · obtain ⟨j, hj⟩ := h.known token hold
      have hji : j ≠ event.of := fun heq => hne (heq ▸ hj)
      exact ⟨j, by rw [hother j hji]; exact hj⟩

end Browser

end RemoteVfs
