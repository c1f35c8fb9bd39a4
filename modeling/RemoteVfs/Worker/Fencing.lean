import RemoteVfs.Worker

namespace RemoteVfs

open Worker

namespace Worker

-- What an instance relies on from its opening on: the generation and the epoch of its
-- opening, and the state it found then or stored last.
structure Claim where
  generation : Nat
  epoch : Nat
  found : Stored

def claim (worker : Worker) : Option Claim :=
  match worker.slot, worker.task with
  | some slot, _ => some ⟨slot.connection.generation, slot.epoch, slot.found⟩
  | none, .Bumped (some head) _ connection found => some ⟨connection.generation, head.epoch, found⟩
  | none, _ => none

-- Which jobs run with an open database. A commit has the epoch of the opening.
def Shaped (worker : Worker) : Prop :=
  match worker.task with
  | .Idle => True
  | .Reading _ _ => ∃ slot, worker.slot = some slot
  | .Committing epoch _ _ => ∃ slot, worker.slot = some slot ∧ slot.epoch = epoch
  | _ => worker.slot = none

-- A change of the worker by which it relies on nothing new.
structure Eases (before after : Worker) : Prop where
  claim : after.claim = before.claim ∨ after.claim = none
  keeps : after.keeps = before.keeps ∨ after.keeps = none
  shaped : after.Shaped

variable {worker : Worker}

theorem eases_chain (h : worker.Shaped) (chain : List Job) : Eases worker { worker with chain := chain } :=
  ⟨Or.inl rfl, Or.inl rfl, h⟩

-- The end of a job.
theorem eases_idle (h : worker.Shaped) : Eases worker { worker with task := .Idle } := by
  obtain ⟨chain, task, slot⟩ := worker
  cases slot with
  | none => exact ⟨Or.inr rfl, Or.inr rfl, trivial⟩
  | some slot =>
      refine ⟨Or.inl rfl, ?_, trivial⟩
      by_cases hclosing : slot.connection.closing = true
      · exact Or.inr (if_pos hclosing)
      · left
        cases task with
        | Idle => rfl
        | Reading first count => exact if_neg hclosing
        | Committing epoch pageCount blocks => exact if_neg hclosing
        | _ => cases h

-- A job of a worker without an open database goes on.
theorem eases_alone {task : Task} (hclaim : ({ worker with task := task } : Worker).claim = none)
    (hkeeps : ({ worker with task := task } : Worker).keeps = none)
    (hshaped : ({ worker with task := task } : Worker).Shaped) :
    Eases worker { worker with task := task } :=
  ⟨Or.inr hclaim, Or.inr hkeeps, hshaped⟩

-- A transaction on an open connection.
theorem eases_transaction {task : Task} {slot : Local} (hidle : worker.task = .Idle)
    (hslot : worker.slot = some slot) (hopen : slot.connection.closing = false)
    (hkeeps : ({ worker with task := task } : Worker).keeps = some slot.connection.generation)
    (hshaped : ({ worker with task := task } : Worker).Shaped) :
    Eases worker { worker with task := task } := by
  obtain ⟨chain, _, _⟩ := worker
  subst hidle hslot
  refine ⟨Or.inl rfl, Or.inl ?_, hshaped⟩
  rw [hkeeps]
  exact (if_neg (by simp [hopen])).symm

theorem eases_lose (h : worker.Shaped) (holder : Option Nat) :
    Eases worker (Browser.lose holder worker) := by
  obtain ⟨chain, task, slot⟩ := worker
  cases task with
  | Idle => cases slot <;> exact ⟨Or.inl rfl, Or.inl rfl, trivial⟩
  | Reading first count =>
      obtain ⟨slot, rfl⟩ := h
      exact ⟨Or.inl rfl, Or.inl rfl, _, rfl⟩
  | Committing epoch pageCount blocks =>
      obtain ⟨slot, rfl, hepoch⟩ := h
      exact ⟨Or.inl rfl, Or.inl rfl, _, rfl, hepoch⟩
  | Bumped head lock connection found =>
      obtain rfl : slot = none := h
      cases head <;> exact ⟨Or.inl rfl, Or.inl rfl, rfl⟩
  | _ =>
      obtain rfl : slot = none := h
      exact ⟨Or.inl rfl, Or.inl rfl, rfl⟩

theorem eases_shut (h : worker.Shaped) : Eases worker (Browser.shut worker) := by
  obtain ⟨chain, task, slot⟩ := worker
  cases task with
  | Idle => cases slot <;> exact ⟨Or.inl rfl, Or.inr rfl, trivial⟩
  | Reading first count =>
      obtain ⟨slot, rfl⟩ := h
      exact ⟨Or.inl rfl, Or.inl rfl, _, rfl⟩
  | Committing epoch pageCount blocks =>
      obtain ⟨slot, rfl, hepoch⟩ := h
      exact ⟨Or.inl rfl, Or.inl rfl, _, rfl, hepoch⟩
  | Bumped head lock connection found =>
      obtain rfl : slot = none := h
      cases head <;> exact ⟨Or.inl rfl, Or.inr rfl, rfl⟩
  | _ =>
      obtain rfl : slot = none := h
      exact ⟨Or.inl rfl, Or.inl rfl, rfl⟩

end Worker

namespace Browser

variable {n : Nat} {browser : Browser n}

-- While no later opening has raised the epoch, the stored state is the one of the claim. Until
-- another instance has stored a commit, the blocks are.
def Stands (generation : Nat) (stored : Option Stored) (overwritten : Bool) (claim : Claim) : Prop :=
  claim.generation ≤ generation ∧ (claim.generation = generation → ∃ state head,
    stored = some state ∧ state.head = some head ∧ claim.epoch ≤ head.epoch ∧
      (claim.epoch = head.epoch → state = claim.found) ∧
      (overwritten = false → state.blocks = claim.found.blocks))

-- `overwritten` says of each instance whether another one has stored a commit since it opened.
structure Inv (overwritten : Fin n → Bool) (browser : Browser n) : Prop where
  shaped : ∀ i, (browser.workers i).Shaped
  stands : ∀ i claim, (browser.workers i).claim = some claim →
    Stands browser.generation browser.stored (overwritten i) claim
  apart : ∀ i j mine other, i ≠ j → (browser.workers i).claim = some mine →
    (browser.workers j).claim = some other → mine.generation = browser.generation →
    other.generation = browser.generation → mine.epoch ≠ other.epoch
  keeps : ∀ i generation, (browser.workers i).keeps = some generation →
    generation = browser.generation ∧ browser.stored.isSome

variable {overwritten : Fin n → Bool}

theorem Fresh.inv (h : browser.Fresh) : Inv overwritten browser where
  shaped i := by rw [h.workers i]; trivial
  stands i claim hclaim := by rw [h.workers i] at hclaim; cases hclaim
  apart i j mine other _ hmine := by rw [h.workers i] at hmine; cases hmine
  keeps i generation hkeeps := by rw [h.workers i] at hkeeps; cases hkeeps

-- The invariant reads nothing but the store and the workers.
theorem Inv.of_same {after : Browser n} (h : Inv overwritten browser)
    (hgeneration : after.generation = browser.generation)
    (hstored : after.stored = browser.stored) (hworkers : after.workers = browser.workers) :
    Inv overwritten after := by
  obtain ⟨name, generation, stored, lock, tokens, workers⟩ := after
  obtain rfl : generation = browser.generation := hgeneration
  obtain rfl : stored = browser.stored := hstored
  obtain rfl : workers = browser.workers := hworkers
  exact ⟨h.shaped, h.stands, h.apart, h.keeps⟩

theorem Inv.acquire (h : Inv overwritten browser) (steal : Bool) : Inv overwritten (browser.acquire steal).2 := by
  unfold Browser.acquire
  split_ifs
  · exact h.of_same rfl rfl rfl
  · exact h

theorem Inv.release (h : Inv overwritten browser) (lock : HeldLock) : Inv overwritten (browser.release lock) := by
  unfold Browser.release
  split_ifs
  · exact h.of_same rfl rfl rfl
  · exact h

theorem Inv.set (h : Inv overwritten browser) {i : Fin n} {worker : Worker}
    (heases : Eases (browser.workers i) worker) : Inv overwritten (browser.set i worker) := by
  have hclaim : ∀ j claim, ((browser.set i worker).workers j).claim = some claim →
      (browser.workers j).claim = some claim := by
    intro j claim hj
    by_cases hij : j = i
    · subst hij
      simp only [Browser.set, Function.update_self] at hj
      rcases heases.claim with heq | hnone
      · rw [← heq]
        exact hj
      · rw [hnone] at hj
        cases hj
    · simpa only [Browser.set, Function.update_of_ne hij] using hj
  refine ⟨fun j => ?_, fun j claim hj => h.stands j claim (hclaim j claim hj),
    fun j k mine other hne hj hk => h.apart j k mine other hne (hclaim j mine hj) (hclaim k other hk),
    fun j generation hj => ?_⟩
  · by_cases hij : j = i
    · subst hij
      simpa only [Browser.set, Function.update_self] using heases.shaped
    · simpa only [Browser.set, Function.update_of_ne hij] using h.shaped j
  · by_cases hij : j = i
    · subst hij
      simp only [Browser.set, Function.update_self] at hj
      rcases heases.keeps with heq | hnone
      · exact h.keeps j generation (heq ▸ hj)
      · rw [hnone] at hj
        cases hj
    · exact h.keeps j generation (by simpa only [Browser.set, Function.update_of_ne hij] using hj)

theorem Inv.put (h : Inv overwritten browser) (i : Fin n) (answer : Answer) :
    Inv overwritten (browser.put i answer).1 :=
  h.set (eases_idle (h.shaped i))

theorem deletable_iff : browser.deletable = true ↔ ∀ i, (browser.workers i).keeps = none :=
  decide_eq_true_iff

-- After a deletion all connections belong to an earlier generation.
theorem Inv.deleteIndexedDb (h : Inv overwritten browser) (hdeletable : browser.deletable = true) :
    Inv overwritten browser.deleteIndexedDb := by
  have hold : ∀ i claim, (browser.workers i).claim = some claim → claim.generation < browser.generation + 1 :=
    fun i claim hclaim => Nat.lt_succ_of_le (h.stands i claim hclaim).1
  refine ⟨h.shaped, fun i claim hclaim => ⟨(hold i claim hclaim).le, fun heq => ?_⟩,
    fun i j mine other _ hmine _ heq => ?_, fun i generation hkeeps => ?_⟩
  · exact absurd heq (hold i claim hclaim).ne
  · exact absurd heq (hold i mine hmine).ne
  · have hnone := deletable_iff.mp hdeletable i
    change (browser.workers i).keeps = _ at hkeeps
    rw [hnone] at hkeeps
    cases hkeeps

theorem Inv.delete (h : Inv overwritten browser) (i : Fin n) (lock : HeldLock) (answer : Answer) :
    Inv overwritten (browser.delete i lock answer).1 := by
  unfold Browser.delete
  split_ifs with hdeletable
  · exact ((h.deleteIndexedDb hdeletable).release lock).put i answer
  · exact h

-- A transaction of one worker that changes the stored state.
theorem Inv.store (h : Inv overwritten browser) {i : Fin n} {worker : Worker} (state : Stored)
    {overwritten' : Fin n → Bool}
    (hshaped : worker.Shaped) (hkeeps : ∀ generation, worker.keeps = some generation →
      generation = browser.generation)
    (hothers : ∀ j other, j ≠ i → (browser.workers j).claim = some other →
      Stands browser.generation (some state) (overwritten' j) other)
    (hown : ∀ mine, worker.claim = some mine →
      Stands browser.generation (some state) (overwritten' i) mine ∧
      ∀ j other, j ≠ i → (browser.workers j).claim = some other →
        other.generation = browser.generation → mine.epoch ≠ other.epoch) :
    Inv overwritten' ((browser.store state).set i worker) := by
  have hself : ((browser.store state).set i worker).workers i = worker := Function.update_self ..
  have hother : ∀ j, j ≠ i → ((browser.store state).set i worker).workers j = browser.workers j :=
    fun j hj => Function.update_of_ne hj ..
  refine ⟨fun j => ?_, fun j claim hclaim => ?_, fun j k mine other hne hmine hkth hm ho => ?_,
    fun j generation hkept => ⟨?_, rfl⟩⟩
  · by_cases hj : j = i
    · rw [hj, hself]
      exact hshaped
    · rw [hother j hj]
      exact h.shaped j
  · by_cases hj : j = i
    · subst hj
      rw [hself] at hclaim
      exact (hown claim hclaim).1
    · rw [hother j hj] at hclaim
      exact hothers j claim hj hclaim
  · by_cases hj : j = i
    · rw [hj, hself] at hmine
      have hk : k ≠ i := fun heq => hne (hj.trans heq.symm)
      rw [hother k hk] at hkth
      exact (hown mine hmine).2 k other hk hkth ho
    · rw [hother j hj] at hmine
      by_cases hk : k = i
      · rw [hk, hself] at hkth
        exact ((hown other hkth).2 j mine hj hmine hm).symm
      · rw [hother k hk] at hkth
        exact h.apart j k mine other hne hmine hkth hm ho
  · by_cases hj : j = i
    · rw [hj, hself] at hkept
      exact hkeeps generation hkept
    · rw [hother j hj] at hkept
      exact (h.keeps j generation hkept).1

-- The database is created if it is missing, and then nobody relies on it.
theorem Inv.openLocal (h : Inv overwritten browser) {i : Fin n} (hslot : (browser.workers i).slot = none)
    (pageSize : Nat) (create : Bool) (lock : HeldLock) :
    Inv overwritten (browser.openLocal.2.setTask i (.Bumping pageSize create lock browser.openLocal.1)) := by
  refine h.store (browser.stored.getD .empty) hslot ?_ ?_ ?_
  · intro generation hkeeps
    cases hkeeps
    rfl
  · intro j other _ hclaim
    obtain ⟨hle, hcurrent⟩ := h.stands j other hclaim
    refine ⟨hle, fun heq => ?_⟩
    obtain ⟨state, head, hstored, hhead⟩ := hcurrent heq
    exact ⟨state, head, by rw [hstored]; rfl, hhead⟩
  · intro mine hmine
    change claim { browser.workers i with task := _ } = _ at hmine
    rw [claim, hslot] at hmine
    cases hmine

-- Opening raises the epoch above the one of every claim.
theorem bump_stands {pageSize : Nat} {create overwritten : Bool} {stored : Stored} {claim : Claim}
    (h : Stands browser.generation (some stored) overwritten claim) :
    Stands browser.generation (some (bump pageSize create stored).2) overwritten claim ∧
      ∀ head, (bump pageSize create stored).1 = some head → claim.generation = browser.generation →
        claim.epoch < head.epoch := by
  obtain ⟨hle, hcurrent⟩ := h
  by_cases hgeneration : claim.generation = browser.generation
  · obtain ⟨state, head, hstored, hhead, hepoch, -, hblocks⟩ := hcurrent hgeneration
    obtain rfl : stored = state := by simpa using hstored
    have hbump : bump pageSize create stored = (some { head with epoch := head.epoch + 1 },
        { stored with head := some { head with epoch := head.epoch + 1 } }) := by
      simp only [bump, hhead]
    rw [hbump]
    refine ⟨⟨hle, fun _ => ⟨_, _, rfl, rfl, Nat.le_succ_of_le hepoch, fun heq => ?_, hblocks⟩⟩,
      fun raised hraised _ => ?_⟩
    · have heq : claim.epoch = head.epoch + 1 := heq
      omega
    · cases hraised
      exact Nat.lt_succ_of_le hepoch
  · exact ⟨⟨hle, fun heq => absurd heq hgeneration⟩, fun _ _ heq => absurd heq hgeneration⟩

theorem bump_head {pageSize : Nat} {create : Bool} {stored : Stored} {head : LocalHead}
    (h : (bump pageSize create stored).1 = some head) :
    (bump pageSize create stored).2.head = some head := by
  unfold bump at *
  cases hfound : stored.head with
  | none =>
      rw [hfound] at h
      cases create with
      | false => cases h
      | true =>
          cases h
          rfl
  | some found =>
      rw [hfound] at h
      cases h
      rfl

theorem Inv.bump (h : Inv overwritten browser) {i : Fin n} {pageSize : Nat} {create : Bool} {lock : HeldLock}
    {connection : Connection} (htask : (browser.workers i).task = .Bumping pageSize create lock connection) :
    let bumped := Browser.bump pageSize create (browser.stored.getD .empty)
    Inv (Function.update overwritten i false)
      ((browser.store bumped.2).setTask i (.Bumped bumped.1 lock connection bumped.2)) := by
  have hslot : (browser.workers i).slot = none := by
    have hshaped := h.shaped i
    rw [Shaped, htask] at hshaped
    exact hshaped
  obtain ⟨hgeneration, hsome⟩ := h.keeps i connection.generation (by rw [Worker.keeps, htask])
  obtain ⟨stored, hstored⟩ := Option.isSome_iff_exists.mp hsome
  have hothers : ∀ j other, (browser.workers j).claim = some other →
      Stands browser.generation (some stored) (overwritten j) other :=
    fun j other hclaim => hstored ▸ h.stands j other hclaim
  intro bumped
  have hbumped : bumped = Browser.bump pageSize create stored := by
    simp only [bumped, hstored, Option.getD_some]
  refine h.store _ hslot ?_ ?_ ?_
  · intro generation hkeeps
    change Worker.keeps { browser.workers i with task := Task.Bumped _ _ _ _ } = _ at hkeeps
    simp only [Worker.keeps] at hkeeps
    split_ifs at hkeeps
    cases hkeeps
    exact hgeneration
  · intro j other hj hclaim
    rw [hbumped, Function.update_of_ne hj]
    exact (bump_stands (hothers j other hclaim)).1
  · intro mine hmine
    change claim { browser.workers i with task := Task.Bumped _ _ _ _ } = _ at hmine
    rw [claim, hslot] at hmine
    cases hhead : bumped.1 with
    | none =>
        rw [hhead] at hmine
        cases hmine
    | some head =>
        rw [hhead] at hmine
        cases hmine
        rw [hbumped] at hhead
        refine ⟨⟨hgeneration.le, fun _ => ⟨_, head, rfl, ?_, le_rfl, fun _ => rfl, fun _ => rfl⟩⟩, ?_⟩
        · rw [hbumped]
          exact bump_head hhead
        · intro j other _ hclaim hcurrent
          exact ((bump_stands (hothers j other hclaim)).2 head hhead hcurrent).ne'

-- What is stored while the connection of an instance is the one of the current database.
theorem Inv.own (h : Inv overwritten browser) {i : Fin n} {slot : Local}
    (hslot : (browser.workers i).slot = some slot)
    (hgeneration : slot.connection.generation = browser.generation) :
    ∃ state head, browser.stored = some state ∧ state.head = some head ∧ slot.epoch ≤ head.epoch ∧
      (slot.epoch = head.epoch → state = slot.found) ∧
      (overwritten i = false → state.blocks = slot.found.blocks) :=
  (h.stands i ⟨slot.connection.generation, slot.epoch, slot.found⟩ (by rw [claim, hslot])).2 hgeneration

-- A commit that is stored replaces the state of its own claim, which is the current one.
theorem committed_own (h : Inv overwritten browser) {i : Fin n} {epoch pageCount : Nat}
    {blocks : List (Nat × Bytes)}
    (htask : (browser.workers i).task = .Committing epoch pageCount blocks) {state : Stored}
    (hcommit : localCommit (browser.stored.getD .empty) epoch pageCount blocks = some state) :
    ∃ slot head, (browser.workers i).slot = some slot ∧ slot.epoch = epoch ∧
      slot.connection.generation = browser.generation ∧ browser.stored = some slot.found ∧
      slot.found.head = some head ∧ head.epoch = epoch ∧
      state = slot.found.commit ⟨head.pageSize, pageCount, epoch⟩ blocks := by
  have hshaped := h.shaped i
  rw [Shaped, htask] at hshaped
  obtain ⟨slot, hslot, hepoch⟩ := hshaped
  obtain ⟨hgeneration, -⟩ := h.keeps i slot.connection.generation (by rw [Worker.keeps, htask, hslot])
  obtain ⟨stored, head, hstored, hhead, -, hfound, -⟩ := h.own hslot hgeneration
  rw [hstored, Option.getD_some] at hcommit
  simp only [localCommit, hhead] at hcommit
  split_ifs at hcommit with hsame
  obtain rfl : stored = slot.found := hfound (hepoch.trans hsame.symm)
  exact ⟨slot, head, hslot, hepoch, hgeneration, hstored, hhead, hsame, by simpa using hcommit.symm⟩

theorem Inv.commit (h : Inv overwritten browser) {i : Fin n} {epoch pageCount : Nat} {blocks : List (Nat × Bytes)}
    (htask : (browser.workers i).task = .Committing epoch pageCount blocks) {state : Stored}
    (hcommit : localCommit (browser.stored.getD .empty) epoch pageCount blocks = some state) :
    Inv (fun j => overwritten j || decide (j ≠ i)) ((browser.store state).set i { browser.workers i with
      slot := (browser.workers i).slot.map fun slot => { slot with found := state } }) := by
  obtain ⟨slot, head, hslot, hepoch, hgeneration, hstored, hhead, hsame, rfl⟩ :=
    committed_own h htask hcommit
  have hmine : (browser.workers i).claim =
      some ⟨slot.connection.generation, slot.epoch, slot.found⟩ := by rw [claim, hslot]
  rw [hslot, Option.map_some]
  refine h.store _ ?_ ?_ ?_ ?_
  · rw [Shaped, htask]
    exact ⟨_, rfl, hepoch⟩
  · intro generation hkeeps
    rw [Worker.keeps, htask] at hkeeps
    cases hkeeps
    exact hgeneration
  · intro j other hj hother
    obtain ⟨hle, hcurrent⟩ := h.stands j other hother
    refine ⟨hle, fun heq => ⟨_, _, rfl, rfl, ?_, fun hraised => ?_, fun hsafe => ?_⟩⟩
    · obtain ⟨stored, last, hlast, hheadLast, hbelow, -⟩ := hcurrent heq
      rw [hstored] at hlast
      cases hlast
      rw [hhead] at hheadLast
      cases hheadLast
      exact hsame ▸ hbelow
    · exact absurd (hraised.trans hepoch.symm)
        (h.apart j i other _ hj hother hmine heq hgeneration)
    · simp [hj] at hsafe
  · intro mine hclaim
    rw [claim] at hclaim
    cases hclaim
    refine ⟨⟨hgeneration.le, fun _ => ⟨_, _, rfl, rfl, hepoch.le, fun _ => rfl, fun _ => rfl⟩⟩, ?_⟩
    intro j other hj hother hcurrent
    have hapart := h.apart i j _ other hj.symm hmine hother hgeneration hcurrent
    exact hapart

theorem Inv.transaction (h : Inv overwritten browser) {i : Fin n} {task : Task}
    (hidle : (browser.workers i).task = .Idle)
    (htask : ∀ slot, (browser.workers i).slot = some slot →
      ({ browser.workers i with task := task } : Worker).keeps = some slot.connection.generation ∧
        ({ browser.workers i with task := task } : Worker).Shaped) :
    Inv overwritten (browser.transaction i task).1 := by
  unfold Browser.transaction
  cases hslot : (browser.workers i).slot with
  | none => exact h.put i _
  | some slot =>
      obtain ⟨hkeeps, hshaped⟩ := htask slot hslot
      dsimp only
      split_ifs with hlost hclosing
      · exact h.put i _
      · exact h.put i _
      · exact h.put i _
      · exact h.set (eases_transaction hidle hslot (eq_false_of_ne_true hclosing) hkeeps hshaped)

-- An instance commits with the epoch that its opening returned.
def proper (browser : Browser n) : Event n → Bool
  | .Take i =>
    match (browser.workers i).chain, (browser.workers i).slot with
    | .Commit epoch _ _ :: _, some slot => epoch = slot.epoch
    | _, _ => true
  | _ => true

theorem Inv.start (h : Inv overwritten browser) {i : Fin n} (hidle : (browser.workers i).task = .Idle) {job : Job}
    (hproper : ∀ epoch pageCount blocks slot, job = .Commit epoch pageCount blocks →
      (browser.workers i).slot = some slot → epoch = slot.epoch) :
    Inv overwritten (browser.start i job).1 := by
  unfold Browser.start
  cases job with
  | Open pageSize create takeover =>
      dsimp only
      split_ifs with hslot
      · exact h.put i _
      · have hnone : (browser.workers i).slot = none := by simpa using hslot
        exact h.set (eases_alone (by simp [claim, hnone]) (by simp [Worker.keeps, hnone]) hnone)
  | Read first count =>
      exact h.transaction hidle fun slot hslot => ⟨by rw [Worker.keeps, hslot], slot, hslot⟩
  | Commit epoch pageCount blocks =>
      exact h.transaction hidle fun slot hslot => ⟨by rw [Worker.keeps, hslot], slot, hslot,
        (hproper epoch pageCount blocks slot rfl hslot).symm⟩
  | Close =>
      dsimp only
      cases hslot : (browser.workers i).slot with
      | none => exact h.put i _
      | some slot =>
          refine Inv.put (Inv.set (h.release slot.lock) ⟨Or.inr ?_, Or.inr ?_, ?_⟩) i _
          · rw [claim, hidle]
          · rw [Worker.keeps, hidle]
          · rw [Shaped, hidle]
            trivial
  | Delete takeover =>
      dsimp only
      split_ifs with hslot
      · exact h.put i _
      · have hnone : (browser.workers i).slot = none := by simpa using hslot
        exact h.set (eases_alone (by simp [claim, hnone]) (by simp [Worker.keeps, hnone]) hnone)

-- A worker without an open database waits for the next thing.
theorem Inv.await (h : Inv overwritten browser) {i : Fin n} (hslot : (browser.workers i).slot = none) {task : Task}
    (hclaim : ({ browser.workers i with task := task } : Worker).claim = none)
    (hkeeps : ({ browser.workers i with task := task } : Worker).keeps = none)
    (hshaped : ({ browser.workers i with task := task } : Worker).Shaped ↔ (browser.workers i).slot = none) :
    Inv overwritten (browser.await i task).1 :=
  h.set (eases_alone hclaim hkeeps (hshaped.mpr hslot))

-- A lock is wanted, and the job goes on if it is granted.
theorem Inv.acquired (h : Inv overwritten browser) {i : Fin n} (hslot : (browser.workers i).slot = none)
    {task : HeldLock → Task} (steal : Bool) (htask : ∀ (worker : Worker) lock, worker.slot = none →
      ({ worker with task := task lock } : Worker).claim = none ∧
      ({ worker with task := task lock } : Worker).keeps = none ∧
      (({ worker with task := task lock } : Worker).Shaped ↔ worker.slot = none)) :
    Inv overwritten (match browser.acquire steal with
      | (none, browser) => browser.put i .Busy
      | (some lock, browser) => browser.await i (task lock)).1 := by
  have hacquire := h.acquire steal
  have hworkers := workers_acquire browser steal
  generalize browser.acquire steal = acquired at hacquire hworkers ⊢
  obtain ⟨_ | lock, after⟩ := acquired
  · exact hacquire.put i _
  · have hnone : (after.workers i).slot = none := by rw [hworkers]; exact hslot
    obtain ⟨hclaim, hkeeps, hshaped⟩ := htask _ lock hnone
    exact hacquire.await hnone hclaim hkeeps hshaped

-- A commit that is stored overwrites what every other instance found. An instance that opens the
-- database finds what is stored.
def overwritesIn (i : Fin n) (stored : Stored) (overwritten : Fin n → Bool) (task : Task)
    (failure : Option Worker.Failure) : Fin n → Bool :=
  match task, failure with
  | .Bumping _ _ _ _, none => Function.update overwritten i false
  | .Committing epoch pageCount blocks, none =>
    if (localCommit stored epoch pageCount blocks).isSome then fun j => overwritten j || decide (j ≠ i)
    else overwritten
  | _, _ => overwritten

-- Whether another instance has stored a commit since each one opened, after the event.
def overwrites (browser : Browser n) (overwritten : Fin n → Bool) : Event n → Fin n → Bool
  | .Resume i failure =>
    overwritesIn i (browser.stored.getD .empty) overwritten (browser.workers i).task failure
  | _ => overwritten

theorem Inv.resume (h : Inv overwritten browser) (i : Fin n) (failure : Option Worker.Failure) :
    Inv (browser.overwrites overwritten (.Resume i failure)) (browser.resume i failure).1 := by
  have hshaped := h.shaped i
  unfold Browser.resume
  dsimp only [overwrites]
  cases htask : (browser.workers i).task with
  | Idle => exact h
  | Acquiring pageSize create takeover =>
      have hslot : (browser.workers i).slot = none := by rwa [Shaped, htask] at hshaped
      cases failure with
      | some failure => exact h.put i _
      | none =>
          exact h.acquired hslot takeover fun worker lock hnone =>
            ⟨by simp [claim, hnone], by simp [Worker.keeps, hnone], Iff.rfl⟩
  | Connecting pageSize create lock =>
      have hslot : (browser.workers i).slot = none := by rwa [Shaped, htask] at hshaped
      cases failure with
      | some failure => exact (h.release lock).put i _
      | none => exact h.openLocal hslot pageSize create lock
  | Bumping pageSize create lock connection =>
      cases failure with
      | some failure => exact (h.release lock).put i _
      | none => exact h.bump htask
  | Bumped head lock connection found =>
      have hslot : (browser.workers i).slot = none := by rwa [Shaped, htask] at hshaped
      cases head with
      | none =>
          exact h.await hslot (by simp [claim, hslot]) (by simp [Worker.keeps, hslot]) Iff.rfl
      | some head =>
          dsimp only
          rw [put_set]
          refine h.set ⟨Or.inl ?_, Or.inl ?_, trivial⟩
          · rw [claim, claim, hslot, htask]
          · rw [Worker.keeps, Worker.keeps, htask]
  | Withdrawing lock =>
      cases failure with
      | some failure => exact (h.release lock).put i _
      | none => exact h.delete i lock _
  | Reading first count =>
      cases failure with
      | some failure => exact h.put i _
      | none =>
          cases hslot : (browser.workers i).slot with
          | none => exact h
          | some slot => exact h.put i _
  | Committing epoch pageCount blocks =>
      cases failure with
      | some failure => exact h.put i _
      | none =>
          dsimp only
          cases hcommit : localCommit (browser.stored.getD .empty) epoch pageCount blocks with
          | none =>
              rw [overwritesIn, hcommit]
              exact h.put i _
          | some state =>
              rw [overwritesIn, hcommit, if_pos (Option.isSome_some)]
              have hcommitted := (h.commit htask hcommit).put i .Done
              dsimp only at hcommitted
              rw [htask] at hcommitted
              exact hcommitted
  | Seizing takeover =>
      have hslot : (browser.workers i).slot = none := by rwa [Shaped, htask] at hshaped
      cases failure with
      | some failure => exact h.put i _
      | none =>
          exact h.acquired hslot takeover fun worker lock hnone =>
            ⟨by simp [claim, hnone], by simp [Worker.keeps, hnone], Iff.rfl⟩
  | Deleting lock =>
      cases failure with
      | some failure => exact (h.release lock).put i _
      | none => exact h.delete i lock _

theorem Inv.step (h : Inv overwritten browser) {event : Event n} (hproper : browser.proper event = true) :
    Inv (browser.overwrites overwritten event) (browser.step event).1 := by
  cases event with
  | Ask i job => exact h.set (eases_chain (h.shaped i) _)
  | Take i =>
      simp only [Browser.step]
      cases htask : (browser.workers i).task with
      | Idle =>
          cases hchain : (browser.workers i).chain with
          | nil => exact h
          | cons job rest =>
              have hset := h.set (eases_chain (h.shaped i) rest)
              rw [htask] at hset
              refine Inv.start hset ?_ ?_
              · simp only [Browser.set, Function.update_self]
              · rintro epoch pageCount blocks slot rfl hslot
                simp only [Browser.set, Function.update_self] at hslot
                simpa only [proper, hchain, hslot, decide_eq_true_eq] using hproper
      | _ => exact h
  | Resume i failure => exact h.resume i failure
  | Lose i => exact h.set (eases_lose (h.shaped i) _)
  | Shut i => exact h.set (eases_shut (h.shaped i))

-- Runs in which every commit has the epoch of its instance.
def Proper (browser : Browser n) : List (Event n) → Prop
  | [] => True
  | event :: rest => browser.proper event = true ∧ (browser.step event).1.Proper rest

instance (browser : Browser n) : (events : List (Event n)) → Decidable (browser.Proper events)
  | [] => .isTrue trivial
  | event :: rest =>
    have := instDecidableProper (browser.step event).1 rest
    inferInstanceAs (Decidable (_ ∧ _))

-- After a whole run.
def overwrittenBy (browser : Browser n) (overwritten : Fin n → Bool) : List (Event n) → Fin n → Bool
  | [] => overwritten
  | event :: rest => (browser.step event).1.overwrittenBy (browser.overwrites overwritten event) rest

theorem Inv.run (h : Inv overwritten browser) {events : List (Event n)} (hproper : browser.Proper events) :
    Inv (browser.overwrittenBy overwritten events) (browser.run events) := by
  induction events generalizing browser overwritten with
  | nil => exact h
  | cons event rest ih => exact ih (h.step hproper.1) hproper.2

-- The instance whose `localCommit` the event belongs to.
def commitOf (browser : Browser n) : Event n → Option (Fin n)
  | .Take i =>
    match (browser.workers i).task, (browser.workers i).chain with
    | .Idle, .Commit _ _ _ :: _ => some i
    | _, _ => none
  | .Resume i _ =>
    match (browser.workers i).task with
    | .Committing _ _ _ => some i
    | _ => none
  | _ => none

theorem transaction_cases (i : Fin n) (task : Task) :
    (browser.transaction i task).1.stored = browser.stored ∧
      (browser.transaction i task).2 ≠ some .Done := by
  unfold Browser.transaction
  cases (browser.workers i).slot with
  | none => exact ⟨rfl, by simp [Browser.put, thrown, fault]⟩
  | some slot =>
      dsimp only
      split_ifs
      · exact ⟨rfl, by simp [Browser.put]⟩
      · exact ⟨rfl, by simp [Browser.put, fault]⟩
      · exact ⟨rfl, by simp [Browser.put, fault]⟩
      · exact ⟨rfl, by simp [Browser.await]⟩

theorem fault_ne_done (failure : Worker.Failure) : fault failure ≠ .Done := by
  unfold fault
  split_ifs <;> simp

variable {start : Browser n} {events : List (Event n)}

-- A commit that is stored replaces the state that its instance found when it opened the
-- database or stored last, in the database that it opened, by this state with the blocks of the
-- commit. Any other end of a commit leaves the stored state as it is.
theorem local_commit_replaces_own_state (hfresh : start.Fresh) (hproper : start.Proper events)
    {event : Event n} {i : Fin n} (hcommit : (start.run events).commitOf event = some i) :
    ((start.run events).step event).2 = some .Done ∧
        (∃ slot head pageCount blocks, ((start.run events).workers i).slot = some slot ∧
          ((start.run events).workers i).task = .Committing slot.epoch pageCount blocks ∧
          slot.connection.generation = (start.run events).generation ∧
          (start.run events).stored = some slot.found ∧
          slot.found.head = some head ∧ head.epoch = slot.epoch ∧
          ((start.run events).step event).1.stored =
            some (slot.found.commit ⟨head.pageSize, pageCount, slot.epoch⟩ blocks) ∧
          (((start.run events).step event).1.workers i).slot.map Local.found =
            ((start.run events).step event).1.stored) ∨
      ((start.run events).step event).2 ≠ some .Done ∧
        ((start.run events).step event).1.stored = (start.run events).stored := by
  have hinv : Inv (start.overwrittenBy (fun _ => false) events) (start.run events) := hfresh.inv.run hproper
  generalize start.run events = browser at hinv hcommit ⊢
  cases event with
  | Take j =>
      right
      simp only [commitOf] at hcommit
      simp only [Browser.step]
      cases htask : (browser.workers j).task with
      | Idle =>
          cases hchain : (browser.workers j).chain with
          | nil =>
              rw [htask, hchain] at hcommit
              cases hcommit
          | cons job rest =>
              rw [htask, hchain] at hcommit
              cases job with
              | Commit epoch pageCount blocks =>
                  exact (transaction_cases _ _).symm
              | _ => cases hcommit
      | _ =>
          rw [htask] at hcommit
          cases hcommit
  | Resume j failure =>
      simp only [commitOf] at hcommit
      simp only [Browser.step, Browser.resume]
      cases htask : (browser.workers j).task with
      | Committing epoch pageCount blocks =>
          rw [htask] at hcommit
          obtain rfl : j = i := by simpa using hcommit
          cases failure with
          | some failure =>
              right
              exact ⟨fun hdone => fault_ne_done failure (Option.some.inj hdone), rfl⟩
          | none =>
              dsimp only
              cases hstored : localCommit (browser.stored.getD .empty) epoch pageCount blocks with
              | none => exact Or.inr ⟨by simp [Browser.put], rfl⟩
              | some state =>
                  obtain ⟨slot, head, hslot, rfl, hgeneration, hfound, hhead, hsame, rfl⟩ :=
                    committed_own hinv htask hstored
                  refine Or.inl ⟨rfl, slot, head, pageCount, blocks, hslot, htask, hgeneration, hfound, hhead,
                    hsame, rfl, ?_⟩
                  dsimp only
                  rw [put_set, hslot]
                  simp [Browser.set, Browser.store]
      | _ =>
          rw [htask] at hcommit
          cases hcommit
  | _ => cases hcommit

-- The `localRead` that the event belongs to: its instance, the first block and their number.
def readOf (browser : Browser n) : Event n → Option (Fin n × Nat × Nat)
  | .Take i =>
    match (browser.workers i).task, (browser.workers i).chain with
    | .Idle, .Read first count :: _ => some (i, first, count)
    | _, _ => none
  | .Resume i _ =>
    match (browser.workers i).task with
    | .Reading first count => some (i, first, count)
    | _ => none
  | _ => none

-- What the start of a transaction answers.
theorem transaction_answer (browser : Browser n) (i : Fin n) (task : Task) :
    (∀ slot, (browser.workers i).slot = some slot → slot.lock.lost = true ∨ slot.closed = true →
      (browser.transaction i task).2 = some .Busy) ∧
    ∀ size blocks, (browser.transaction i task).2 ≠ some (.Blocks size blocks) := by
  unfold Browser.transaction
  cases (browser.workers i).slot with
  | none =>
      refine ⟨nofun, fun size blocks => ?_⟩
      simp [Browser.put, thrown, fault]
  | some slot =>
      dsimp only
      refine ⟨?_, fun size blocks => ?_⟩
      · rintro _ ⟨⟩ hnotified
        rw [← Bool.or_eq_true] at hnotified
        rw [if_pos hnotified]
        rfl
      · split_ifs <;> simp [Browser.put, fault, Browser.await]

-- The transaction of a read finds the own blocks as long as no other instance has stored a commit.
theorem Inv.reads_own (h : Inv overwritten browser) {i : Fin n} {slot : Local}
    (hslot : (browser.workers i).slot = some slot) {first count : Nat}
    (htask : (browser.workers i).task = .Reading first count) (hown : overwritten i = false) :
    (browser.stored.getD .empty).blocks = slot.found.blocks := by
  obtain ⟨hgeneration, -⟩ := h.keeps i slot.connection.generation (by rw [Worker.keeps, htask, hslot])
  obtain ⟨state, head, hstored, -, -, -, hblocks⟩ := h.own hslot hgeneration
  rw [hstored]
  exact hblocks hown

-- A read of an instance that knows that it has lost the database is refused. Otherwise it
-- returns the blocks of the state that its instance found when it opened or stored last, as long
-- as no other instance has stored a commit since it opened.
theorem local_read_in_own_snapshot (hfresh : start.Fresh) (hproper : start.Proper events)
    {event : Event n} {i : Fin n} {first count : Nat} {slot : Local}
    (hread : (start.run events).readOf event = some (i, first, count))
    (hslot : ((start.run events).workers i).slot = some slot) :
    (event = .Take i → slot.lock.lost = true ∨ slot.closed = true →
      ((start.run events).step event).2 = some .Busy) ∧
    (start.overwrittenBy (fun _ => false) events i = false → ∀ size blocks,
      ((start.run events).step event).2 = some (.Blocks size blocks) →
      blocks = (List.range' first count).map fun k => (slot.found.blocks k).getD (zeros slot.pageSize)) := by
  have hinv : Inv (start.overwrittenBy (fun _ => false) events) (start.run events) := hfresh.inv.run hproper
  generalize start.run events = browser at hinv hread hslot ⊢
  generalize start.overwrittenBy (fun _ => false) events = overwritten at hinv ⊢
  cases event with
  | Take j =>
      simp only [readOf] at hread
      simp only [Browser.step]
      cases htask : (browser.workers j).task with
      | Idle =>
          cases hchain : (browser.workers j).chain with
          | nil =>
              rw [htask, hchain] at hread
              cases hread
          | cons job rest =>
              rw [htask, hchain] at hread
              cases job with
              | Read start number =>
                  cases hread
                  have hset : ((browser.set i ⟨rest, .Idle, (browser.workers i).slot⟩).workers i).slot =
                      some slot := by
                    simp only [Browser.set, Function.update_self, hslot]
                  obtain ⟨hbusy, hnone⟩ := transaction_answer
                    (browser.set i ⟨rest, .Idle, (browser.workers i).slot⟩) i (.Reading first count)
                  exact ⟨fun _ hnotified => hbusy slot hset hnotified,
                    fun _ size blocks hblocks => absurd hblocks (hnone size blocks)⟩
              | _ => cases hread
      | _ =>
          rw [htask] at hread
          cases hread
  | Resume j failure =>
      refine ⟨fun htake => (by cases htake), fun hown size blocks hblocks => ?_⟩
      simp only [readOf] at hread
      simp only [Browser.step, Browser.resume] at hblocks
      cases htask : (browser.workers j).task with
      | Reading start number =>
          rw [htask] at hread
          cases hread
          rw [htask] at hblocks
          cases failure with
          | some failure =>
              simp only [Browser.put, fault] at hblocks
              split_ifs at hblocks <;> cases hblocks
          | none =>
              simp only [hslot, Browser.put, localRead, hinv.reads_own hslot htask hown] at hblocks
              split at hblocks
              · simp [thrown, fault] at hblocks
              · simp only [Option.some.injEq, Answer.Blocks.injEq] at hblocks
                exact hblocks.2.symm
      | _ =>
          rw [htask] at hread
          cases hread
  | _ => cases hread

-- Two instances of a database that does not exist yet.
def twoInstances : Browser 2 where
  name := "db"
  generation := 0
  stored := none
  lock := none
  tokens := 0
  workers := fun _ => Worker.new

theorem twoInstances_fresh : twoInstances.Fresh := ⟨fun _ => rfl⟩

-- A job from the request to its answer, if nothing fails and nothing else happens.
def whole (i : Fin n) (job : Job) : List (Event n) :=
  .Ask i job :: .Take i :: List.replicate (match job with
    | .Open _ _ _ => 4
    | .Delete _ => 2
    | .Close => 0
    | _ => 1) (.Resume i none)

-- The first instance stores a block, the second takes over.
def takenOver : List (Event 2) :=
  whole 0 (.Open 1 true false) ++ whole 0 (.Commit 1 1 [(0, [1])]) ++ whole 1 (.Open 1 true true)

def committing : List (Event 2) := takenOver ++ [.Ask 1 (.Commit 2 1 [(0, [2])]), .Take 1]

theorem local_commit_replaces_own_state_taken_over :
    ((twoInstances.run committing).step (.Resume 1 none)).2 = some .Done ∧
      ∃ slot head pageCount blocks, ((twoInstances.run committing).workers 1).slot = some slot ∧
        ((twoInstances.run committing).step (.Resume 1 none)).1.stored =
          some (slot.found.commit ⟨head, pageCount, slot.epoch⟩ blocks) := by
  have hdone : ((twoInstances.run committing).step (.Resume 1 none)).2 = some .Done := by decide +kernel
  have hproper : twoInstances.Proper committing := by decide +kernel
  have hcommit : (twoInstances.run committing).commitOf (.Resume 1 none) = some 1 := by decide +kernel
  rcases local_commit_replaces_own_state twoInstances_fresh hproper hcommit with
    ⟨-, slot, head, pageCount, blocks, hslot, -, -, -, -, -, hafter, -⟩ | ⟨hne, -⟩
  · exact ⟨hdone, slot, head.pageSize, pageCount, blocks, hslot, hafter⟩
  · exact absurd hdone hne

-- The first instance reads after the second has taken over and stored nothing.
def reading : List (Event 2) := takenOver ++ [.Ask 0 (.Read 0 2), .Take 0]

theorem local_read_in_own_snapshot_two_blocks :
    ∃ slot, ((twoInstances.run reading).workers 0).slot = some slot ∧
      ((twoInstances.run reading).step (.Resume 0 none)).2 = some (.Blocks 1 [[1], [0]]) ∧
      [[1], [0]] = (List.range' 0 2).map fun k => (slot.found.blocks k).getD (zeros slot.pageSize) := by
  have hblocks : ((twoInstances.run reading).step (.Resume 0 none)).2 = some (.Blocks 1 [[1], [0]]) := by
    decide +kernel
  have hproper : twoInstances.Proper reading := by decide +kernel
  have hopen : ((twoInstances.run reading).workers 0).slot.isSome = true := by decide +kernel
  have hown : twoInstances.overwrittenBy (fun _ => false) reading 0 = false := by decide +kernel
  have hread : (twoInstances.run reading).readOf (.Resume 0 none) = some (0, 0, 2) := by decide +kernel
  obtain ⟨slot, hslot⟩ := Option.isSome_iff_exists.mp hopen
  exact ⟨slot, hslot, hblocks,
    (local_read_in_own_snapshot twoInstances_fresh hproper hread hslot).2 hown 1 _ hblocks⟩

-- The first instance reads before it learns that it has lost the lock.
theorem read_sees_other_instance :
    let browser := twoInstances.run (takenOver ++ whole 1 (.Commit 2 1 [(0, [2])]) ++
      [.Ask 0 (.Read 0 1), .Take 0])
    (browser.step (.Resume 0 none)).2 = some (.Blocks 1 [[2]]) ∧
      (browser.workers 0).slot.bind (fun slot => slot.found.blocks 0) = some [1] := by
  decide +kernel

end Browser

end RemoteVfs
