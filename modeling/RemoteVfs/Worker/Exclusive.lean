import RemoteVfs.Worker.Lock

namespace RemoteVfs

open Worker

namespace Browser

variable {n : Nat} {browser : Browser n} {i j : Fin n}

-- One worker at a time has a lock, and nobody else touches the stored state.
structure Exclusive (browser : Browser n) : Prop where
  seated : ∀ i, (browser.workers i).Seated
  polite : ∀ i, (browser.workers i).Polite
  held : ∀ i lock, (browser.workers i).lockOf = some lock →
    lock.lost = false ∧ browser.lock = some lock.token
  one : ∀ i j, (browser.workers i).lockOf ≠ none → (browser.workers j).lockOf ≠ none → i = j
  owns : ∀ i, Owns browser.stored (browser.workers i)

theorem Fresh.exclusive (h : browser.Fresh) : browser.Exclusive where
  seated i := by rw [h.workers i]; trivial
  polite i := by rw [h.workers i]; exact ⟨fun job hmem => absurd hmem List.not_mem_nil, rfl⟩
  held i lock hlock := by rw [h.workers i] at hlock; cases hlock
  one i j hi := by rw [h.workers i] at hi; exact absurd rfl hi
  owns i claim hclaim := by rw [h.workers i] at hclaim; cases hclaim

-- A worker changes. What the others rely on stays, if there is one who relies on something.
theorem Exclusive.update (h : browser.Exclusive) {after : Browser n} {worker : Worker}
    (hworkers : after.workers = Function.update browser.workers i worker)
    (hseated : worker.Seated) (hpolite : worker.Polite)
    (hheld : ∀ lock, worker.lockOf = some lock → (lock.lost = false ∧ after.lock = some lock.token) ∧
      ((browser.workers i).lockOf ≠ none ∨ browser.lock = none))
    (hothers : (browser.workers i).lockOf = none → browser.lock ≠ none →
      after.lock = browser.lock ∧ after.stored = browser.stored)
    (howns : Owns after.stored worker) : after.Exclusive := by
  have hself : after.workers i = worker := by rw [hworkers, Function.update_self]
  have hne : ∀ k, k ≠ i → after.workers k = browser.workers k := fun k hk => by
    rw [hworkers, Function.update_of_ne hk]
  have hkept : ∀ k, k ≠ i → (browser.workers k).lockOf ≠ none →
      after.lock = browser.lock ∧ after.stored = browser.stored := by
    intro k hk hlock
    refine hothers ?_ ?_
    · by_contra hsome
      exact hk (h.one k i hlock hsome)
    · obtain ⟨lock, hlock⟩ := Option.ne_none_iff_exists'.mp hlock
      rw [(h.held k lock hlock).2]
      exact Option.some_ne_none _
  have hapart : ∀ k, k ≠ i → worker.lockOf ≠ none → (browser.workers k).lockOf = none := by
    intro k hk hsome
    by_contra hlock
    obtain ⟨lock, hlock'⟩ := Option.ne_none_iff_exists'.mp hsome
    rcases (hheld lock hlock').2 with hmine | hfree
    · exact hk (h.one k i hlock hmine)
    · obtain ⟨other, hother⟩ := Option.ne_none_iff_exists'.mp hlock
      cases (h.held k other hother).2.symm.trans hfree
  refine ⟨fun k => ?_, fun k => ?_, fun k lock hlock => ?_, fun k l hk hl => ?_, fun k => ?_⟩
  · by_cases hk : k = i
    · rw [hk, hself]
      exact hseated
    · rw [hne k hk]
      exact h.seated k
  · by_cases hk : k = i
    · rw [hk, hself]
      exact hpolite
    · rw [hne k hk]
      exact h.polite k
  · by_cases hk : k = i
    · rw [hk, hself] at hlock
      exact (hheld lock hlock).1
    · rw [hne k hk] at hlock
      obtain ⟨hlost, htoken⟩ := h.held k lock hlock
      rw [(hkept k hk (by rw [hlock]; simp)).1]
      exact ⟨hlost, htoken⟩
  · by_cases hki : k = i
    · by_cases hli : l = i
      · rw [hki, hli]
      · rw [hki, hself] at hk
        rw [hne l hli] at hl
        exact absurd (hapart l hli hk) hl
    · rw [hne k hki] at hk
      by_cases hli : l = i
      · rw [hli, hself] at hl
        exact absurd (hapart k hki hl) hk
      · rw [hne l hli] at hl
        exact h.one k l hk hl
  · by_cases hk : k = i
    · rw [hk, hself]
      exact howns
    · rw [hne k hk]
      intro claim hclaim
      rw [(hkept k hk (lockOf_of_claim hclaim)).2]
      exact h.owns k claim hclaim

-- Nobody loses a lock that nobody takes.
theorem Exclusive.notify_eq (h : browser.Exclusive) (i : Fin n) (lock : HeldLock)
    (hlock : (browser.workers i).lockOf = some lock) : notify browser.lock lock = lock := by
  rw [notify, if_pos (h.held i lock hlock).2]

theorem Exclusive.notice_eq (h : browser.Exclusive) (i : Fin n) :
    (browser.workers i).lockOf.map (notify browser.lock) = (browser.workers i).lockOf := by
  cases hlock : (browser.workers i).lockOf with
  | none => rfl
  | some lock => exact congrArg some (h.notify_eq i lock hlock)

theorem Exclusive.lose (h : browser.Exclusive) (i : Fin n) :
    Browser.lose browser.lock (browser.workers i) = browser.workers i := by
  have hnotify := h.notify_eq i
  have hseated := h.seated i
  cases hworker : browser.workers i with
  | mk chain task slot =>
      rw [hworker] at hnotify hseated
      cases slot with
      | some slot =>
          have hsame := hnotify slot.lock rfl
          have hslot : ({ slot with lock := notify browser.lock slot.lock } : Local) = slot := by rw [hsame]
          cases task with
          | Idle => simp only [Browser.lose, Option.map_some, hslot]
          | Reading first count => simp only [Browser.lose, Option.map_some, hslot]
          | Committing epoch pageCount blocks => simp only [Browser.lose, Option.map_some, hslot]
          | _ => cases hseated
      | none =>
          cases task <;> first
            | rfl
            | simp only [Browser.lose, Option.map_none, hnotify _ rfl]

theorem Exclusive.step (h : browser.Exclusive) {event : Event n} (hsteals : event.steals = false) :
    (browser.step event).1.Exclusive := by
  have hchange := step_change h.seated event
  have hcalm : (browser.workers event.of).Polite ∧ event.steals = false := ⟨h.polite event.of, hsteals⟩
  generalize (browser.step event).1 = after at hchange
  have hkept : after.lock = browser.lock →
      (after.workers event.of).lockOf = (browser.workers event.of).lockOf →
      ∀ lock, (after.workers event.of).lockOf = some lock →
        (lock.lost = false ∧ after.lock = some lock.token) ∧
        ((browser.workers event.of).lockOf ≠ none ∨ browser.lock = none) := by
    intro hlock hmine lock hafter
    rw [hmine] at hafter
    rw [hlock]
    exact ⟨h.held _ lock hafter, Or.inl (by rw [hafter]; simp)⟩
  refine h.update hchange.workers hchange.seated (hchange.polite hcalm) ?_ ?_ (hchange.owns (h.owns _))
  · cases hchange.grip with
    | Keep lock mine _ => exact hkept lock mine
    | Notice lock mine _ => exact hkept lock (mine.trans (h.notice_eq _))
    | Release held mine gone _ => exact fun lock hafter => absurd (gone.symm.trans hafter) nofun
    | Grant held mine valid lock free =>
        intro other hafter
        cases mine.symm.trans hafter
        exact ⟨⟨valid, lock⟩, Or.inr (free hcalm)⟩
  · intro hnone hheld
    cases hchange.grip with
    | Keep lock _ stored => exact ⟨lock, stored.resolve_right fun hsome => hsome hnone⟩
    | Notice lock _ stored => exact ⟨lock, stored⟩
    | Release held mine _ _ => cases hnone.symm.trans mine
    | Grant held _ _ _ free => exact absurd (free hcalm) hheld

theorem Exclusive.run (h : browser.Exclusive) {events : List (Event n)}
    (hsteals : ∀ event ∈ events, event.steals = false) : (browser.run events).Exclusive := by
  induction events generalizing browser with
  | nil => exact h
  | cons event rest ih =>
      exact ih (h.step (hsteals event List.mem_cons_self)) fun other hmem =>
        hsteals other (List.mem_cons_of_mem _ hmem)

-- The end of a transaction of the open database, if the browser does not fail.
theorem Exclusive.reads (h : browser.Exclusive) {slot : Local} (hslot : (browser.workers i).slot = some slot)
    {first count : Nat} (htask : (browser.workers i).task = .Reading first count) :
    (browser.resume i none).2 = some (localRead slot.found slot.pageSize first count) := by
  obtain ⟨hstored, -⟩ := (h.owns i).found hslot
  simp only [Browser.resume, htask, hslot, Browser.put, hstored, Option.getD_some]

theorem Exclusive.commits (h : browser.Exclusive) {slot : Local} (hslot : (browser.workers i).slot = some slot)
    {pageCount : Nat} {blocks : List (Nat × Bytes)}
    (htask : (browser.workers i).task = .Committing slot.epoch pageCount blocks) :
    (browser.resume i none).2 = some .Done ∧
      (browser.resume i none).1.stored =
        some (slot.found.commit ⟨slot.pageSize, pageCount, slot.epoch⟩ blocks) := by
  obtain ⟨hstored, head, hhead, hepoch, hsize⟩ := (h.owns i).found hslot
  have hlocal : localCommit (browser.stored.getD .empty) slot.epoch pageCount blocks =
      some (slot.found.commit ⟨slot.pageSize, pageCount, slot.epoch⟩ blocks) := by
    simp only [localCommit, hstored, Option.getD_some, hhead, if_pos hepoch, hsize]
  simp only [Browser.resume, htask, hlocal]
  rw [put_set]
  exact ⟨rfl, rfl⟩

-- A job of the open database is refused only if its connection was closed.
theorem start_not_busy {slot : Local} (hslot : (browser.workers i).slot = some slot)
    (hlost : slot.lock.lost = false) (hclosed : slot.closed = false) (job : Job) :
    (browser.start i job).2 ≠ some .Busy := by
  have htransaction : ∀ task, (browser.transaction i task).2 ≠ some .Busy := by
    intro task
    simp only [Browser.transaction, hslot, hlost, hclosed, Bool.or_self, Bool.false_eq_true, if_false]
    split_ifs
    · simp [Browser.put, fault]
    · simp [Browser.put, fault]
    · simp [Browser.await]
  cases job with
  | Open pageSize create takeover => simp [Browser.start, hslot, Browser.put, thrown, fault]
  | Read first count => exact htransaction _
  | Commit epoch pageCount blocks => exact htransaction _
  | Close => simp [Browser.start, hslot, Browser.put]
  | Delete takeover => simp [Browser.start, hslot, Browser.put, thrown, fault]

-- As long as nobody takes the database over, it is open in one instance at a time, which reads and
-- commits as if it were alone, whatever fails and whatever else the others try.
theorem alone_without_takeover {start : Browser n} {events : List (Event n)} (hfresh : start.Fresh)
    (hsteals : ∀ event ∈ events, event.steals = false) :
    (∀ i j, ((start.run events).workers i).slot ≠ none → ((start.run events).workers j).slot ≠ none → i = j) ∧
      ∀ i slot, ((start.run events).workers i).slot = some slot →
        (start.run events).stored = some slot.found ∧
        (∀ first count, ((start.run events).workers i).task = .Reading first count →
          ((start.run events).step (.Resume i none)).2 =
            some (localRead slot.found slot.pageSize first count)) ∧
        (∀ pageCount blocks, ((start.run events).workers i).task = .Committing slot.epoch pageCount blocks →
          ((start.run events).step (.Resume i none)).2 = some .Done ∧
            ((start.run events).step (.Resume i none)).1.stored =
              some (slot.found.commit ⟨slot.pageSize, pageCount, slot.epoch⟩ blocks)) ∧
        (slot.closed = false → ((start.run events).workers i).task = .Idle →
          ((start.run events).step (.Take i)).2 ≠ some .Busy) := by
  have h := hfresh.exclusive.run hsteals
  generalize start.run events = browser at h
  have hlock : ∀ i, (browser.workers i).slot ≠ none → (browser.workers i).lockOf ≠ none := by
    intro i hsome
    obtain ⟨slot, hslot⟩ := Option.ne_none_iff_exists'.mp hsome
    simp [lockOf, hslot]
  refine ⟨fun i j hi hj => h.one i j (hlock i hi) (hlock j hj), fun i slot hslot => ⟨((h.owns i).found hslot).1,
    fun first count htask => h.reads hslot htask, fun pageCount blocks htask => h.commits hslot htask,
    fun hclosed hidle => ?_⟩⟩
  simp only [Browser.step, hidle]
  cases hchain : (browser.workers i).chain with
  | nil => simp
  | cons job rest =>
      have hlost := (h.held i slot.lock (by rw [lockOf, hslot])).1
      refine start_not_busy ?_ hlost hclosed job
      simp only [Browser.set, Function.update_self, hslot]

-- The second instance waits for nothing: it is refused while the first one commits.
def refused (i j : Fin n) : List (Event n) :=
  whole i (.Open 1 true false) ++ [.Ask i (.Commit 1 1 [(0, [1])]), .Take i] ++
    whole j (.Open 1 true false) ++ whole j (.Delete false)

theorem alone_without_takeover_refused :
    ((twoInstances.run (refused 0 1)).workers 1).slot = none ∧
      ((twoInstances.run (refused 0 1)).step (.Resume 0 none)).2 = some .Done := by
  have hsteals : ∀ event ∈ (refused 0 1 : List (Event 2)), event.steals = false := by decide +kernel
  obtain ⟨slot, hslot, hepoch⟩ := Option.map_eq_some_iff.mp
    (show ((twoInstances.run (refused 0 1)).workers 0).slot.map Local.epoch = some 1 by decide +kernel)
  have htask : ((twoInstances.run (refused 0 1)).workers 0).task = .Committing slot.epoch 1 [(0, [1])] := by
    rw [hepoch]
    rfl
  obtain ⟨hone, hopen⟩ := alone_without_takeover twoInstances_fresh hsteals
  refine ⟨?_, ((hopen 0 slot hslot).2.2.1 1 [(0, [1])] htask).1⟩
  by_contra hsome
  exact absurd (hone 0 1 (by rw [hslot]; simp) hsome) (by decide)

theorem Locked.run (h : browser.Locked) (events : List (Event n)) : (browser.run events).Locked := by
  induction events generalizing browser with
  | nil => exact h
  | cons event rest ih => exact ih (h.step event)

-- Whatever an opening finds, it stores a head and leaves the blocks as they are.
theorem bump_create (pageSize : Nat) (stored : Stored) :
    ∃ head, bump pageSize true stored = (some head, { stored with head := some head }) := by
  unfold bump
  cases stored.head with
  | none => exact ⟨_, rfl⟩
  | some found => exact ⟨_, rfl⟩

-- `localOpen` up to its last wait.
def opening (i : Fin n) (pageSize : Nat) : List (Event n) :=
  [.Ask i (.Open pageSize true false), .Take i, .Resume i none, .Resume i none, .Resume i none]

end Browser

end RemoteVfs
