import RemoteVfs.Bridge.InStep
import RemoteVfs.LocalDatabase

namespace RemoteVfs.Bridge

-- The shared memory: the control slots and the two regions.
structure Slots where
  state : State
  answer : Nat
  kind : Kind
  length : Nat
  answerRegion : Bytes
  request : Bool
  op : Op
  requestLength : Nat
  requestRegion : Bytes
  deriving DecidableEq, Repr

-- What the connection worker does to the shared memory, one access at a time.
inductive Store where
  | Region (bytes : Bytes)
  | Length (length : Nat)
  | Kind (kind : Kind)
  | State (state : State)
  | AddAnswer
  | NotifyAnswer
  | NotifyState
  deriving DecidableEq, Repr

-- `set` of a region, which leaves what is behind.
def overwrite (region bytes : Bytes) : Bytes := bytes ++ region.drop bytes.length

def Slots.store (slots : Slots) : Store → Slots
  | .Region bytes => { slots with answerRegion := overwrite slots.answerRegion bytes }
  | .Length length => { slots with length := length }
  | .Kind kind => { slots with kind := kind }
  | .State state => { slots with state := state }
  | .AddAnswer => { slots with answer := slots.answer + 1 }
  | .NotifyAnswer | .NotifyState => slots

-- The variables of the connection worker. A job of the chain answers a request, or it is one that
-- was answered before.
structure Host where
  ready : Bool
  queued : List Bytes
  waiting : Bool
  failure : Option Bytes
  closed : Bool
  chain : List Bool
  deriving DecidableEq, Repr

def putStores (kind : Kind) (bytes : Bytes) : List Store :=
  let length := min bytes.length CAPACITY
  (if 0 < length then [.Region (bytes.take length)] else []) ++
    [.Length length, .Kind kind, .AddAnswer, .NotifyAnswer]

namespace Host

def deliver (host : Host) : Host × List Store :=
  if host.waiting then
    match host.queued, host.failure with
    | frame :: rest, _ => ({ host with waiting := false, queued := rest }, putStores .Frame frame)
    | [], some failure => ({ host with waiting := false }, putStores .Error failure)
    | [], none => (host, [])
  else (host, [])

-- `state` is what the worker finds in the STATE slot.
def fail (state : State) (message : Bytes) (host : Host) : Host × List Store :=
  if host.closed then (host, [])
  else
    let failure := host.failure.getD message
    let host := { host with failure := some failure }
    match state with
    | .Connecting =>
      let length := min failure.length CAPACITY
      (host, [.Region (failure.take length), .Length length, .State .Failed, .NotifyState])
    | _ => host.deliver

def drop (host : Host) : Host := { host with ready := false }

def connect (refused : Option Bytes) (host : Host) : Host × List Store :=
  let host := { host with queued := [], failure := none }
  match refused with
  | some message =>
    let (host, stores) := host.fail .Connecting message
    (host, .State .Connecting :: stores)
  | none => (host, [.State .Connecting])

def work (op : Op) (thrown : Option Bytes) (host : Host) : Host × List Store :=
  match op with
  | .Send =>
    if host.ready then
      match thrown with
      | none => (host, putStores .Done [])
      | some text => (host, putStores .Error text)
    else (host, putStores .Error (host.failure.getD "not connected".toUTF8.toList))
  | .Receive => { host with waiting := true }.deliver
  | .Reopen =>
    let (host, stores) := host.drop.connect thrown
    (host, stores ++ putStores .Done [])
  | .Probe | .CopyWrite false | .LocalCommit false => (host, putStores .Done [])
  | .Close => ({ host.drop with closed := true, waiting := false }, putStores .Done [])
  | .CopyWrite true => ({ host with chain := host.chain ++ [false] }, putStores .Done [])
  | _ => ({ host with chain := host.chain ++ [true] }, [])

-- `last` is what the worker finds in the KIND slot.
def finish (last kind : Kind) (bytes : Bytes) (unhandled : Bool) (host : Host) : Host × List Store :=
  match host.chain with
  | [] => (host, [])
  | false :: rest => ({ host with chain := rest }, [])
  | true :: rest =>
    let host := { host with chain := rest }
    if unhandled then
      if last = .Error then (host, []) else (host, putStores .Error bytes)
    else (host, putStores kind bytes)

end Host

-- Where the connection worker is in `serve`. While it listens or has been notified, other tasks run.
inductive Serve where
  | Check
  | Listening
  | Notified
  | Exchange
  | LoadOp
  | LoadRequest (op : Op)
  | Ended
  deriving DecidableEq, Repr

-- Where the SQLite worker is in `ask` and `wait_until_open`.
inductive Pc where
  | Idle
  | Fill (op : Op) (bytes : Bytes)
  | StoreOp (op : Op) (bytes : Bytes)
  | StoreLength (op : Op) (bytes : Bytes)
  | StoreRequest (op : Op) (bytes : Bytes)
  | NotifyRequest (op : Op)
  | LoadAnswer (op : Op)
  | Wait (op : Op)
  | Asleep (op : Op)
  | LoadKind (op : Op)
  | LoadLength (op : Op) (kind : Kind)
  | ReadRegion (op : Op) (kind : Kind) (length : Nat)
  | LoadState
  | WaitState
  | AsleepState
  deriving DecidableEq, Repr

-- The two workers and the memory between them. `stores` is the rest of the task that the connection
-- worker is in. The requests asked and taken and the answers returned are there for the theorems.
structure Wires where
  slots : Slots
  host : Host
  stores : List Store
  serve : Serve
  pc : Pc
  seen : Nat
  asked : List (Op × Bytes)
  taken : List (Op × Bytes)
  returned : List (Op × Kind × Bytes)
  deriving DecidableEq, Repr

inductive Action where
  -- the SQLite worker
  | Begin (op : Op) (bytes : Bytes)
  | Next
  | Wake
  | Timeout
  -- the connection worker
  | Store
  | Serve (thrown : Option Bytes)
  | Opened
  | Frame (ping : Bool) (frame : Bytes)
  | Fail (message : Bytes)
  | Finish (kind : Kind) (bytes : Bytes) (unhandled : Bool)
  deriving DecidableEq, Repr

namespace Wires

-- `Atomics.notify` of the ANSWER and of the STATE slot.
def wake (pc : Pc) : Store → Pc
  | .NotifyAnswer =>
    match pc with
    | .Asleep op => .LoadAnswer op
    | pc => pc
  | .NotifyState =>
    match pc with
    | .AsleepState => .LoadState
    | pc => pc
  | _ => pc

-- The next access of the SQLite worker.
def next (wires : Wires) : Wires :=
  match wires.pc with
  | .Idle | .Asleep _ | .AsleepState => wires
  | .Fill op bytes =>
    { wires with
      slots := { wires.slots with requestRegion := overwrite wires.slots.requestRegion bytes }
      pc := .StoreOp op bytes }
  | .StoreOp op bytes => { wires with slots := { wires.slots with op := op }, pc := .StoreLength op bytes }
  | .StoreLength op bytes =>
    { wires with slots := { wires.slots with requestLength := bytes.length }, pc := .StoreRequest op bytes }
  | .StoreRequest op bytes =>
    { wires with
      slots := { wires.slots with request := true }
      pc := .NotifyRequest op
      asked := wires.asked ++ [(op, bytes)] }
  | .NotifyRequest op =>
    { wires with
      serve := if wires.serve = .Listening then .Notified else wires.serve
      pc := .LoadAnswer op }
  | .LoadAnswer op =>
    if wires.slots.answer = wires.seen then { wires with pc := .Wait op }
    else { wires with seen := wires.slots.answer, pc := .LoadKind op }
  | .Wait op =>
    { wires with pc := if wires.slots.answer = wires.seen then .Asleep op else .LoadAnswer op }
  | .LoadKind op => { wires with pc := .LoadLength op wires.slots.kind }
  | .LoadLength op kind => { wires with pc := .ReadRegion op kind wires.slots.length }
  | .ReadRegion op kind length =>
    -- `reopen` does not look at the answer
    if op = .Reopen then { wires with pc := .LoadState }
    else
      { wires with
        pc := .Idle
        returned := wires.returned ++ [(op, kind, wires.slots.answerRegion.take length)] }
  | .LoadState => { wires with pc := if wires.slots.state = .Connecting then .WaitState else .Idle }
  | .WaitState => { wires with pc := if wires.slots.state = .Connecting then .AsleepState else .LoadState }

-- The next step of `serve`, in a browser with `Atomics.waitAsync` or in one without.
def serveNext (waitAsync : Bool) (thrown : Option Bytes) (wires : Wires) : Wires :=
  match wires.serve with
  | .Listening | .Ended => wires
  | .Check =>
    if wires.host.closed then { wires with serve := .Ended }
    else if waitAsync then
      { wires with serve := if wires.slots.request then .Exchange else .Listening }
    else { wires with serve := .Notified }
  | .Notified => { wires with serve := .Exchange }
  | .Exchange =>
    if wires.slots.request then
      { wires with slots := { wires.slots with request := false }, serve := .LoadOp }
    else { wires with serve := .Check }
  | .LoadOp => { wires with serve := .LoadRequest wires.slots.op }
  | .LoadRequest op =>
    let (host, stores) := wires.host.work op thrown
    { wires with
      host := host
      stores := stores
      serve := .Check
      taken := wires.taken ++ [(op, wires.slots.requestRegion.take wires.slots.requestLength)] }

-- Another task starts, if none is running.
def task (wires : Wires) (run : Host × List Store) : Wires :=
  if wires.stores = [] ∧ (wires.serve = .Listening ∨ wires.serve = .Notified ∨ wires.serve = .Ended) then
    { wires with host := run.1, stores := run.2 }
  else wires

-- An action that cannot happen changes nothing.
def step (waitAsync : Bool) (wires : Wires) : Action → Wires
  | .Begin op bytes =>
    if wires.pc = .Idle ∧ bytes.length ≤ CAPACITY then { wires with pc := .Fill op bytes } else wires
  | .Next => wires.next
  | .Wake =>
    match wires.pc with
    | .Asleep op => { wires with pc := .LoadAnswer op }
    | .AsleepState => { wires with pc := .LoadState }
    | _ => wires
  | .Timeout =>
    match wires.pc with
    | .Wait _ | .WaitState => { wires with pc := .Idle }
    | _ => wires
  | .Store =>
    match wires.stores with
    | [] => wires
    | store :: rest =>
      { wires with slots := wires.slots.store store, stores := rest, pc := wake wires.pc store }
  | .Serve thrown => if wires.stores = [] then wires.serveNext waitAsync thrown else wires
  | .Opened =>
    if wires.slots.state = .Connecting then
      wires.task ({ wires.host with ready := true }, [.State .Open, .NotifyState])
    else wires
  | .Frame ping frame =>
    if ping then wires else wires.task { wires.host with queued := wires.host.queued ++ [frame] }.deliver
  | .Fail message => wires.task ({ wires.host with ready := false }.fail wires.slots.state message)
  | .Finish kind bytes unhandled => wires.task (wires.host.finish wires.slots.kind kind bytes unhandled)

def start (server : Bool) : Wires where
  slots := ⟨.Connecting, 0, .Done, 0, [], false, .Send, 0, []⟩
  host := ⟨false, [], false, none, false, []⟩
  stores := []
  serve := .Check
  pc := if server then .LoadState else .Idle
  seen := 0
  asked := []
  taken := []
  returned := []

def run (waitAsync : Bool) (wires : Wires) (actions : List Action) : Wires :=
  actions.foldl (step waitAsync) wires

end Wires

-- A store that somebody may wait for is followed by its notification.
def Announced : List Store → Prop
  | [] => True
  | .AddAnswer :: rest => .NotifyAnswer ∈ rest ∧ Announced rest
  | .State state :: rest => (state = .Connecting ∨ .NotifyState ∈ rest) ∧ Announced rest
  | _ :: rest => Announced rest

theorem announced_put (kind : Kind) (bytes : Bytes) : Announced (putStores kind bytes) := by
  unfold putStores
  dsimp only
  split_ifs <;> simp [Announced]

theorem Announced.append {stores rest : List Store} (h : Announced stores) (hrest : Announced rest) :
    Announced (stores ++ rest) := by
  induction stores with
  | nil => exact hrest
  | cons store stores ih =>
      cases store with
      | AddAnswer => exact ⟨List.mem_append_left _ h.1, ih h.2⟩
      | State state => exact ⟨h.1.imp_right (List.mem_append_left _), ih h.2⟩
      | _ => exact ih h

theorem Announced.tail {store : Store} {rest : List Store} (h : Announced (store :: rest)) :
    Announced rest := by
  cases store with
  | AddAnswer => exact h.2
  | State state => exact h.2
  | _ => exact h

namespace Host

variable {host : Host}

theorem announced_deliver : Announced host.deliver.2 := by
  unfold deliver
  split_ifs
  · split
    · exact announced_put _ _
    · exact announced_put _ _
    · trivial
  · trivial

theorem announced_fail (state : State) (message : Bytes) : Announced (host.fail state message).2 := by
  unfold fail
  split_ifs
  · trivial
  · dsimp only
    split
    · simp [Announced]
    · exact announced_deliver

theorem announced_connect (refused : Option Bytes) : Announced (host.connect refused).2 := by
  cases refused with
  | none => exact ⟨Or.inl rfl, trivial⟩
  | some message =>
      exact ⟨Or.inl rfl, @announced_fail { host with queued := [], failure := none } .Connecting message⟩

theorem announced_work (op : Op) (thrown : Option Bytes) : Announced (host.work op thrown).2 := by
  unfold work
  cases op with
  | Send =>
      dsimp only
      split_ifs
      · cases thrown <;> exact announced_put _ _
      · exact announced_put _ _
  | Receive => exact announced_deliver
  | Reopen => exact (announced_connect thrown).append (announced_put _ _)
  | LocalCommit last =>
      cases last with
      | true => trivial
      | false => exact announced_put _ _
  | Probe => exact announced_put _ _
  | Close => exact announced_put _ _
  | CopyWrite last => cases last <;> exact announced_put _ _
  | _ => trivial

theorem announced_finish (last kind : Kind) (bytes : Bytes) (unhandled : Bool) :
    Announced (host.finish last kind bytes unhandled).2 := by
  unfold finish
  split
  · trivial
  · trivial
  · dsimp only
    split_ifs
    · trivial
    · exact announced_put _ _
    · exact announced_put _ _

end Host

namespace Wires

variable {wires : Wires} {waitAsync : Bool}

-- Who sleeps has nothing to see, or is about to be woken.
structure Woken (wires : Wires) : Prop where
  announced : Announced wires.stores
  answer : ∀ op, wires.pc = .Asleep op → wires.slots.answer = wires.seen ∨ .NotifyAnswer ∈ wires.stores
  state : wires.pc = .AsleepState → wires.slots.state = .Connecting ∨ .NotifyState ∈ wires.stores
  request : wires.slots.request = true → wires.serve = .Listening → ∃ op, wires.pc = .NotifyRequest op

theorem woken_start (server : Bool) : (start server).Woken where
  announced := trivial
  answer := by cases server <;> exact nofun
  state := by cases server <;> exact nofun
  request := nofun

-- A task starts when all stores of the one before are done.
theorem Woken.task (h : wires.Woken) {run : Host × List Store} (hrun : Announced run.2) :
    (wires.task run).Woken := by
  unfold Wires.task
  split_ifs with hfree
  · have hstores : ∀ store, store ∉ wires.stores := by simp [hfree.1]
    exact ⟨hrun, fun op hop => Or.inl ((h.answer op hop).resolve_right (hstores _)),
      fun hpc => Or.inl ((h.state hpc).resolve_right (hstores _)), h.request⟩
  · exact h

-- Unless the SQLite worker is about to notify, the connection worker has seen every request.
theorem Woken.awake (h : wires.Woken) (hpc : ∀ op, wires.pc ≠ .NotifyRequest op) {after : Wires}
    (hstores : after.stores = wires.stores) (hserve : after.serve = wires.serve)
    (hrequest : after.slots.request = wires.slots.request) (hanswer : ∀ op, after.pc ≠ .Asleep op)
    (hstate : after.pc ≠ .AsleepState) : after.Woken where
  announced := hstores ▸ h.announced
  answer := fun op hop => absurd hop (hanswer op)
  state := fun hop => absurd hop hstate
  request := fun hset hlistening =>
    ((h.request (hrequest ▸ hset) (hserve ▸ hlistening)).elim hpc).elim

theorem Woken.next (h : wires.Woken) : wires.next.Woken := by
  unfold Wires.next
  cases hpc : wires.pc with
  | Idle => exact h
  | Asleep op => exact h
  | AsleepState => exact h
  | NotifyRequest op =>
      refine ⟨h.announced, nofun, nofun, fun _ hserve => ?_⟩
      dsimp only at hserve
      split_ifs at hserve with hlistening
      exact absurd hserve hlistening
  | StoreRequest op bytes => exact ⟨h.announced, nofun, nofun, fun _ _ => ⟨op, rfl⟩⟩
  | LoadAnswer op =>
      dsimp only
      split_ifs
      · exact h.awake (by simp [hpc]) rfl rfl rfl nofun nofun
      · exact h.awake (by simp [hpc]) rfl rfl rfl nofun nofun
  | Wait op =>
      dsimp only
      split_ifs with hanswer
      · refine ⟨h.announced, fun _ _ => Or.inl hanswer, nofun, fun hset hserve => ?_⟩
        obtain ⟨other, hother⟩ := h.request hset hserve
        cases hpc.symm.trans hother
      · exact h.awake (by simp [hpc]) rfl rfl rfl nofun nofun
  | ReadRegion op kind length =>
      dsimp only
      split_ifs
      · exact h.awake (by simp [hpc]) rfl rfl rfl nofun nofun
      · exact h.awake (by simp [hpc]) rfl rfl rfl nofun nofun
  | LoadState =>
      dsimp only
      split_ifs
      · exact h.awake (by simp [hpc]) rfl rfl rfl nofun nofun
      · exact h.awake (by simp [hpc]) rfl rfl rfl nofun nofun
  | WaitState =>
      dsimp only
      split_ifs with hstate
      · refine ⟨h.announced, nofun, fun _ => Or.inl hstate, fun hset hserve => ?_⟩
        obtain ⟨other, hother⟩ := h.request hset hserve
        cases hpc.symm.trans hother
      · exact h.awake (by simp [hpc]) rfl rfl rfl nofun nofun
  | _ => exact h.awake (by simp [hpc]) rfl rfl rfl nofun nofun

theorem wake_eq_asleep {pc : Pc} {store : Store} {op : Op} :
    wake pc store = .Asleep op ↔ pc = .Asleep op ∧ store ≠ .NotifyAnswer := by
  cases store <;> cases pc <;> simp [wake]

theorem wake_eq_asleepState {pc : Pc} {store : Store} :
    wake pc store = .AsleepState ↔ pc = .AsleepState ∧ store ≠ .NotifyState := by
  cases store <;> cases pc <;> simp [wake]

theorem wake_notifyRequest (op : Op) (store : Store) : wake (.NotifyRequest op) store = .NotifyRequest op := by
  cases store <;> rfl

theorem Woken.store (h : wires.Woken) {store : Store} {rest : List Store}
    (hstores : wires.stores = store :: rest) :
    Woken { wires with slots := wires.slots.store store, stores := rest, pc := wake wires.pc store } := by
  obtain ⟨hannounced, hanswer, hstate, hrequest⟩ := h
  rw [hstores] at hannounced hanswer hstate
  refine ⟨hannounced.tail, fun op hop => ?_, fun hop => ?_, fun hset hserve => ?_⟩
  · obtain ⟨hpc, hne⟩ := wake_eq_asleep.mp hop
    rcases hanswer op hpc with hseen | hmem
    · cases store with
      | AddAnswer => exact Or.inr hannounced.1
      | _ => exact Or.inl hseen
    · exact Or.inr ((List.mem_cons.mp hmem).resolve_left (Ne.symm hne))
  · obtain ⟨hpc, hne⟩ := wake_eq_asleepState.mp hop
    rcases hstate hpc with hconnecting | hmem
    · cases store with
      | State state => exact hannounced.1
      | _ => exact Or.inl hconnecting
    · exact Or.inr ((List.mem_cons.mp hmem).resolve_left (Ne.symm hne))
  · have hset' : wires.slots.request = true := by cases store <;> exact hset
    obtain ⟨op, hop⟩ := hrequest hset' hserve
    refine ⟨op, ?_⟩
    dsimp only
    rw [hop, wake_notifyRequest]

theorem Woken.serveNext (h : wires.Woken) (hstores : wires.stores = []) (thrown : Option Bytes) :
    (wires.serveNext waitAsync thrown).Woken := by
  have hnone : ∀ store, store ∉ wires.stores := by simp [hstores]
  have hanswer : ∀ op, wires.pc = .Asleep op → wires.slots.answer = wires.seen :=
    fun op hop => (h.answer op hop).resolve_right (hnone _)
  have hstate : wires.pc = .AsleepState → wires.slots.state = .Connecting :=
    fun hop => (h.state hop).resolve_right (hnone _)
  unfold Wires.serveNext
  cases hserve : wires.serve with
  | Listening => exact h
  | Ended => exact h
  | Check =>
      dsimp only
      split_ifs with hclosed hasync hrequest
      · exact ⟨h.announced, h.answer, h.state, nofun⟩
      · exact ⟨h.announced, h.answer, h.state, nofun⟩
      · exact ⟨h.announced, h.answer, h.state, fun hset => absurd hset hrequest⟩
      · exact ⟨h.announced, h.answer, h.state, nofun⟩
  | Notified => exact ⟨h.announced, h.answer, h.state, nofun⟩
  | Exchange =>
      dsimp only
      split_ifs
      · exact ⟨h.announced, h.answer, h.state, nofun⟩
      · exact ⟨h.announced, h.answer, h.state, nofun⟩
  | LoadOp => exact ⟨h.announced, h.answer, h.state, nofun⟩
  | LoadRequest op =>
      exact ⟨Host.announced_work op thrown, fun op hop => Or.inl (hanswer op hop),
        fun hop => Or.inl (hstate hop), nofun⟩

theorem Woken.step (h : wires.Woken) (action : Action) : (wires.step waitAsync action).Woken := by
  cases action with
  | Begin op bytes =>
      unfold Wires.step
      dsimp only
      split_ifs with hidle
      · exact h.awake (by simp [hidle.1]) rfl rfl rfl nofun nofun
      · exact h
  | Next => exact h.next
  | Wake =>
      unfold Wires.step
      cases hpc : wires.pc with
      | Asleep op => exact h.awake (by simp [hpc]) rfl rfl rfl nofun nofun
      | AsleepState => exact h.awake (by simp [hpc]) rfl rfl rfl nofun nofun
      | _ => exact h
  | Timeout =>
      unfold Wires.step
      cases hpc : wires.pc with
      | Wait op => exact h.awake (by simp [hpc]) rfl rfl rfl nofun nofun
      | WaitState => exact h.awake (by simp [hpc]) rfl rfl rfl nofun nofun
      | _ => exact h
  | Store =>
      unfold Wires.step
      cases hstores : wires.stores with
      | nil => exact h
      | cons store rest => exact h.store hstores
  | Serve thrown =>
      unfold Wires.step
      dsimp only
      split_ifs with hstores
      · exact h.serveNext hstores thrown
      · exact h
  | Opened =>
      unfold Wires.step
      dsimp only
      split_ifs
      · exact h.task ⟨Or.inr (by simp), trivial⟩
      · exact h
  | Frame ping frame =>
      unfold Wires.step
      dsimp only
      split_ifs
      · exact h
      · exact h.task Host.announced_deliver
  | Fail message => exact h.task (Host.announced_fail _ _)
  | Finish kind bytes unhandled => exact h.task (Host.announced_finish _ _ _ _)

theorem Woken.run (h : wires.Woken) (actions : List Action) : (wires.run waitAsync actions).Woken := by
  induction actions generalizing wires with
  | nil => exact h
  | cons action rest ih => exact ih (h.step action)

-- In every order of the accesses: if the SQLite worker sleeps, there is no answer and no change of
-- the state that it would not be woken for, and if the connection worker listens, there is no
-- request that it would not be notified of.
theorem no_wakeup_is_lost (waitAsync server : Bool) (actions : List Action) :
    let wires := (start server).run waitAsync actions
    (∀ op, wires.pc = .Asleep op → wires.slots.answer ≠ wires.seen → .NotifyAnswer ∈ wires.stores) ∧
      (wires.pc = .AsleepState → wires.slots.state ≠ .Connecting → .NotifyState ∈ wires.stores) ∧
      (wires.serve = .Listening → wires.slots.request = true → ∃ op, wires.pc = .NotifyRequest op) := by
  intro wires
  have h : wires.Woken := (woken_start server).run actions
  exact ⟨fun op hop hne => (h.answer op hop).resolve_left hne,
    fun hop hne => (h.state hop).resolve_left hne, fun hserve hset => h.request hset hserve⟩

-- The SQLite worker went to sleep in time, and its answer is there before it is woken.
example : let wires := (start false).run true ([.Serve none, .Begin .Probe []] ++ List.replicate 5 .Next ++
      List.replicate 4 (.Serve none) ++ [.Next, .Next] ++ List.replicate 3 .Store)
    wires.pc = .Asleep .Probe ∧ wires.slots.answer = 1 ∧ wires.stores = [.NotifyAnswer] := by
  decide +kernel

end Wires

end RemoteVfs.Bridge
