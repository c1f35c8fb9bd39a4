import RemoteVfs.Bridge.Slots

namespace RemoteVfs.Bridge

-- What the connection worker has in its variables.
def Host.of (bridge : Bridge) : Host where
  ready := bridge.ready
  queued := bridge.queued
  waiting := bridge.waiting.isSome
  failure := bridge.failure
  closed := bridge.closed
  chain := bridge.chain.map Option.isSome

def Slots.storeAll (slots : Slots) (stores : List Store) : Slots := stores.foldl Slots.store slots

-- The slots and the answer region show what the connection worker has put there.
structure Slots.Show (slots : Slots) (bridge : Bridge) : Prop where
  state : slots.state = bridge.state
  answer : slots.answer = bridge.answer
  kind : slots.kind = bridge.kind
  bytes : slots.answerRegion.take slots.length = bridge.bytes.take CAPACITY

-- What a task of the connection worker does, all its stores included.
structure Serves (bridge : Bridge) (slots : Slots) (run : Host × List Store) : Prop where
  host : run.1 = .of bridge
  shows : (slots.storeAll run.2).Show bridge

@[simp] theorem Slots.storeAll_nil (slots : Slots) : slots.storeAll [] = slots := rfl

theorem Slots.storeAll_append (slots : Slots) (stores rest : List Store) :
    slots.storeAll (stores ++ rest) = (slots.storeAll stores).storeAll rest :=
  List.foldl_append

variable {slots : Slots} {bridge : Bridge}

theorem take_overwrite (region bytes : Bytes) : (overwrite region bytes).take bytes.length = bytes :=
  List.take_left' rfl

theorem take_min_capacity (bytes : Bytes) :
    bytes.take (min bytes.length CAPACITY) = bytes.take CAPACITY := by
  rw [Nat.min_comm, ← List.take_eq_take_min]

-- A region that was set up to the length that is stored.
theorem take_overwrite_capacity (region bytes : Bytes) :
    (overwrite region (bytes.take (min bytes.length CAPACITY))).take (min bytes.length CAPACITY) =
      bytes.take CAPACITY := by
  have hlength : (bytes.take (min bytes.length CAPACITY)).length = min bytes.length CAPACITY := by
    rw [List.length_take]
    omega
  have htake := take_overwrite region (bytes.take (min bytes.length CAPACITY))
  rw [hlength] at htake
  rw [htake, take_min_capacity]

theorem Slots.Show.put (h : slots.Show bridge) (number : Nat) (kind : Kind) (bytes : Bytes) :
    (slots.storeAll (putStores kind bytes)).Show (bridge.put number kind bytes) := by
  unfold putStores
  dsimp only
  split_ifs with hsome
  · exact ⟨h.state, congrArg (· + 1) h.answer, rfl, take_overwrite_capacity _ _⟩
  · refine ⟨h.state, congrArg (· + 1) h.answer, rfl, ?_⟩
    have hnone : min bytes.length CAPACITY = 0 := by omega
    change slots.answerRegion.take (min bytes.length CAPACITY) = bytes.take CAPACITY
    rw [← take_min_capacity, hnone]
    rfl

theorem Serves.put (h : slots.Show bridge) (number : Nat) (kind : Kind) (bytes : Bytes) :
    Serves (bridge.put number kind bytes) slots (.of bridge, putStores kind bytes) :=
  ⟨rfl, h.put number kind bytes⟩

-- The slots do not depend on the variables of the worker.
theorem Slots.Show.congr (h : slots.Show bridge) {other : Bridge} (hstate : other.state = bridge.state)
    (hanswer : other.answer = bridge.answer) (hkind : other.kind = bridge.kind)
    (hbytes : other.bytes = bridge.bytes) : slots.Show other :=
  ⟨h.state.trans hstate.symm, h.answer.trans hanswer.symm, h.kind.trans hkind.symm, hbytes ▸ h.bytes⟩

namespace Host

theorem serves_deliver (h : slots.Show bridge) : Serves bridge.deliver slots (of bridge).deliver := by
  rcases bridge with ⟨_, _, _, _, _, _, queued, waiting, failure, _, _, _, _, _, _⟩
  cases waiting with
  | none => exact ⟨rfl, h⟩
  | some number =>
      cases queued with
      | cons frame rest =>
          refine ⟨rfl, Slots.Show.put ?_ number .Frame frame⟩
          exact h.congr rfl rfl rfl rfl
      | nil =>
          cases failure with
          | some failure =>
              refine ⟨rfl, Slots.Show.put ?_ number .Error failure⟩
              exact h.congr rfl rfl rfl rfl
          | none => exact ⟨rfl, h⟩

theorem serves_fail (h : slots.Show bridge) (message : Bytes) :
    Serves (bridge.fail message) slots ((of bridge).fail slots.state message) := by
  rw [h.state]
  rcases bridge with ⟨state, _, _, _, _, _, _, _, failure, closed, _, _, _, _, _⟩
  cases closed with
  | true => exact ⟨rfl, h⟩
  | false =>
      cases state with
      | Connecting => exact ⟨rfl, rfl, h.answer, h.kind, take_overwrite_capacity _ _⟩
      | Open => exact serves_deliver (h.congr rfl rfl rfl rfl)
      | Failed => exact serves_deliver (h.congr rfl rfl rfl rfl)

theorem serves_connect (h : slots.Show bridge) (refused : Option Bytes) :
    Serves (bridge.connect refused) slots ((of bridge).connect refused) := by
  have hshows : (slots.store (.State .Connecting)).Show
      { bridge with queued := [], failure := none, state := .Connecting } :=
    ⟨rfl, h.answer, h.kind, h.bytes⟩
  cases refused with
  | none => exact ⟨rfl, hshows⟩
  | some message =>
      have hfail := serves_fail hshows message
      exact ⟨hfail.host, hfail.shows⟩

theorem serves_work (h : slots.Show bridge) (request : Request) (thrown : Option Bytes) :
    Serves (bridge.work request thrown) slots ((of bridge).work request.op thrown) := by
  rcases request with ⟨number, op⟩
  have hlater : Serves { bridge with chain := bridge.chain ++ [some number] } slots
      ({ of bridge with chain := (of bridge).chain ++ [true] }, []) :=
    ⟨by simp [of], h.congr rfl rfl rfl rfl⟩
  cases op with
  | Send =>
      rcases bridge with ⟨_, _, _, _, _, ready, _, _, _, _, _, _, _, _, _⟩
      cases ready with
      | true =>
          cases thrown with
          | none => exact Serves.put h _ _ _
          | some text => exact Serves.put h _ _ _
      | false => exact Serves.put h _ _ _
  | Receive =>
      exact serves_deliver (h.congr rfl rfl rfl rfl : slots.Show { bridge with waiting := some number })
  | Reopen =>
      have hconnect := serves_connect (h.congr rfl rfl rfl rfl : slots.Show bridge.drop) thrown
      have hput := hconnect.shows.put number .Done []
      rw [← Slots.storeAll_append] at hput
      exact ⟨hconnect.host, hput⟩
  | Close =>
      exact Serves.put (h.congr rfl rfl rfl rfl :
        slots.Show { bridge.drop with closed := true, waiting := none }) _ _ _
  | CopyWrite last =>
      cases last with
      | true =>
          have hput := Serves.put (h.congr rfl rfl rfl rfl :
            slots.Show { bridge with chain := bridge.chain ++ [none] }) number .Done []
          exact ⟨by simp [of, Bridge.put, Bridge.work, Host.work], hput.shows⟩
      | false => exact Serves.put h _ _ _
  | LocalCommit last =>
      cases last with
      | true => exact hlater
      | false => exact Serves.put h _ _ _
  | Probe => exact Serves.put h _ _ _
  | _ => exact hlater

theorem serves_finish (h : slots.Show bridge) (kind : Kind) (bytes : Bytes) (unhandled : Bool) :
    Serves (bridge.finish kind bytes unhandled) slots
      ((of bridge).finish slots.kind kind bytes unhandled) := by
  rw [h.kind]
  rcases bridge with ⟨_, _, last, _, _, _, _, _, _, _, chain, _, _, _, _⟩
  cases chain with
  | nil => exact ⟨rfl, h⟩
  | cons job rest =>
      cases job with
      | none => exact ⟨rfl, h.congr rfl rfl rfl rfl⟩
      | some number =>
          cases unhandled with
          | false =>
              refine ⟨rfl, Slots.Show.put ?_ number kind bytes⟩
              exact h.congr rfl rfl rfl rfl
          | true =>
              cases last with
              | Error => exact ⟨rfl, h.congr rfl rfl rfl rfl⟩
              | _ =>
                  refine ⟨rfl, Slots.Show.put ?_ number .Error bytes⟩
                  exact h.congr rfl rfl rfl rfl

end Host

-- Once the answer was counted, a task has only stores of one kind left.
def Tidy (good : Store → Prop) : List Store → Prop
  | [] => True
  | store :: rest => (.AddAnswer ∈ store :: rest ∨ ∀ other ∈ store :: rest, good other) ∧ Tidy good rest

-- The stores that leave the answer as it is.
def Quiet : Store → Prop
  | .State _ | .NotifyAnswer | .NotifyState => True
  | _ => False

-- The stores that do not begin a new connection.
def Steady (store : Store) : Prop := store ≠ .State .Connecting

section Tidy

variable {good : Store → Prop} {stores : List Store}

theorem Tidy.counted (h : Tidy good stores) (hcounted : .AddAnswer ∉ stores) : ∀ store ∈ stores, good store := by
  cases stores with
  | nil => exact fun _ hmem => nomatch hmem
  | cons store rest => exact h.1.resolve_left hcounted

theorem tidy_of_good (h : ∀ store ∈ stores, good store) : Tidy good stores := by
  induction stores with
  | nil => trivial
  | cons store rest ih => exact ⟨Or.inr h, ih fun other hmem => h other (List.mem_cons_of_mem _ hmem)⟩

theorem tidy_put (h : good .NotifyAnswer) (kind : Kind) (bytes : Bytes) :
    Tidy good (putStores kind bytes) := by
  unfold putStores
  dsimp only
  split_ifs <;> simp [Tidy, h]

theorem tidy_append_put (h : good .NotifyAnswer) (stores : List Store) (kind : Kind) (bytes : Bytes) :
    Tidy good (stores ++ putStores kind bytes) := by
  induction stores with
  | nil => exact tidy_put h kind bytes
  | cons store rest ih => exact ⟨Or.inl (by simp [putStores]), ih⟩

theorem Host.tidy_deliver (h : good .NotifyAnswer) (host : Host) : Tidy good host.deliver.2 := by
  unfold Host.deliver
  split_ifs
  · split
    · exact tidy_put h _ _
    · exact tidy_put h _ _
    · trivial
  · trivial

theorem Host.tidy_work (h : good .NotifyAnswer) (op : Op) (thrown : Option Bytes) (host : Host) :
    Tidy good (host.work op thrown).2 := by
  unfold Host.work
  cases op with
  | Send =>
      dsimp only
      split_ifs
      · cases thrown <;> exact tidy_put h _ _
      · exact tidy_put h _ _
  | Receive => exact tidy_deliver h _
  | Reopen => exact tidy_append_put h _ _ _
  | LocalCommit last =>
      cases last with
      | true => trivial
      | false => exact tidy_put h _ _
  | Probe => exact tidy_put h _ _
  | Close => exact tidy_put h _ _
  | CopyWrite last => cases last <;> exact tidy_put h _ _
  | _ => trivial

theorem Host.tidy_finish (h : good .NotifyAnswer) (last kind : Kind) (bytes : Bytes) (unhandled : Bool)
    (host : Host) : Tidy good (host.finish last kind bytes unhandled).2 := by
  unfold Host.finish
  split
  · trivial
  · trivial
  · dsimp only
    split_ifs
    · trivial
    · exact tidy_put h _ _
    · exact tidy_put h _ _

theorem Host.steady_fail (state : State) (message : Bytes) (host : Host) :
    Tidy Steady (host.fail state message).2 := by
  unfold Host.fail
  split_ifs
  · trivial
  · dsimp only
    split
    · exact tidy_of_good (by simp [Steady])
    · exact tidy_deliver (by simp [Steady]) _

theorem Host.quiet_fail {state : State} (hstate : state ≠ .Connecting) (message : Bytes) (host : Host) :
    Tidy Quiet (host.fail state message).2 := by
  unfold Host.fail
  split_ifs
  · trivial
  · cases state with
    | Connecting => exact absurd rfl hstate
    | Open => exact tidy_deliver trivial _
    | Failed => exact tidy_deliver trivial _

end Tidy

theorem Slots.answer_storeAll (slots : Slots) (stores : List Store) :
    (slots.storeAll stores).answer = slots.answer + stores.count .AddAnswer := by
  induction stores generalizing slots with
  | nil => rfl
  | cons store rest ih =>
      have hrest := ih (slots.store store)
      cases store with
      | AddAnswer =>
          rw [List.count_cons_self]
          exact hrest.trans (by simp only [Slots.store]; omega)
      | _ =>
          rw [List.count_cons_of_ne (by simp)]
          exact hrest

-- Quiet stores leave what the SQLite worker reads.
theorem Slots.store_quiet {store : Store} (h : Quiet store) (slots : Slots) :
    (slots.store store).kind = slots.kind ∧ (slots.store store).length = slots.length ∧
      (slots.store store).answerRegion = slots.answerRegion := by
  cases store with
  | State state => exact ⟨rfl, rfl, rfl⟩
  | NotifyAnswer => exact ⟨rfl, rfl, rfl⟩
  | NotifyState => exact ⟨rfl, rfl, rfl⟩
  | _ => exact h.elim

theorem Slots.storeAll_quiet {stores : List Store} (h : ∀ store ∈ stores, Quiet store) (slots : Slots) :
    (slots.storeAll stores).kind = slots.kind ∧ (slots.storeAll stores).length = slots.length ∧
      (slots.storeAll stores).answerRegion = slots.answerRegion := by
  induction stores generalizing slots with
  | nil => exact ⟨rfl, rfl, rfl⟩
  | cons store rest ih =>
      obtain ⟨hkind, hlength, hregion⟩ :=
        ih (fun other hmem => h other (List.mem_cons_of_mem _ hmem)) (slots.store store)
      obtain ⟨hkind', hlength', hregion'⟩ := Slots.store_quiet (h store List.mem_cons_self) slots
      exact ⟨hkind.trans hkind', hlength.trans hlength', hregion.trans hregion'⟩

-- Steady stores do not end up in a new connection.
theorem Slots.storeAll_steady {stores : List Store} (h : ∀ store ∈ stores, Steady store) {slots : Slots}
    (hstate : slots.state ≠ .Connecting) : (slots.storeAll stores).state ≠ .Connecting := by
  induction stores generalizing slots with
  | nil => exact hstate
  | cons store rest ih =>
      refine ih (fun other hmem => h other (List.mem_cons_of_mem _ hmem)) ?_
      have hstore := h store List.mem_cons_self
      cases store with
      | State state => exact fun heq => hstore (congrArg Store.State heq)
      | _ => exact hstate

-- The SQLite worker writes its side of the memory, and the connection worker the other one.
theorem Slots.storeAll_asked (slots : Slots) (request : Bool) (op : Op) (requestLength : Nat)
    (requestRegion : Bytes) (stores : List Store) :
    ({ slots with request, op, requestLength, requestRegion } : Slots).storeAll stores =
      { slots.storeAll stores with request, op, requestLength, requestRegion } := by
  induction stores generalizing slots with
  | nil => rfl
  | cons store rest ih =>
      cases store with
      | Region bytes => exact ih (slots.store (.Region bytes))
      | Length length => exact ih (slots.store (.Length length))
      | Kind kind => exact ih (slots.store (.Kind kind))
      | State state => exact ih (slots.store (.State state))
      | AddAnswer => exact ih (slots.store .AddAnswer)
      | NotifyAnswer => exact ih slots
      | NotifyState => exact ih slots

theorem Slots.Show.asked {stores : List Store} (h : (slots.storeAll stores).Show bridge) (request : Bool)
    (op : Op) (requestLength : Nat) (requestRegion : Bytes) :
    (({ slots with request, op, requestLength, requestRegion } : Slots).storeAll stores).Show bridge := by
  rw [Slots.storeAll_asked]
  exact ⟨h.state, h.answer, h.kind, h.bytes⟩

theorem InStep.answer_eq {late : List Nat} (h : bridge.InStep late) :
    bridge.answer = bridge.seen ∨ bridge.answer = bridge.seen + 1 := by
  by_cases hcase : ∃ request, bridge.phase = .Asking request
  · obtain ⟨request, hcase⟩ := hcase
    cases h.asking hcase with
    | Posted _ hrest => exact Or.inl hrest.answer
    | Waiting _ _ _ hanswer => exact Or.inl hanswer
    | Running _ _ _ _ _ hanswer => exact Or.inl hanswer
    | Answered _ hanswered => exact Or.inr hanswered.answer
    | Dropped _ hrest => exact Or.inl hrest.answer
  · exact Or.inl (h.free fun request heq => hcase ⟨request, heq⟩).answer

-- A request that was not taken has no answer.
theorem InStep.posted {late : List Nat} (h : bridge.InStep late) {request : Request}
    (hrequest : bridge.request = some request) : bridge.answer = bridge.seen := by
  by_contra hanswer
  by_cases hcase : ∃ request, bridge.phase = .Asking request
  · obtain ⟨_, hcase⟩ := hcase
    cases hrequest.symm.trans ((h.asking hcase).answered hanswer).1
  · exact hanswer (h.free fun request heq => hcase ⟨request, heq⟩).answer

end RemoteVfs.Bridge
