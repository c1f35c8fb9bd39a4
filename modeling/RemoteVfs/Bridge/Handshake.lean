import RemoteVfs.Bridge.Tasks

namespace RemoteVfs.Bridge

variable {bridge : Bridge}

-- What the calls of `ask` return in a run, but for reopenings.
def returns (bridge : Bridge) : List Event → List (Op × Kind × Bytes)
  | [] => []
  | event :: rest =>
    (match bridge.phase, (bridge.step event).2 with
      | .Asking request, some (kind, bytes) =>
        if request.op = .Reopen then [] else [(request.op, kind, bytes.take CAPACITY)]
      | _, _ => []) ++ (bridge.step event).1.returns rest

theorem returns_single {bridge after : Bridge} {event : Event} {request : Request} {kind : Kind} {bytes : Bytes}
    (hphase : bridge.phase = .Asking request) (hstep : bridge.step event = (after, some (kind, bytes))) :
    bridge.returns [event] =
      if request.op = .Reopen then [] else [(request.op, kind, bytes.take CAPACITY)] := by
  rw [returns, hphase, hstep]
  exact List.append_nil _

theorem step_pollOpen (hphase : bridge.phase = .Opening) (hstate : bridge.state ≠ .Connecting) :
    bridge.step .PollOpen = ({ bridge with phase := .Idle }, none) := by
  rcases bridge with ⟨state, _, _, _, _, _, _, _, _, _, _, _, phase, _, _⟩
  obtain rfl : phase = .Opening := hphase
  cases state with
  | Connecting => exact absurd rfl hstate
  | Open => rfl
  | Failed => rfl

theorem step_giveUpOpen (hphase : bridge.phase = .Opening) :
    bridge.step .GiveUpOpen = ({ bridge with phase := .Idle }, none) := by
  rcases bridge with ⟨_, _, _, _, _, _, _, _, _, _, _, _, phase, _, _⟩
  obtain rfl : phase = .Opening := hphase
  rfl

theorem step_poll {request : Request} (hphase : bridge.phase = .Asking request)
    (hanswer : bridge.answer ≠ bridge.seen) : bridge.step .Poll = ({ bridge with
      seen := bridge.answer, phase := if request.op = .Reopen then .Opening else .Idle },
      some (bridge.kind, bridge.bytes)) := by
  rcases bridge with ⟨_, _, _, _, _, _, _, _, _, _, _, _, phase, _, _⟩
  obtain rfl : phase = .Asking request := hphase
  exact if_neg hanswer

theorem returns_append (bridge : Bridge) (events rest : List Event) :
    bridge.returns (events ++ rest) = bridge.returns events ++ (bridge.run events).returns rest := by
  induction events generalizing bridge with
  | nil => rfl
  | cons event events ih => rw [List.cons_append, returns, returns, ih, List.append_assoc]; rfl

-- No call gives up, and no failed connection attempt overwrites an answer.
def calm (bridge : Bridge) : Event → Bool
  | .GiveUp => false
  | event => bridge.spares event

def Calm (bridge : Bridge) : List Event → Prop
  | [] => True
  | event :: rest => bridge.calm event = true ∧ (bridge.step event).1.Calm rest

-- Then no answer can come late.
theorem InStep.calm_step (h : bridge.InStep []) {event : Event} (hcalm : bridge.calm event = true) :
    (bridge.step event).1.InStep [] := by
  have hprompt : bridge.Prompt [] (bridge.step event).1 := Or.inr List.not_mem_nil
  cases event with
  | GiveUp => cases hcalm
  | Fail message => exact h.step hcalm hprompt
  | _ => exact h.step rfl hprompt

theorem InStep.calm_own (h : bridge.InStep []) {before rest : List Event}
    (hcalm : bridge.Calm (before ++ rest)) : (bridge.run before).Own := by
  induction before generalizing bridge with
  | nil => exact h.own
  | cons event before ih => exact ih (h.calm_step hcalm.1) hcalm.2

theorem calm_append {bridge : Bridge} {events rest : List Event} (h : bridge.Calm events)
    (hrest : (bridge.run events).Calm rest) : bridge.Calm (events ++ rest) := by
  induction events generalizing bridge with
  | nil => exact hrest
  | cons event events ih => exact ⟨h.1, ih h.2 hrest⟩

namespace Pc

-- The request that `ask` waits for.
def asking : Pc → Option Op
  | NotifyRequest op | LoadAnswer op | Wait op | Asleep op => some op
  | LoadKind op | LoadLength op _ | ReadRegion op _ _ => some op
  | _ => none

-- The answer is being read.
def reading : Pc → Bool
  | LoadKind _ | LoadLength _ _ | ReadRegion _ _ _ => true
  | _ => false

def opening : Pc → Bool
  | LoadState | WaitState | AsleepState => true
  | _ => false

def Fits (pc : Pc) (phase : Phase) : Prop :=
  match pc.asking with
  | some op => ∃ number, phase = .Asking ⟨number, op⟩
  | none => phase = if pc.opening then .Opening else .Idle

-- What has been read of the answer is still there.
def Loaded (slots : Slots) : Pc → Prop
  | LoadLength op kind => op ≠ .Reopen → kind = slots.kind
  | ReadRegion op kind length => op ≠ .Reopen → kind = slots.kind ∧ length = slots.length
  | _ => True

-- What has been written of the request.
def Filled (slots : Slots) : Pc → Prop
  | StoreOp _ bytes => slots.requestRegion.take bytes.length = bytes
  | StoreLength op bytes => slots.requestRegion.take bytes.length = bytes ∧ slots.op = op
  | StoreRequest op bytes =>
    slots.requestRegion.take bytes.length = bytes ∧ slots.op = op ∧ slots.requestLength = bytes.length
  | _ => True

end Pc

namespace Wires

-- The request was taken out of its slot, but not yet read.
def taking (wires : Wires) : Bool :=
  match wires.serve with
  | .LoadOp | .LoadRequest _ => true
  | _ => false

-- The request in the slots is the one that was asked last.
def Posted (wires : Wires) : Option Request → Prop
  | none => wires.slots.request = false ∧ wires.taking = false ∧ wires.asked = wires.taken
  | some request => (wires.slots.request = !wires.taking) ∧ wires.slots.op = request.op ∧
      (∀ op, wires.serve = .LoadRequest op → op = request.op) ∧
      wires.asked = wires.taken ++
        [(request.op, wires.slots.requestRegion.take wires.slots.requestLength)]

-- The two workers with their single accesses do what those of the bridge do at once.
structure Refines (wires : Wires) (bridge : Bridge) : Prop where
  inStep : bridge.InStep []
  host : wires.host = .of bridge
  shows : (wires.slots.storeAll wires.stores).Show bridge
  steady : Tidy Steady wires.stores
  quiet : ∀ op, wires.pc.asking = some op → op ≠ .Reopen → bridge.answer ≠ bridge.seen →
    Tidy Quiet wires.stores
  low : wires.seen ≤ wires.slots.answer
  phase : wires.pc.Fits bridge.phase
  seen : if wires.pc.reading then wires.seen = bridge.answer ∧ bridge.answer ≠ bridge.seen
    else wires.seen = bridge.seen
  loaded : wires.pc.Loaded wires.slots
  filled : wires.pc.Filled wires.slots
  posted : wires.Posted bridge.request

variable {wires : Wires} {waitAsync : Bool}

-- The SQLite worker goes on without a change for the other one.
theorem Refines.move (h : wires.Refines bridge) {pc next : Pc} (hpc : wires.pc = pc)
    (hasking : next.asking = pc.asking) (hreading : next.reading = pc.reading)
    (hopening : next.opening = pc.opening) (hloaded : next.Loaded wires.slots)
    (hfilled : next.Filled wires.slots) : Refines { wires with pc := next } bridge where
  inStep := h.inStep
  host := h.host
  shows := h.shows
  steady := h.steady
  quiet := fun op hop => h.quiet op (hpc ▸ hasking ▸ hop)
  low := h.low
  phase := by
    have hphase := h.phase
    unfold Pc.Fits at hphase ⊢
    rw [hpc] at hphase
    rwa [hasking, hopening]
  seen := by
    have hseen := h.seen
    rwa [hpc, ← hreading] at hseen
  loaded := hloaded
  filled := hfilled
  posted := h.posted

-- While no answer is being read, the slot has at most one that was not seen.
theorem Refines.counted (h : wires.Refines bridge) (hread : bridge.answer ≤ wires.slots.answer) :
    .AddAnswer ∉ wires.stores := by
  have hanswer := h.shows.answer
  rw [Slots.answer_storeAll] at hanswer
  exact List.count_eq_zero.mp (by omega)

-- The answer is complete while it is being read.
theorem Refines.unchanged (h : wires.Refines bridge) (hreading : wires.pc.reading = true) {op : Op}
    (hop : wires.pc.asking = some op) (hne : op ≠ .Reopen) : ∀ store ∈ wires.stores, Quiet store := by
  have hseen := h.seen
  rw [if_pos hreading] at hseen
  have hlow := h.low
  exact (h.quiet op hop hne hseen.2).counted (h.counted (by omega))

theorem asking_wake (pc : Pc) (store : Store) : (wake pc store).asking = pc.asking := by
  cases store <;> cases pc <;> rfl

theorem reading_wake (pc : Pc) (store : Store) : (wake pc store).reading = pc.reading := by
  cases store <;> cases pc <;> rfl

theorem opening_wake (pc : Pc) (store : Store) : (wake pc store).opening = pc.opening := by
  cases store <;> cases pc <;> rfl

theorem loaded_wake (pc : Pc) (slots : Slots) (store : Store) :
    (wake pc store).Loaded slots = pc.Loaded slots := by
  cases store <;> cases pc <;> rfl

theorem filled_store (pc : Pc) (slots : Slots) (store : Store) :
    (wake pc store).Filled (slots.store store) ↔ pc.Filled slots := by
  cases store <;> cases pc <;> exact Iff.rfl

theorem Refines.store (h : wires.Refines bridge) {store : Store} {rest : List Store}
    (hstores : wires.stores = store :: rest) :
    Refines { wires with slots := wires.slots.store store, stores := rest, pc := wake wires.pc store }
      bridge where
  inStep := h.inStep
  host := h.host
  shows := by
    have hshows := h.shows
    rwa [hstores] at hshows
  steady := by
    have hsteady := h.steady
    rw [hstores] at hsteady
    exact hsteady.2
  quiet := by
    intro op hop hne hanswer
    have hquiet := h.quiet op (asking_wake _ _ ▸ hop) hne hanswer
    rw [hstores] at hquiet
    exact hquiet.2
  low := by
    have hlow := h.low
    cases store with
    | AddAnswer => exact Nat.le_succ_of_le hlow
    | _ => exact hlow
  phase := by
    have hphase := h.phase
    unfold Pc.Fits at hphase ⊢
    rwa [asking_wake, opening_wake]
  seen := by
    have hseen := h.seen
    rwa [← reading_wake _ store] at hseen
  loaded := by
    rw [loaded_wake]
    have hloaded := h.loaded
    have hmem : store ∈ wires.stores := hstores ▸ List.mem_cons_self
    cases hpc : wires.pc with
    | LoadLength op kind =>
        rw [hpc] at hloaded
        intro hne
        have hquiet := h.unchanged (by rw [hpc]; rfl) (by rw [hpc]; rfl) hne store hmem
        exact (hloaded hne).trans (Slots.store_quiet hquiet wires.slots).1.symm
    | ReadRegion op kind length =>
        rw [hpc] at hloaded
        intro hne
        have hquiet := h.unchanged (by rw [hpc]; rfl) (by rw [hpc]; rfl) hne store hmem
        obtain ⟨hkind, hlength, -⟩ := Slots.store_quiet hquiet wires.slots
        exact ⟨(hloaded hne).1.trans hkind.symm, (hloaded hne).2.trans hlength.symm⟩
    | _ => trivial
  filled := (filled_store wires.pc wires.slots store).mpr h.filled
  posted := by
    have hposted := h.posted
    cases store <;> exact hposted

-- What the bridge does for one access.
def Simulated (bridge : Bridge) (wires after : Wires) : Prop :=
  ∃ events, bridge.Calm events ∧ after.Refines (bridge.run events) ∧
    after.returned = wires.returned ++ bridge.returns events

theorem simulated_silent {after : Wires} (h : after.Refines bridge) (hreturned : after.returned = wires.returned) :
    Simulated bridge wires after :=
  ⟨[], trivial, h, hreturned.trans (List.append_nil _).symm⟩

theorem simulated_event {after : Wires} (event : Event) (hcalm : bridge.calm event = true)
    (hnone : (bridge.step event).2 = none) (h : after.Refines (bridge.step event).1)
    (hreturned : after.returned = wires.returned) : Simulated bridge wires after := by
  refine ⟨[event], ⟨hcalm, trivial⟩, h, ?_⟩
  rw [hreturned, returns, hnone]
  cases bridge.phase <;> simp [returns]

theorem Refines.idle (h : wires.Refines bridge) (hasking : wires.pc.asking = none) :
    bridge.phase = (if wires.pc.opening then .Opening else .Idle) ∧ bridge.request = none ∧ bridge.Rest [] := by
  have hphase := h.phase
  unfold Pc.Fits at hphase
  rw [hasking] at hphase
  have hfree : bridge.Free [] := by
    refine h.inStep.free fun request heq => ?_
    rw [hphase] at heq
    split_ifs at heq
  refine ⟨hphase, Option.eq_none_iff_forall_not_mem.mpr fun request hmem => ?_, hfree.toRest⟩
  exact absurd (hfree.request request hmem) List.not_mem_nil

-- The SQLite worker writes a part of its request.
theorem Refines.fill (h : wires.Refines bridge) {pc next : Pc} {op : Op} {requestLength : Nat}
    {requestRegion : Bytes} (hpc : wires.pc = pc)
    (hidle : pc.asking = none ∧ pc.opening = false ∧ pc.reading = false)
    (hnext : next.asking = none ∧ next.opening = false ∧ next.reading = false)
    (hloaded : ∀ slots, next.Loaded slots)
    (hfilled : next.Filled { wires.slots with op, requestLength, requestRegion }) :
    Refines { wires with slots := { wires.slots with op, requestLength, requestRegion }, pc := next }
      bridge := by
  subst hpc
  obtain ⟨hphase, hrequest, -⟩ := h.idle hidle.1
  have hseen := h.seen
  have hposted := h.posted
  rw [hidle.2.1] at hphase
  rw [hidle.2.2] at hseen
  rw [hrequest] at hposted
  refine ⟨h.inStep, h.host, h.shows.asked _ _ _ _, h.steady, fun other hother => ?_, h.low, ?_, ?_, hloaded _,
    hfilled, ?_⟩
  · cases hnext.1.symm.trans hother
  · unfold Pc.Fits
    rwa [hnext.1, hnext.2.1]
  · rwa [hnext.2.2]
  · rwa [hrequest]

theorem Refines.post (h : wires.Refines bridge) {op : Op} {bytes : Bytes}
    (hpc : wires.pc = .StoreRequest op bytes) : Simulated bridge wires wires.next := by
  obtain ⟨hphase, hrequest, hrest⟩ := h.idle (by rw [hpc]; rfl)
  rw [hpc] at hphase
  have hfilled := h.filled
  rw [hpc] at hfilled
  have hposted := h.posted
  rw [hrequest] at hposted
  have hstep : (bridge.step (.Ask op)).1 = { bridge with
      request := some ⟨bridge.asked, op⟩, asked := bridge.asked + 1, phase := .Asking ⟨bridge.asked, op⟩ } := by
    simp only [Bridge.step, hphase]
    rfl
  have hnext : wires.next = { wires with
      slots := { wires.slots with request := true }
      pc := .NotifyRequest op
      asked := wires.asked ++ [(op, bytes)] } := by
    unfold Wires.next
    rw [hpc]
  rw [hnext]
  refine simulated_event (.Ask op) rfl ?_ ?_ rfl
  · simp only [Bridge.step, hphase]
    rfl
  · have hinStep := h.inStep.calm_step (show bridge.calm (.Ask op) = true from rfl)
    rw [hstep] at hinStep ⊢
    refine ⟨hinStep, h.host, (h.shows.asked _ _ _ _).congr rfl rfl rfl rfl, h.steady, ?_, h.low, ⟨_, rfl⟩,
      ?_, trivial, trivial, ?_⟩
    · exact fun _ _ _ hanswer => absurd hrest.answer hanswer
    · have hseen := h.seen
      rwa [hpc] at hseen
    · obtain ⟨hregion, hop, hlength⟩ := hfilled
      obtain ⟨-, htaking, hasked⟩ := hposted
      refine ⟨?_, hop, fun other hother => ?_, ?_⟩
      · exact (congrArg (!·) htaking).symm
      · unfold taking at htaking
        rw [show wires.serve = .LoadRequest other from hother] at htaking
        cases htaking
      · change wires.asked ++ [(op, bytes)] =
          wires.taken ++ [(op, wires.slots.requestRegion.take wires.slots.requestLength)]
        rw [hasked, hlength, hregion]

-- The SQLite worker has found an answer.
theorem Refines.found (h : wires.Refines bridge) {op : Op} (hpc : wires.pc = .LoadAnswer op)
    (hanswer : wires.slots.answer ≠ wires.seen) :
    Refines { wires with seen := wires.slots.answer, pc := .LoadKind op } bridge := by
  have hseen := h.seen
  have hlow := h.low
  rw [hpc] at hseen
  have hcount := h.shows.answer
  rw [Slots.answer_storeAll] at hcount
  have hnew : wires.slots.answer = bridge.answer := by
    have heq : wires.seen = bridge.seen := hseen
    rcases h.inStep.answer_eq with hone | hone <;> omega
  have hphase := h.phase
  have hquiet := h.quiet
  rw [hpc] at hphase hquiet
  refine ⟨h.inStep, h.host, h.shows, h.steady, hquiet, le_refl _, hphase, ⟨hnew, ?_⟩, trivial, trivial, h.posted⟩
  rw [← hnew]
  exact fun heq => hanswer (heq.trans (Eq.symm hseen))

-- The SQLite worker returns the answer.
theorem Refines.answered (h : wires.Refines bridge) {op : Op} {kind : Kind} {length : Nat}
    (hpc : wires.pc = .ReadRegion op kind length) : Simulated bridge wires wires.next := by
  have hphase := h.phase
  have hseen := h.seen
  have hloaded := h.loaded
  rw [hpc] at hphase hseen hloaded
  obtain ⟨number, hphase⟩ := hphase
  obtain ⟨hseen, hanswer⟩ := hseen
  have hstep := step_poll hphase hanswer
  have hinStep := h.inStep.calm_step (show bridge.calm .Poll = true from rfl)
  rw [hstep] at hinStep
  by_cases hop : op = .Reopen
  · have hnext : wires.next = { wires with pc := .LoadState } := by
      unfold Wires.next
      rw [hpc]
      exact if_pos hop
    rw [if_pos hop] at hstep hinStep
    rw [hnext]
    refine ⟨[.Poll], ⟨rfl, trivial⟩, ?_, ?_⟩
    · change Refines _ (bridge.step .Poll).1
      rw [hstep]
      exact ⟨hinStep, h.host, h.shows.congr rfl rfl rfl rfl, h.steady, nofun, h.low, rfl, hseen, trivial,
        trivial, h.posted⟩
    · rw [returns_single hphase hstep, if_pos hop, List.append_nil]
  · have hnext : wires.next = { wires with
        pc := .Idle
        returned := wires.returned ++ [(op, kind, wires.slots.answerRegion.take length)] } := by
      unfold Wires.next
      rw [hpc]
      exact if_neg hop
    rw [if_neg hop] at hstep hinStep
    rw [hnext]
    refine ⟨[.Poll], ⟨rfl, trivial⟩, ?_, ?_⟩
    · change Refines _ (bridge.step .Poll).1
      rw [hstep]
      exact ⟨hinStep, h.host, h.shows.congr rfl rfl rfl rfl, h.steady, nofun, h.low, rfl, hseen, trivial,
        trivial, h.posted⟩
    · obtain ⟨hkind, hlength⟩ := hloaded hop
      obtain ⟨hkind', hlength', hregion⟩ := Slots.storeAll_quiet
        (h.unchanged (by rw [hpc]; rfl) (by rw [hpc]; rfl) hop) wires.slots
      have hbytes := h.shows.bytes
      rw [hlength', hregion] at hbytes
      rw [returns_single hphase hstep, if_neg hop, ← h.shows.kind, hkind', ← hbytes, hkind, hlength]

-- The connection is open, or it failed.
theorem Refines.opened (h : wires.Refines bridge) (hpc : wires.pc = .LoadState)
    (hstate : wires.slots.state ≠ .Connecting) : Simulated bridge wires { wires with pc := .Idle } := by
  obtain ⟨hphase, hrequest, hrest⟩ := h.idle (by rw [hpc]; rfl)
  rw [hpc] at hphase
  have hseen := h.seen
  rw [hpc] at hseen
  have hlow := h.low
  have hcounted : .AddAnswer ∉ wires.stores := by
    refine h.counted ?_
    rw [hrest.answer]
    exact (Eq.symm hseen) ▸ hlow
  have hopen : bridge.state ≠ .Connecting :=
    h.shows.state ▸ Slots.storeAll_steady (h.steady.counted hcounted) hstate
  have hstep := step_pollOpen hphase hopen
  refine simulated_event .PollOpen rfl (by rw [hstep]) ?_ rfl
  have hinStep := h.inStep.calm_step (show bridge.calm .PollOpen = true from rfl)
  rw [hstep] at hinStep ⊢
  exact ⟨hinStep, h.host, h.shows.congr rfl rfl rfl rfl, h.steady, nofun, h.low, rfl, hseen, trivial, trivial,
    h.posted⟩

theorem Refines.givenUp (h : wires.Refines bridge) (hpc : wires.pc = .WaitState) :
    Simulated bridge wires { wires with pc := .Idle } := by
  obtain ⟨hphase, -⟩ := h.idle (by rw [hpc]; rfl)
  rw [hpc] at hphase
  have hseen := h.seen
  rw [hpc] at hseen
  have hstep := step_giveUpOpen hphase
  refine simulated_event .GiveUpOpen rfl (by rw [hstep]) ?_ rfl
  have hinStep := h.inStep.calm_step (show bridge.calm .GiveUpOpen = true from rfl)
  rw [hstep] at hinStep ⊢
  exact ⟨hinStep, h.host, h.shows.congr rfl rfl rfl rfl, h.steady, nofun, h.low, rfl, hseen, trivial, trivial,
    h.posted⟩

-- Where the connection worker is in `serve` matters only once it has taken the request.
theorem Refines.serving (h : wires.Refines bridge) (htaking : wires.taking = false) {serve : Serve}
    (hserve : ({ wires with serve := serve } : Wires).taking = false) :
    Refines { wires with serve := serve } bridge := by
  refine ⟨h.inStep, h.host, h.shows, h.steady, h.quiet, h.low, h.phase, h.seen, h.loaded, h.filled, ?_⟩
  have hposted := h.posted
  cases hrequest : bridge.request with
  | none =>
      rw [hrequest] at hposted
      exact ⟨hposted.1, hserve, hposted.2.2⟩
  | some request =>
      rw [hrequest] at hposted
      obtain ⟨hset, hop, -, hasked⟩ := hposted
      rw [htaking] at hset
      refine ⟨?_, hop, fun other hother => ?_, hasked⟩
      · rw [hserve]
        exact hset
      · dsimp only at hother
        rw [hother] at hserve
        cases hserve

theorem Refines.next (h : wires.Refines bridge) : Simulated bridge wires wires.next := by
  cases hpc : wires.pc with
  | StoreRequest op bytes => exact h.post hpc
  | ReadRegion op kind length => exact h.answered hpc
  | NotifyRequest op =>
      have hmoved : Refines { wires with pc := .LoadAnswer op } bridge :=
        h.move hpc rfl rfl rfl trivial trivial
      unfold Wires.next
      rw [hpc]
      dsimp only
      split_ifs with hlistening
      · refine simulated_silent (hmoved.serving ?_ rfl) rfl
        change wires.taking = false
        rw [taking, hlistening]
      · exact simulated_silent hmoved rfl
  | LoadAnswer op =>
      unfold Wires.next
      rw [hpc]
      dsimp only
      split_ifs with hanswer
      · exact simulated_silent (h.move hpc rfl rfl rfl trivial trivial) rfl
      · exact simulated_silent (h.found hpc hanswer) rfl
  | LoadState =>
      unfold Wires.next
      rw [hpc]
      dsimp only
      split_ifs with hstate
      · exact simulated_silent (h.move hpc rfl rfl rfl trivial trivial) rfl
      · exact h.opened hpc hstate
  | Fill op bytes =>
      unfold Wires.next
      rw [hpc]
      exact simulated_silent (h.fill hpc ⟨rfl, rfl, rfl⟩ ⟨rfl, rfl, rfl⟩ (fun _ => trivial)
        (take_overwrite _ _)) rfl
  | StoreOp op bytes =>
      have hfilled := h.filled
      rw [hpc] at hfilled
      unfold Wires.next
      rw [hpc]
      exact simulated_silent (h.fill hpc ⟨rfl, rfl, rfl⟩ ⟨rfl, rfl, rfl⟩ (fun _ => trivial)
        ⟨hfilled, rfl⟩) rfl
  | StoreLength op bytes =>
      have hfilled := h.filled
      rw [hpc] at hfilled
      unfold Wires.next
      rw [hpc]
      exact simulated_silent (h.fill hpc ⟨rfl, rfl, rfl⟩ ⟨rfl, rfl, rfl⟩ (fun _ => trivial)
        ⟨hfilled.1, hfilled.2, rfl⟩) rfl
  | Wait op =>
      unfold Wires.next
      rw [hpc]
      dsimp only
      split_ifs
      · exact simulated_silent (h.move hpc rfl rfl rfl trivial trivial) rfl
      · exact simulated_silent (h.move hpc rfl rfl rfl trivial trivial) rfl
  | WaitState =>
      unfold Wires.next
      rw [hpc]
      dsimp only
      split_ifs
      · exact simulated_silent (h.move hpc rfl rfl rfl trivial trivial) rfl
      · exact simulated_silent (h.move hpc rfl rfl rfl trivial trivial) rfl
  | LoadKind op =>
      unfold Wires.next
      rw [hpc]
      exact simulated_silent (h.move hpc rfl rfl rfl (fun _ => rfl) trivial) rfl
  | LoadLength op kind =>
      have hloaded := h.loaded
      rw [hpc] at hloaded
      unfold Wires.next
      rw [hpc]
      exact simulated_silent (h.move hpc rfl rfl rfl (fun hne => ⟨hloaded hne, rfl⟩) trivial) rfl
  | Idle =>
      unfold Wires.next
      rw [hpc]
      exact simulated_silent h rfl
  | Asleep op =>
      unfold Wires.next
      rw [hpc]
      exact simulated_silent h rfl
  | AsleepState =>
      unfold Wires.next
      rw [hpc]
      exact simulated_silent h rfl

-- A task of the connection worker starts. An answer that is being read is not answered again.
theorem Refines.starts (h : wires.Refines bridge) (hstores : wires.stores = []) (event : Event)
    (hcalm : bridge.calm event = true) {after : Bridge} (hstep : bridge.step event = (after, none))
    {run : Host × List Store} (hserves : after.Serves wires.slots run) (haside : bridge.Aside after)
    (hsteady : Tidy Steady run.2)
    (hquiet : ∀ op, wires.pc.asking = some op → op ≠ .Reopen → after.answer ≠ after.seen → Tidy Quiet run.2) :
    Simulated bridge wires { wires with host := run.1, stores := run.2 } := by
  obtain ⟨hphase, hseen, hrequest⟩ := haside
  have hinStep : after.InStep [] := by
    have hafter := h.inStep.calm_step hcalm
    rwa [hstep] at hafter
  refine simulated_event event hcalm (by rw [hstep]) ?_ rfl
  rw [hstep]
  refine ⟨hinStep, hserves.host, hserves.shows, hsteady, hquiet, h.low, ?_, ?_, h.loaded, h.filled, ?_⟩
  · rw [hphase]
    exact h.phase
  · have hseen' := h.seen
    dsimp only
    rw [hseen]
    split_ifs with hreading
    · rw [if_pos hreading] at hseen'
      have hbefore := h.shows.answer
      have hafter := hserves.shows.answer
      rw [hstores, Slots.storeAll_nil] at hbefore
      rw [Slots.answer_storeAll] at hafter
      rcases h.inStep.answer_eq with hone | hone <;> rcases hinStep.answer_eq with hnow | hnow <;> omega
    · rwa [if_neg hreading] at hseen'
  · rw [hrequest]
    exact h.posted

-- The connection worker takes the request and works on it.
theorem Refines.takes (h : wires.Refines bridge) (hstores : wires.stores = []) {op : Op}
    (hserve : wires.serve = .LoadRequest op) (thrown : Option Bytes) :
    Simulated bridge wires (wires.serveNext waitAsync thrown) := by
  have htaking : wires.taking = true := by rw [taking, hserve]
  have hposted := h.posted
  cases hrequest : bridge.request with
  | none =>
      rw [hrequest] at hposted
      cases hposted.2.1.symm.trans htaking
  | some request =>
      rw [hrequest] at hposted
      obtain ⟨hset, -, hop, hasked⟩ := hposted
      obtain rfl := hop op hserve
      rw [htaking] at hset
      have hshows := h.shows
      rw [hstores] at hshows
      have hserves := Host.serves_work (hshows.congr rfl rfl rfl rfl :
        wires.slots.Show { bridge with request := none }) request thrown
      obtain ⟨hphase, hseen, hnone⟩ :=
        @aside_work { bridge with request := none } request thrown
      have hstep : bridge.step (.Take thrown) =
          (({ bridge with request := none } : Bridge).work request thrown, none) := by
        simp only [Bridge.step, hrequest]
      have hnext : wires.serveNext waitAsync thrown = { wires with
          host := (wires.host.work request.op thrown).1
          stores := (wires.host.work request.op thrown).2
          serve := .Check
          taken := wires.taken ++
            [(request.op, wires.slots.requestRegion.take wires.slots.requestLength)] } := by
        unfold Wires.serveNext
        rw [hserve]
      have hinStep := h.inStep.calm_step (show bridge.calm (.Take thrown) = true from rfl)
      have hread := h.seen
      have hreading : wires.pc.reading = false := by
        by_contra hreading
        rw [if_pos (by simpa using hreading)] at hread
        exact hread.2 (h.inStep.posted hrequest)
      rw [hreading] at hread
      refine simulated_event (.Take thrown) rfl (by rw [hstep]) ?_ (by rw [hnext])
      rw [hstep] at hinStep ⊢
      rw [hnext, h.host]
      refine ⟨hinStep, hserves.host, hserves.shows, Host.tidy_work (by simp [Steady]) _ _ _,
        fun _ _ _ _ => Host.tidy_work trivial _ _ _, h.low, ?_, ?_, h.loaded, h.filled, ?_⟩
      · dsimp only
        rw [hphase]
        exact h.phase
      · dsimp only
        rw [hreading, hseen]
        exact hread
      · dsimp only
        rw [hnone]
        exact ⟨hset, rfl, hasked⟩

theorem loaded_request (pc : Pc) (slots : Slots) (request : Bool) :
    pc.Loaded { slots with request } ↔ pc.Loaded slots := by
  cases pc <;> exact Iff.rfl

theorem filled_request (pc : Pc) (slots : Slots) (request : Bool) :
    pc.Filled { slots with request } ↔ pc.Filled slots := by
  cases pc <;> exact Iff.rfl

theorem Refines.serveNext (h : wires.Refines bridge) (hstores : wires.stores = []) (thrown : Option Bytes) :
    Simulated bridge wires (wires.serveNext waitAsync thrown) := by
  cases hserve : wires.serve with
  | LoadRequest op => exact h.takes hstores hserve thrown
  | LoadOp =>
      have htaking : wires.taking = true := by rw [taking, hserve]
      unfold Wires.serveNext
      rw [hserve]
      refine simulated_silent ⟨h.inStep, h.host, h.shows, h.steady, h.quiet, h.low, h.phase, h.seen, h.loaded,
        h.filled, ?_⟩ rfl
      have hposted := h.posted
      cases hrequest : bridge.request with
      | none =>
          rw [hrequest] at hposted
          cases hposted.2.1.symm.trans htaking
      | some request =>
          rw [hrequest] at hposted
          obtain ⟨hset, hop, -, hasked⟩ := hposted
          rw [htaking] at hset
          refine ⟨hset, hop, fun other hother => ?_, hasked⟩
          rw [← Serve.LoadRequest.inj hother, hop]
  | Exchange =>
      have htaking : wires.taking = false := by rw [taking, hserve]
      unfold Wires.serveNext
      rw [hserve]
      dsimp only
      split_ifs with hset
      · refine simulated_silent ⟨h.inStep, h.host, h.shows.asked _ _ _ _, h.steady, h.quiet, h.low, h.phase,
          h.seen, ?_, ?_, ?_⟩ rfl
        · exact (loaded_request wires.pc wires.slots false).mpr h.loaded
        · exact (filled_request wires.pc wires.slots false).mpr h.filled
        · have hposted := h.posted
          cases hrequest : bridge.request with
          | none =>
              rw [hrequest] at hposted
              cases hposted.1.symm.trans hset
          | some request =>
              rw [hrequest] at hposted
              exact ⟨rfl, hposted.2.1, nofun, hposted.2.2.2⟩
      · exact simulated_silent (h.serving htaking rfl) rfl
  | Check =>
      have htaking : wires.taking = false := by rw [taking, hserve]
      unfold Wires.serveNext
      rw [hserve]
      dsimp only
      split_ifs
      · exact simulated_silent (h.serving htaking rfl) rfl
      · exact simulated_silent (h.serving htaking rfl) rfl
      · exact simulated_silent (h.serving htaking rfl) rfl
      · exact simulated_silent (h.serving htaking rfl) rfl
  | Notified =>
      have htaking : wires.taking = false := by rw [taking, hserve]
      unfold Wires.serveNext
      rw [hserve]
      exact simulated_silent (h.serving htaking rfl) rfl
  | Listening =>
      unfold Wires.serveNext
      rw [hserve]
      exact simulated_silent h rfl
  | Ended =>
      unfold Wires.serveNext
      rw [hserve]
      exact simulated_silent h rfl

-- No call of `ask` gives up, and no connection attempt fails while the answer to another request
-- than a reopening is there to be taken.
def patient (wires : Wires) : Action → Bool
  | .Timeout =>
    match wires.pc with
    | .Wait _ => false
    | _ => true
  | .Fail _ =>
    match wires.pc.asking with
    | some op => op = .Reopen || wires.slots.state ≠ .Connecting ||
        (!wires.pc.reading && wires.slots.answer = wires.seen)
    | none => true
  | _ => true

def Patient (waitAsync : Bool) (wires : Wires) : List Action → Prop
  | [] => True
  | action :: rest => wires.patient action = true ∧ (wires.step waitAsync action).Patient waitAsync rest

instance (waitAsync : Bool) (wires : Wires) : (actions : List Action) →
    Decidable (wires.Patient waitAsync actions)
  | [] => .isTrue trivial
  | action :: rest =>
    have := instDecidablePatient waitAsync (wires.step waitAsync action) rest
    inferInstanceAs (Decidable (_ ∧ _))

-- Another task of the connection worker starts only when the one before has ended.
theorem Refines.task (h : wires.Refines bridge) {run : Host × List Store}
    (hstart : wires.stores = [] → wires.slots.Show bridge →
      Simulated bridge wires { wires with host := run.1, stores := run.2 }) :
    Simulated bridge wires (wires.task run) := by
  unfold Wires.task
  split_ifs with hfree
  · have hshows := h.shows
    rw [hfree.1] at hshows
    exact hstart hfree.1 hshows
  · exact simulated_silent h rfl

theorem answer_fail_connecting (hstate : bridge.state = .Connecting) (message : Bytes) :
    (bridge.fail message).answer = bridge.answer := by
  unfold Bridge.fail
  split_ifs
  · rfl
  · rw [hstate]

theorem Refines.fails (h : wires.Refines bridge) {message : Bytes}
    (hpatient : wires.patient (.Fail message) = true) :
    Simulated bridge wires (wires.step waitAsync (.Fail message)) := by
  have hphase := h.phase
  unfold Pc.Fits at hphase
  refine h.task fun hstores hshows => ?_
  have hunread : ∀ op, wires.pc.asking = some op → op ≠ .Reopen → bridge.state = .Connecting →
      bridge.answer = bridge.seen := by
    intro op hop hne hstate
    have hseen := h.seen
    simp only [patient, hop, Bool.or_eq_true, decide_eq_true_eq, Bool.and_eq_true, Bool.not_eq_true',
      hshows.state, hstate, hne, ne_eq, not_true_eq_false, false_or] at hpatient
    rw [hpatient.1] at hseen
    exact hshows.answer.symm.trans (hpatient.2.trans hseen)
  have hdown : wires.slots.Show { bridge with ready := false } := hshows.congr rfl rfl rfl rfl
  have hserves := Host.serves_fail hdown message
  rw [h.host]
  refine h.starts hstores (.Fail message) ?_ rfl hserves
    (@aside_fail { bridge with ready := false } message) (Host.steady_fail _ _ _) ?_
  · simp only [Bridge.calm, Bridge.spares]
    cases hasking : wires.pc.asking with
    | none =>
        rw [hasking] at hphase
        rw [hphase]
        cases wires.pc.opening <;> rfl
    | some op =>
        rw [hasking] at hphase
        obtain ⟨number, hphase⟩ := hphase
        rw [hphase]
        by_cases hop : op = .Reopen
        · simp [hop]
        · by_cases hstate : bridge.state = .Connecting
          · simp [hunread op hasking hop hstate]
          · simp [hstate]
  · intro op hop hne hanswer
    by_cases hstate : bridge.state = .Connecting
    · have hsame := @answer_fail_connecting { bridge with ready := false } hstate message
      have hseen := (@aside_fail { bridge with ready := false } message).2.1
      exact absurd (hsame.trans ((hunread op hop hne hstate).trans hseen.symm)) hanswer
    · exact Host.quiet_fail (hshows.state ▸ hstate) message _

theorem Refines.step (h : wires.Refines bridge) {action : Action} (hpatient : wires.patient action = true) :
    Simulated bridge wires (wires.step waitAsync action) := by
  cases action with
  | Begin op bytes =>
      unfold Wires.step
      dsimp only
      split_ifs with hidle
      · exact simulated_silent (h.move hidle.1 rfl rfl rfl trivial trivial) rfl
      · exact simulated_silent h rfl
  | Next => exact h.next
  | Wake =>
      unfold Wires.step
      cases hpc : wires.pc with
      | Asleep op => exact simulated_silent (h.move hpc rfl rfl rfl trivial trivial) rfl
      | AsleepState => exact simulated_silent (h.move hpc rfl rfl rfl trivial trivial) rfl
      | _ => exact simulated_silent h rfl
  | Timeout =>
      unfold Wires.step
      cases hpc : wires.pc with
      | Wait op =>
          rw [patient, hpc] at hpatient
          cases hpatient
      | WaitState => exact h.givenUp hpc
      | _ => exact simulated_silent h rfl
  | Store =>
      unfold Wires.step
      cases hstores : wires.stores with
      | nil => exact simulated_silent h rfl
      | cons store rest => exact simulated_silent (h.store hstores) rfl
  | Serve thrown =>
      unfold Wires.step
      dsimp only
      split_ifs with hstores
      · exact h.serveNext hstores thrown
      · exact simulated_silent h rfl
  | Opened =>
      unfold Wires.step
      dsimp only
      split_ifs with hstate
      · refine h.task fun hstores hshows => ?_
        rw [h.host]
        have hconnecting : bridge.state = .Connecting := hshows.state.symm.trans hstate
        have hstep : bridge.step .Opened = ({ bridge with ready := true, state := .Open }, none) := by
          simp only [Bridge.step, hconnecting]
        refine h.starts hstores .Opened rfl hstep ⟨rfl, rfl, hshows.answer, hshows.kind, hshows.bytes⟩
          ⟨rfl, rfl, rfl⟩
          (tidy_of_good (by simp [Steady])) fun _ _ _ _ => tidy_of_good (by simp [Quiet])
      · exact simulated_silent h rfl
  | Frame ping frame =>
      unfold Wires.step
      dsimp only
      split_ifs with hping
      · exact simulated_silent h rfl
      · refine h.task fun hstores hshows => ?_
        rw [h.host]
        have hserves := Host.serves_deliver (hshows.congr rfl rfl rfl rfl :
          wires.slots.Show { bridge with queued := bridge.queued ++ [frame] })
        have hstep : bridge.step (.Frame ping frame) =
            (({ bridge with queued := bridge.queued ++ [frame] } : Bridge).deliver, none) := if_neg hping
        exact h.starts hstores (.Frame ping frame) rfl hstep hserves (@aside_deliver { bridge with queued := _ })
          (Host.tidy_deliver (by simp [Steady]) _) fun _ _ _ _ => Host.tidy_deliver trivial _
  | Fail message => exact h.fails hpatient
  | Finish kind bytes unhandled =>
      refine h.task fun hstores hshows => ?_
      rw [h.host]
      exact h.starts hstores (.Finish kind bytes unhandled) rfl rfl
        (Host.serves_finish hshows kind bytes unhandled) (aside_finish kind bytes unhandled)
        (Host.tidy_finish (by simp [Steady]) _ _ _ _ _) fun _ _ _ _ => Host.tidy_finish trivial _ _ _ _ _

theorem Refines.run (h : wires.Refines bridge) {actions : List Action}
    (hpatient : wires.Patient waitAsync actions) :
    Simulated bridge wires (wires.run waitAsync actions) := by
  induction actions generalizing wires bridge with
  | nil => exact simulated_silent h rfl
  | cons action rest ih =>
      obtain ⟨events, hcalm, hafter, hreturned⟩ :=
        (h.step hpatient.1 : Simulated bridge wires (wires.step waitAsync action))
      obtain ⟨more, hcalm', hlast, hreturned'⟩ := ih hafter hpatient.2
      refine ⟨events ++ more, calm_append hcalm hcalm', ?_, ?_⟩
      · rw [Bridge.run, List.foldl_append]
        exact hlast
      · rw [returns_append, ← List.append_assoc, ← hreturned]
        exact hreturned'

theorem refines_start (server : Bool) : (start server).Refines (Bridge.start server) where
  inStep := start_inStep server
  host := rfl
  shows := ⟨rfl, rfl, rfl, rfl⟩
  steady := trivial
  quiet := fun _ _ _ hanswer => absurd rfl hanswer
  low := le_refl _
  phase := by cases server <;> rfl
  seen := by cases server <;> rfl
  loaded := by cases server <;> trivial
  filled := by cases server <;> trivial
  posted := ⟨rfl, rfl, rfl⟩

-- A request whose answer is stored while the SQLite worker looks for it.
def sampleActions : List Action :=
  [.Serve none, .Begin .CopyHead [5]] ++ List.replicate 5 .Next ++ List.replicate 5 (.Serve none) ++
    [.Next, .Finish .Frame [7] false, .Store, .Store, .Next, .Store, .Wake, .Next, .Next, .Store, .Store] ++
    List.replicate 4 .Next

end Wires

end RemoteVfs.Bridge
