import RemoteVfs.Bridge

namespace RemoteVfs.Bridge

-- `late` has the requests whose call of `ask` gave up. They can still be in the slots, and the
-- worker can still work on them.
variable {bridge after : Bridge} {late : List Nat} {request : Request}

-- The jobs of the chain answer only requests that gave up.
def Silent (late : List Nat) (chain : List (Option Nat)) : Prop := ∀ number, some number ∈ chain → number ∈ late

-- So does the whole worker.
structure Still (late : List Nat) (bridge : Bridge) : Prop where
  waiting : ∀ number ∈ bridge.waiting, number ∈ late
  chain : Silent late bridge.chain

-- Everything that the worker has answered was taken.
structure Rest (late : List Nat) (bridge : Bridge) : Prop extends Still late bridge where
  answer : bridge.answer = bridge.seen

-- The answer to the request is in the slots.
structure Answered (late : List Nat) (request : Request) (bridge : Bridge) : Prop
    extends Still late bridge where
  answer : bridge.answer = bridge.seen + 1
  number : bridge.last.number = request.number
  kind : bridge.kind = bridge.last.kind
  bytes : request.op ≠ .Reopen → bridge.bytes = bridge.last.bytes

-- Where the request is that the SQLite worker waits for.
inductive Asked (late : List Nat) (request : Request) (bridge : Bridge) : Prop where
  | Posted (request : bridge.request = some request) (rest : bridge.Rest late)
  | Waiting (taken : bridge.request = none) (waiting : bridge.waiting = some request.number)
      (chain : Silent late bridge.chain) (answer : bridge.answer = bridge.seen)
  | Running (taken : bridge.request = none) (before : List (Option Nat)) (silent : Silent late before)
      (chain : bridge.chain = before ++ [some request.number])
      (waiting : ∀ number ∈ bridge.waiting, number ∈ late) (answer : bridge.answer = bridge.seen)
  | Answered (taken : bridge.request = none) (answered : bridge.Answered late request)
  -- the job failed without an answer
  | Dropped (taken : bridge.request = none) (rest : bridge.Rest late)

-- The SQLite worker waits for no request.
structure Free (late : List Nat) (bridge : Bridge) : Prop extends Rest late bridge where
  request : ∀ request ∈ bridge.request, request.number ∈ late

-- The two workers are in step: but for requests that gave up, at most the one that the SQLite
-- worker waits for is open.
def InStep (late : List Nat) (bridge : Bridge) : Prop :=
  match bridge.phase with
  | .Asking request => bridge.Asked late request
  | _ => bridge.Free late

-- No connection attempt fails while the answer to another request than a reopening waits to be
-- taken: the text of its error would overwrite the answer.
def spares (bridge : Bridge) : Event → Bool
  | .Fail _ =>
    match bridge.phase with
    | .Asking request =>
      request.op = .Reopen || bridge.state ≠ .Connecting || bridge.answer = bridge.seen
    | _ => true
  | _ => true

-- The requests that have given up after the event.
def gaveUp (late : List Nat) (bridge : Bridge) : Event → List Nat
  | .GiveUp =>
    match bridge.phase with
    | .Asking request => if bridge.answer = bridge.seen then request.number :: late else late
    | _ => late
  | _ => late

-- If an answer was put, then for none of the requests.
def Prompt (late : List Nat) (bridge after : Bridge) : Prop :=
  after.answer = bridge.answer ∨ after.last.number ∉ late

instance (late : List Nat) (bridge after : Bridge) : Decidable (bridge.Prompt late after) :=
  inferInstanceAs (Decidable (_ ∨ _))

-- No answer to a request comes after its call has given up.
def Timely (late : List Nat) (bridge : Bridge) : List Event → Prop
  | [] => True
  | event :: rest =>
    bridge.spares event = true ∧ bridge.Prompt late (bridge.step event).1 ∧
      (bridge.step event).1.Timely (bridge.gaveUp late event) rest

instance (late : List Nat) (bridge : Bridge) : (events : List Event) → Decidable (bridge.Timely late events)
  | [] => .isTrue trivial
  | event :: rest =>
    have := instDecidableTimely (bridge.gaveUp late event) (bridge.step event).1 rest
    inferInstanceAs (Decidable (_ ∧ _ ∧ _))

-- The requests that have given up in a run.
def lapsed (late : List Nat) (bridge : Bridge) : List Event → List Nat
  | [] => late
  | event :: rest => (bridge.step event).1.lapsed (bridge.gaveUp late event) rest

-- The connection worker leaves what belongs to the SQLite worker.
def Aside (bridge after : Bridge) : Prop :=
  after.phase = bridge.phase ∧ after.seen = bridge.seen ∧ after.request = bridge.request

theorem aside_deliver : bridge.Aside bridge.deliver := by
  unfold Bridge.deliver
  split
  · exact ⟨rfl, rfl, rfl⟩
  · split <;> exact ⟨rfl, rfl, rfl⟩

theorem aside_fail (message : Bytes) : bridge.Aside (bridge.fail message) := by
  unfold Bridge.fail
  split_ifs
  · exact ⟨rfl, rfl, rfl⟩
  · dsimp only
    split
    · exact ⟨rfl, rfl, rfl⟩
    · exact @aside_deliver { bridge with failure := some (bridge.failure.getD message) }

theorem aside_connect (refused : Option Bytes) : bridge.Aside (bridge.connect refused) := by
  cases refused with
  | none => exact ⟨rfl, rfl, rfl⟩
  | some message =>
      exact @aside_fail { bridge with queued := [], failure := none, state := .Connecting } message

theorem aside_work (request : Request) (thrown : Option Bytes) : bridge.Aside (bridge.work request thrown) := by
  unfold Bridge.work
  cases request.op with
  | Send =>
      dsimp only
      split_ifs
      · cases thrown <;> exact ⟨rfl, rfl, rfl⟩
      · exact ⟨rfl, rfl, rfl⟩
  | Receive => exact @aside_deliver { bridge with waiting := some request.number }
  | Reopen => exact @aside_connect bridge.drop thrown
  | CopyWrite last => cases last <;> exact ⟨rfl, rfl, rfl⟩
  | LocalCommit last => cases last <;> exact ⟨rfl, rfl, rfl⟩
  | _ => exact ⟨rfl, rfl, rfl⟩

theorem aside_finish (kind : Kind) (bytes : Bytes) (unhandled : Bool) :
    bridge.Aside (bridge.finish kind bytes unhandled) := by
  unfold Bridge.finish
  split
  · exact ⟨rfl, rfl, rfl⟩
  · exact ⟨rfl, rfl, rfl⟩
  · dsimp only
    split_ifs <;> exact ⟨rfl, rfl, rfl⟩

theorem silent_append {before after : List (Option Nat)} (hbefore : Silent late before)
    (hafter : Silent late after) : Silent late (before ++ after) := fun number hmem =>
  (List.mem_append.mp hmem).elim (hbefore number) (hafter number)

theorem silent_none : Silent late [none] := by
  intro number hmem
  cases List.mem_singleton.mp hmem

-- `put` for the open request.
theorem Rest.put (h : bridge.Rest late) (request : Request) (kind : Kind) (bytes : Bytes) :
    (bridge.put request.number kind bytes).Answered late request :=
  ⟨⟨h.waiting, h.chain⟩, congrArg (· + 1) h.answer, rfl, rfl, fun _ => rfl⟩

theorem not_prompt_put {number : Nat} (hanswer : after.answer = bridge.answer) (hnumber : number ∈ late)
    (kind : Kind) (bytes : Bytes) : ¬bridge.Prompt late (after.put number kind bytes) := by
  rintro (hsame | hnot)
  · exact absurd (hsame.trans hanswer.symm) (Nat.succ_ne_self _)
  · exact hnot hnumber

-- A receive that gave up gets nothing.
theorem deliver_eq (hwaiting : ∀ number ∈ bridge.waiting, number ∈ late)
    (hprompt : bridge.Prompt late bridge.deliver) : bridge.deliver = bridge := by
  unfold Bridge.deliver at hprompt ⊢
  cases hcase : bridge.waiting with
  | none => rfl
  | some number =>
      have hnumber := hwaiting number hcase
      rw [hcase] at hprompt
      dsimp only at hprompt ⊢
      split at hprompt
      · exact absurd hprompt (not_prompt_put rfl hnumber _ _)
      · exact absurd hprompt (not_prompt_put rfl hnumber _ _)
      · rfl

-- What arrives from outside while a receive waits for it.
theorem deliver_waiting (htaken : bridge.request = none) (hwaiting : bridge.waiting = some request.number)
    (hchain : Silent late bridge.chain) (hanswer : bridge.answer = bridge.seen) :
    bridge.deliver.Asked late request := by
  rw [deliver, hwaiting]
  dsimp only
  split
  · rename_i frame rest _
    have hrest : ({ bridge with waiting := none, queued := rest } : Bridge).Rest late :=
      ⟨⟨nofun, hchain⟩, hanswer⟩
    exact .Answered htaken (hrest.put request _ _)
  · have hrest : ({ bridge with waiting := none } : Bridge).Rest late := ⟨⟨nofun, hchain⟩, hanswer⟩
    exact .Answered htaken (hrest.put request _ _)
  · exact .Waiting htaken hwaiting hchain hanswer

-- The failure of a connection answers nothing but a receive.
theorem fail_eq (hwaiting : ∀ number ∈ bridge.waiting, number ∈ late) {message : Bytes}
    (hprompt : bridge.Prompt late (bridge.fail message)) :
    ∃ failure bytes state, bridge.fail message =
        { bridge with failure := failure, bytes := bytes, state := state } ∧
      (bytes = bridge.bytes ∨ bridge.state = .Connecting) := by
  unfold Bridge.fail at hprompt ⊢
  split_ifs at hprompt ⊢
  · exact ⟨_, _, _, rfl, Or.inl rfl⟩
  · dsimp only at hprompt ⊢
    split at hprompt
    · rename_i hstate
      rw [hstate]
      exact ⟨_, _, _, rfl, Or.inr rfl⟩
    · rename_i hstate
      rw [@deliver_eq { bridge with failure := some (bridge.failure.getD message) } late hwaiting hprompt]
      refine ⟨some (bridge.failure.getD message), bridge.bytes, bridge.state, ?_, Or.inl rfl⟩
      cases hcase : bridge.state with
      | Connecting => exact absurd hcase hstate
      | _ => rfl

theorem fail_waiting (htaken : bridge.request = none) (hwaiting : bridge.waiting = some request.number)
    (hchain : Silent late bridge.chain) (hanswer : bridge.answer = bridge.seen) (message : Bytes) :
    (bridge.fail message).Asked late request := by
  unfold Bridge.fail
  split_ifs
  · exact .Waiting htaken hwaiting hchain hanswer
  · dsimp only
    split
    · exact .Waiting htaken hwaiting hchain hanswer
    · exact deliver_waiting htaken hwaiting hchain hanswer

-- A new connection attempt answers nothing, even if it fails at once.
theorem connect_eq (bridge : Bridge) (refused : Option Bytes) :
    ∃ failure bytes state, bridge.connect refused =
      { bridge with queued := [], failure := failure, bytes := bytes, state := state } := by
  cases refused with
  | none => exact ⟨_, _, _, rfl⟩
  | some message =>
      simp only [Bridge.connect, Bridge.fail]
      split_ifs
      · exact ⟨_, _, _, rfl⟩
      · exact ⟨_, _, _, rfl⟩

-- The worker takes the request.
theorem Rest.work (h : bridge.Rest late) (htaken : bridge.request = none) (request : Request)
    (thrown : Option Bytes) : (bridge.work request thrown).Asked late request := by
  unfold Bridge.work
  have hlater : (({ bridge with chain := bridge.chain ++ [some request.number] } : Bridge)).Asked late request :=
    .Running htaken bridge.chain h.chain rfl h.waiting h.answer
  cases hop : request.op with
  | Send =>
      dsimp only
      split_ifs
      · cases thrown with
        | none => exact .Answered htaken (h.put request _ _)
        | some text => exact .Answered htaken (h.put request _ _)
      · exact .Answered htaken (h.put request _ _)
  | Receive =>
      have hwaiting : ({ bridge with waiting := some request.number } : Bridge).waiting =
        some request.number := rfl
      exact deliver_waiting htaken hwaiting h.chain h.answer
  | Reopen =>
      obtain ⟨failure, bytes, state, heq⟩ := connect_eq bridge.drop thrown
      have hrest : (bridge.drop.connect thrown).Rest late := by
        rw [heq]
        exact ⟨⟨h.waiting, h.chain⟩, h.answer⟩
      have hrequest : (bridge.drop.connect thrown).request = none := by
        rw [heq]
        exact htaken
      exact .Answered hrequest (hrest.put request _ _)
  | Close =>
      have hrest : ({ bridge.drop with closed := true, waiting := none } : Bridge).Rest late :=
        ⟨⟨nofun, h.chain⟩, h.answer⟩
      exact .Answered htaken (hrest.put request _ _)
  | CopyWrite last =>
      cases last with
      | true =>
          have hrest : ({ bridge with chain := bridge.chain ++ [none] } : Bridge).Rest late :=
            ⟨⟨h.waiting, silent_append h.chain silent_none⟩, h.answer⟩
          exact .Answered htaken (hrest.put request _ _)
      | false => exact .Answered htaken (h.put request _ _)
  | LocalCommit last =>
      cases last with
      | true => exact hlater
      | false => exact .Answered htaken (h.put request _ _)
  | Probe => exact .Answered htaken (h.put request _ _)
  | _ => exact hlater

-- The end of a job with no request to answer, or with one that gave up.
theorem finish_late {job : Option Nat} {rest : List (Option Nat)} {kind : Kind} {bytes : Bytes}
    {unhandled : Bool} (hchain : bridge.chain = job :: rest) (hjob : ∀ number ∈ job, number ∈ late)
    (hprompt : bridge.Prompt late (bridge.finish kind bytes unhandled)) :
    bridge.finish kind bytes unhandled = { bridge with chain := rest } := by
  unfold Bridge.finish at hprompt ⊢
  rw [hchain] at hprompt ⊢
  cases job with
  | none => rfl
  | some number =>
      have hnumber := hjob number rfl
      dsimp only at hprompt ⊢
      split_ifs at hprompt ⊢
      · rfl
      · exact absurd hprompt (not_prompt_put rfl hnumber _ _)
      · exact absurd hprompt (not_prompt_put rfl hnumber _ _)

theorem finish_silent {kind : Kind} {bytes : Bytes} {unhandled : Bool} (h : Silent late bridge.chain)
    (hprompt : bridge.Prompt late (bridge.finish kind bytes unhandled)) :
    ∃ rest, Silent late rest ∧ bridge.finish kind bytes unhandled = { bridge with chain := rest } := by
  cases hchain : bridge.chain with
  | nil =>
      have hsame : bridge.finish kind bytes unhandled = bridge := by
        unfold Bridge.finish
        rw [hchain]
      exact ⟨bridge.chain, h, hsame⟩
  | cons job rest =>
      rw [hchain] at h
      refine ⟨rest, fun number hmem => h number (List.mem_cons_of_mem _ hmem), finish_late hchain ?_ hprompt⟩
      intro number hmem
      exact h number ((Option.mem_def.mp hmem) ▸ List.mem_cons_self)

-- The job of the open request ends, or one before it.
theorem finish_running {before : List (Option Nat)} {kind : Kind} {bytes : Bytes} {unhandled : Bool}
    (htaken : bridge.request = none) (hsilent : Silent late before)
    (hchain : bridge.chain = before ++ [some request.number])
    (hwaiting : ∀ number ∈ bridge.waiting, number ∈ late) (hanswer : bridge.answer = bridge.seen)
    (hprompt : bridge.Prompt late (bridge.finish kind bytes unhandled)) :
    (bridge.finish kind bytes unhandled).Asked late request := by
  cases before with
  | nil =>
      have hrest : ({ bridge with chain := [] } : Bridge).Rest late :=
        ⟨⟨hwaiting, fun _ => nofun⟩, hanswer⟩
      unfold Bridge.finish
      rw [hchain, List.nil_append]
      dsimp only
      split_ifs
      · exact .Dropped htaken hrest
      · exact .Answered htaken (hrest.put request _ _)
      · exact .Answered htaken (hrest.put request _ _)
  | cons job rest =>
      have hjob : ∀ number ∈ job, number ∈ late := fun number hmem =>
        hsilent number ((Option.mem_def.mp hmem) ▸ List.mem_cons_self)
      rw [finish_late hchain hjob hprompt]
      exact .Running htaken rest (fun number hmem => hsilent number (List.mem_cons_of_mem _ hmem)) rfl
        hwaiting hanswer

-- A task of the worker that answers no request.
structure Kept (late : List Nat) (bridge after : Bridge) : Prop where
  still : after.Still late
  request : after.request = bridge.request
  seen : after.seen = bridge.seen
  answer : after.answer = bridge.answer
  kind : after.kind = bridge.kind
  last : after.last = bridge.last

theorem Rest.kept (h : bridge.Rest late) (hkept : bridge.Kept late after) : after.Rest late :=
  ⟨hkept.still, hkept.answer.trans (h.answer.trans hkept.seen.symm)⟩

theorem Free.kept (h : bridge.Free late) (hkept : bridge.Still late → bridge.Kept late after) :
    after.Free late := by
  have hafter := hkept h.toStill
  exact ⟨h.toRest.kept hafter, hafter.request ▸ h.request⟩

theorem Answered.kept (h : bridge.Answered late request) (hkept : bridge.Kept late after)
    (hbytes : request.op = .Reopen ∨ after.bytes = bridge.bytes) : after.Answered late request where
  toStill := hkept.still
  answer := hkept.answer.trans (h.answer.trans (congrArg (· + 1) hkept.seen.symm))
  number := hkept.last ▸ h.number
  kind := hkept.kind.trans (h.kind.trans (congrArg Answer.kind hkept.last.symm))
  bytes hop := by
    rw [hbytes.resolve_left hop, hkept.last]
    exact h.bytes hop

-- A task while a request is open. If the request waits for a frame or in the chain, the task can
-- be the one that answers it.
theorem Asked.serve (h : bridge.Asked late request) (hkept : bridge.Still late → bridge.Kept late after)
    (hbytes : bridge.Still late → request.op = .Reopen ∨ after.bytes = bridge.bytes ∨ bridge.answer = bridge.seen)
    (hwaiting : bridge.request = none → bridge.waiting = some request.number → Silent late bridge.chain →
      bridge.answer = bridge.seen → after.Asked late request)
    (hrunning : ∀ before, bridge.request = none → Silent late before →
      bridge.chain = before ++ [some request.number] → (∀ number ∈ bridge.waiting, number ∈ late) →
      bridge.answer = bridge.seen → after.Asked late request) : after.Asked late request := by
  cases h with
  | Posted hrequest hrest =>
      have hafter := hkept hrest.toStill
      exact .Posted (hafter.request.trans hrequest) (hrest.kept hafter)
  | Waiting htaken hown hchain hanswer => exact hwaiting htaken hown hchain hanswer
  | Running htaken before hsilent hchain hlate hanswer =>
      exact hrunning before htaken hsilent hchain hlate hanswer
  | Answered htaken hanswered =>
      have hafter := hkept hanswered.toStill
      refine .Answered (hafter.request.trans htaken) (hanswered.kept hafter ?_)
      have hcount := hanswered.answer
      rcases hbytes hanswered.toStill with hop | hsame | hseen
      · exact Or.inl hop
      · exact Or.inr hsame
      · omega
  | Dropped htaken hrest =>
      have hafter := hkept hrest.toStill
      exact .Dropped (hafter.request.trans htaken) (hrest.kept hafter)

-- An answer that is there when `ask` looks is the one to its request.
theorem Asked.answered (h : bridge.Asked late request) (hanswer : bridge.answer ≠ bridge.seen) :
    bridge.request = none ∧ bridge.Answered late request := by
  cases h with
  | Posted _ hrest => exact absurd hrest.answer hanswer
  | Waiting _ _ _ hseen => exact absurd hseen hanswer
  | Running _ _ _ _ _ hseen => exact absurd hseen hanswer
  | Answered htaken hanswered => exact ⟨htaken, hanswered⟩
  | Dropped _ hrest => exact absurd hrest.answer hanswer

-- A request that gives up without an answer.
theorem Asked.lapse {more : List Nat} (h : bridge.Asked late request)
    (hlate : ∀ number ∈ late, number ∈ more) (hrequest : request.number ∈ more)
    (hanswer : bridge.answer = bridge.seen) : bridge.Free more := by
  have hsilent : ∀ {chain}, Silent late chain → Silent more chain := fun h number hmem =>
    hlate number (h number hmem)
  have hrest : bridge.Rest late → bridge.Rest more := fun h =>
    ⟨⟨fun number hmem => hlate number (h.waiting number hmem), hsilent h.chain⟩, hanswer⟩
  have hnone : bridge.request = none → ∀ request ∈ bridge.request, request.number ∈ more := by
    intro htaken request hmem
    cases htaken.symm.trans hmem
  cases h with
  | Posted hposted h =>
      refine ⟨hrest h, fun other hmem => ?_⟩
      cases hposted.symm.trans hmem
      exact hrequest
  | Waiting htaken hwaiting hchain _ =>
      refine ⟨⟨⟨fun number hmem => ?_, hsilent hchain⟩, hanswer⟩, hnone htaken⟩
      cases hwaiting.symm.trans hmem
      exact hrequest
  | Running htaken before hbefore hchain hwaiting _ =>
      refine ⟨⟨⟨fun number hmem => hlate number (hwaiting number hmem), ?_⟩, hanswer⟩, hnone htaken⟩
      rw [hchain]
      refine silent_append (hsilent hbefore) fun number hmem => ?_
      cases List.mem_singleton.mp hmem
      exact hrequest
  | Answered _ hanswered =>
      have hcount := hanswered.answer
      omega
  | Dropped htaken h => exact ⟨hrest h, hnone htaken⟩

theorem InStep.asking (h : bridge.InStep late) (hphase : bridge.phase = .Asking request) :
    bridge.Asked late request := by
  rw [InStep, hphase] at h
  exact h

theorem InStep.free (h : bridge.InStep late) (hphase : ∀ request, bridge.phase ≠ .Asking request) :
    bridge.Free late := by
  unfold InStep at h
  cases hcase : bridge.phase with
  | Asking request => exact absurd hcase (hphase request)
  | _ => rwa [hcase] at h

theorem inStep_of_free (hphase : ∀ request, bridge.phase ≠ .Asking request) (hfree : bridge.Free late) :
    bridge.InStep late := by
  unfold InStep
  cases hcase : bridge.phase with
  | Asking request => exact absurd hcase (hphase request)
  | _ => exact hfree

theorem inStep_of_asked (hphase : bridge.phase = .Asking request) (hasked : bridge.Asked late request) :
    bridge.InStep late := by
  rw [InStep, hphase]
  exact hasked

-- The events of the connection worker, while a request is open and while none is.
theorem InStep.serve (h : bridge.InStep late) (hphase : after.phase = bridge.phase)
    (hasked : ∀ request, bridge.phase = .Asking request → bridge.Asked late request → after.Asked late request)
    (hfree : bridge.Free late → after.Free late) : after.InStep late := by
  by_cases hcase : ∃ request, bridge.phase = .Asking request
  · obtain ⟨request, hcase⟩ := hcase
    exact inStep_of_asked (hphase.trans hcase) (hasked request hcase (h.asking hcase))
  · have hnot : ∀ request, bridge.phase ≠ .Asking request := fun request heq => hcase ⟨request, heq⟩
    exact inStep_of_free (fun request => hphase ▸ hnot request) (hfree (h.free hnot))

theorem InStep.take (h : bridge.InStep late) {thrown : Option Bytes}
    (hprompt : bridge.Prompt late (bridge.step (.Take thrown)).1) :
    (bridge.step (.Take thrown)).1.InStep late := by
  cases hrequest : bridge.request with
  | none =>
      simp only [Bridge.step, hrequest]
      exact h
  | some request =>
      simp only [Bridge.step, hrequest] at hprompt ⊢
      obtain ⟨hphase, hseen, -⟩ := @aside_work { bridge with request := none } request thrown
      have hwork : bridge.Rest late →
          (({ bridge with request := none } : Bridge).work request thrown).Asked late request :=
        fun hrest => @Rest.work { bridge with request := none } late
          ⟨⟨hrest.waiting, hrest.chain⟩, hrest.answer⟩ rfl request thrown
      refine h.serve hphase (fun asked hcase hasked => ?_) fun hfree => ?_
      · cases hasked with
        | Posted hposted hrest =>
            cases hrequest.symm.trans hposted
            exact hwork hrest
        | Waiting htaken => cases hrequest.symm.trans htaken
        | Running htaken => cases hrequest.symm.trans htaken
        | Answered htaken => cases hrequest.symm.trans htaken
        | Dropped htaken => cases hrequest.symm.trans htaken
      · -- The request gave up before it was taken.
        have hlate := hfree.request request hrequest
        have hasked := hwork hfree.toRest
        refine hasked.lapse (fun _ hmem => hmem) hlate ?_
        by_contra hne
        rcases hprompt with hsame | hnot
        · exact hne (hsame.trans (hfree.answer.trans hseen.symm))
        · exact hnot ((hasked.answered hne).2.number ▸ hlate)

theorem InStep.frame (h : bridge.InStep late) {queued : List Bytes}
    (hprompt : bridge.Prompt late ({ bridge with queued := queued } : Bridge).deliver) :
    ({ bridge with queued := queued } : Bridge).deliver.InStep late := by
  have heq : (∀ number ∈ bridge.waiting, number ∈ late) →
      ({ bridge with queued := queued } : Bridge).deliver = { bridge with queued := queued } :=
    fun hwaiting => deliver_eq hwaiting hprompt
  have hkept : bridge.Still late → bridge.Kept late ({ bridge with queued := queued } : Bridge).deliver := by
    intro hstill
    rw [heq hstill.waiting]
    exact ⟨⟨hstill.waiting, hstill.chain⟩, rfl, rfl, rfl, rfl, rfl⟩
  refine h.serve aside_deliver.1 (fun request _ hasked => ?_) (fun hfree => hfree.kept hkept)
  refine hasked.serve hkept (fun hstill => ?_) (@deliver_waiting { bridge with queued := queued } late request)
    fun before htaken hsilent hchain hlate hanswer => ?_
  · rw [heq hstill.waiting]
    exact Or.inr (Or.inl rfl)
  · rw [heq hlate]
    exact .Running htaken before hsilent hchain hlate hanswer

theorem InStep.finish (h : bridge.InStep late) {kind : Kind} {bytes : Bytes} {unhandled : Bool}
    (hprompt : bridge.Prompt late (bridge.finish kind bytes unhandled)) :
    (bridge.finish kind bytes unhandled).InStep late := by
  have hkept : bridge.Still late → bridge.Kept late (bridge.finish kind bytes unhandled) := by
    intro hstill
    obtain ⟨rest, hsilent, heq⟩ := finish_silent hstill.chain hprompt
    rw [heq]
    exact ⟨⟨hstill.waiting, hsilent⟩, rfl, rfl, rfl, rfl, rfl⟩
  refine h.serve (aside_finish kind bytes unhandled).1 (fun request _ hasked => ?_)
    (fun hfree => hfree.kept hkept)
  refine hasked.serve hkept (fun hstill => ?_) (fun htaken hwaiting hchain hanswer => ?_)
    fun before htaken hsilent hchain hlate hanswer =>
      finish_running htaken hsilent hchain hlate hanswer hprompt
  · obtain ⟨rest, -, heq⟩ := finish_silent hstill.chain hprompt
    rw [heq]
    exact Or.inr (Or.inl rfl)
  · obtain ⟨rest, hsilent, heq⟩ := finish_silent hchain hprompt
    rw [heq]
    exact .Waiting htaken hwaiting hsilent hanswer

theorem InStep.opened (h : bridge.InStep late) (ready : Bool) (state : State) :
    ({ bridge with ready := ready, state := state } : Bridge).InStep late := by
  have hkept : bridge.Still late → bridge.Kept late { bridge with ready := ready, state := state } :=
    fun hstill => ⟨⟨hstill.waiting, hstill.chain⟩, rfl, rfl, rfl, rfl, rfl⟩
  refine h.serve rfl (fun request _ hasked => ?_) (fun hfree => hfree.kept hkept)
  exact hasked.serve hkept (fun _ => Or.inr (Or.inl rfl))
    (fun htaken hwaiting hchain hanswer => .Waiting htaken hwaiting hchain hanswer)
    fun before htaken hsilent hchain hlate hanswer => .Running htaken before hsilent hchain hlate hanswer

theorem InStep.fail (h : bridge.InStep late) {message : Bytes}
    (hspares : bridge.spares (.Fail message) = true)
    (hprompt : bridge.Prompt late (bridge.fail message)) : (bridge.fail message).InStep late := by
  have hkept : bridge.Still late → bridge.Kept late (bridge.fail message) := by
    intro hstill
    obtain ⟨failure, bytes, state, heq, -⟩ := fail_eq hstill.waiting hprompt
    rw [heq]
    exact ⟨⟨hstill.waiting, hstill.chain⟩, rfl, rfl, rfl, rfl, rfl⟩
  refine h.serve (aside_fail message).1 (fun request hphase hasked => ?_) (fun hfree => hfree.kept hkept)
  refine hasked.serve hkept (fun hstill => ?_)
    (fun htaken hwaiting hchain hanswer => fail_waiting htaken hwaiting hchain hanswer message)
    fun before htaken hsilent hchain hlate hanswer => ?_
  · simp only [spares, hphase, Bool.or_eq_true, decide_eq_true_eq] at hspares
    obtain ⟨failure, bytes, state, heq, hbytes⟩ := fail_eq hstill.waiting hprompt
    rw [heq]
    rcases hspares with (hop | hstate) | hanswer
    · exact Or.inl hop
    · exact Or.inr (Or.inl (hbytes.resolve_right hstate))
    · exact Or.inr (Or.inr hanswer)
  · obtain ⟨failure, bytes, state, heq, -⟩ := fail_eq hlate hprompt
    rw [heq]
    exact .Running htaken before hsilent hchain hlate hanswer

-- The SQLite worker stops to wait for the connection.
theorem InStep.idle (h : bridge.InStep late) (hphase : bridge.phase = .Opening) :
    ({ bridge with phase := .Idle } : Bridge).InStep late := by
  have hfree := h.free (by simp [hphase])
  exact inStep_of_free nofun ⟨⟨⟨hfree.waiting, hfree.chain⟩, hfree.answer⟩, hfree.request⟩

theorem InStep.step (h : bridge.InStep late) {event : Event} (hspares : bridge.spares event = true)
    (hprompt : bridge.Prompt late (bridge.step event).1) :
    (bridge.step event).1.InStep (bridge.gaveUp late event) := by
  cases event with
  | Ask op =>
      simp only [Bridge.step]
      cases hphase : bridge.phase with
      | Idle =>
          have hfree := h.free (by simp [hphase])
          exact inStep_of_asked rfl (.Posted rfl ⟨⟨hfree.waiting, hfree.chain⟩, hfree.answer⟩)
      | _ => exact h
  | Poll =>
      simp only [Bridge.step]
      cases hphase : bridge.phase with
      | Asking request =>
          dsimp only
          split_ifs with hanswer hreopen
          · exact h
          all_goals
            obtain ⟨htaken, hanswered⟩ := (h.asking hphase).answered hanswer
            refine inStep_of_free (by simp) ⟨⟨⟨hanswered.waiting, hanswered.chain⟩, rfl⟩, fun _ hmem => ?_⟩
            cases htaken.symm.trans hmem
      | _ => exact h
  | GiveUp =>
      simp only [Bridge.step, gaveUp]
      cases hphase : bridge.phase with
      | Asking request =>
          dsimp only
          split_ifs with hanswer
          · have hfree := (h.asking hphase).lapse (fun _ hmem => List.mem_cons_of_mem _ hmem)
              (@List.mem_cons_self _ request.number late) hanswer
            exact inStep_of_free (by simp) ⟨⟨⟨hfree.waiting, hfree.chain⟩, hfree.answer⟩, hfree.request⟩
          · exact h
      | _ => exact h
  | PollOpen =>
      simp only [Bridge.step]
      split
      · rename_i hphase _
        exact h.idle hphase
      · rename_i hphase _
        exact h.idle hphase
      · exact h
  | GiveUpOpen =>
      simp only [Bridge.step]
      split
      · rename_i hphase
        exact h.idle hphase
      · exact h
  | Take thrown => exact h.take hprompt
  | Finish kind bytes unhandled => exact h.finish hprompt
  | Opened =>
      simp only [Bridge.step]
      split
      · exact h.opened true .Open
      · exact h
  | Frame ping frame =>
      simp only [Bridge.step] at hprompt ⊢
      split_ifs at hprompt ⊢
      · exact h
      · exact h.frame hprompt
  | Fail message => exact (h.opened false bridge.state).fail hspares hprompt

theorem InStep.run (h : bridge.InStep late) {events : List Event} (htimely : bridge.Timely late events) :
    (bridge.run events).InStep (bridge.lapsed late events) := by
  induction events generalizing bridge late with
  | nil => exact h
  | cons event rest ih => exact ih (h.step htimely.1 htimely.2.1) htimely.2.2

theorem start_inStep (server : Bool) : (start server).InStep [] := by
  have hfree : (start server).Free [] := ⟨⟨⟨nofun, fun _ => nofun⟩, rfl⟩, nofun⟩
  cases server <;> exact hfree

-- The answer that the next look of `ask` returns is the one to its request.
def Own (bridge : Bridge) : Prop :=
  ∀ request kind bytes, bridge.phase = .Asking request → (bridge.step .Poll).2 = some (kind, bytes) →
    bridge.last.number = request.number ∧ bridge.last.kind = kind ∧
      (request.op ≠ .Reopen → bridge.last.bytes = bytes)

theorem InStep.own (h : bridge.InStep late) : bridge.Own := by
  intro request kind bytes hphase hpoll
  simp only [Bridge.step, hphase] at hpoll
  split_ifs at hpoll with hanswer
  all_goals
    obtain ⟨-, hanswered⟩ := (h.asking hphase).answered hanswer
    simp only [Option.some.injEq, Prod.mk.injEq] at hpoll
    obtain ⟨rfl, rfl⟩ := hpoll
    exact ⟨hanswered.number, hanswered.kind.symm, fun hop => (hanswered.bytes hop).symm⟩

-- If no answer is put for a request whose call has given up, an answer that `ask` returns is the one
-- that was put for its request, and only a request that gave up is overwritten in the slots.
theorem ask_returns_own_answer {server : Bool} {events : List Event}
    (htimely : (start server).Timely [] events) :
    (∀ request kind bytes, ((start server).run events).phase = .Asking request →
      (((start server).run events).step .Poll).2 = some (kind, bytes) →
      ((start server).run events).last.number = request.number ∧
        ((start server).run events).last.kind = kind ∧
        (request.op ≠ .Reopen → ((start server).run events).last.bytes = bytes)) ∧
      (((start server).run events).phase = .Idle → ∀ request,
        ((start server).run events).request = some request →
        request.number ∈ (start server).lapsed [] events) := by
  have hstep := (start_inStep server).run htimely
  exact ⟨hstep.own, fun hphase => (hstep.free (by simp [hphase])).request⟩

-- Opening the connection, a login frame, a receive that gives up, and a block from the copy.
def exchanged : List Event :=
  [.Opened, .PollOpen, .Ask .Send, .Take none, .Poll, .Ask .Receive, .Take none, .Frame false [7], .Poll,
    .Ask .Receive, .Take none, .GiveUp, .Ask .CopyRead, .Take none, .Finish .Frame [9] false]

theorem ask_returns_own_answer_copy_read :
    (((start true).run exchanged).step .Poll).2 = some (.Frame, [9]) ∧
      ((start true).run exchanged).last.number = 3 ∧ (start true).lapsed [] exchanged = [2] := by
  have hpoll : (((start true).run exchanged).step .Poll).2 = some (.Frame, [9]) := by decide +kernel
  have htimely : (start true).Timely [] exchanged := by decide +kernel
  have hphase : ((start true).run exchanged).phase = .Asking ⟨3, .CopyRead⟩ := by decide +kernel
  exact ⟨hpoll, ((ask_returns_own_answer htimely).1 ⟨3, .CopyRead⟩ .Frame [9] hphase hpoll).1,
    by decide +kernel⟩

-- A read of the copy gives up. Its late answer is taken for the answer to the next request,
-- and the request after that overwrites one that was not taken yet.
theorem late_answer_is_taken :
    let late := (start false).run [.Ask .CopyRead, .Take none, .GiveUp, .Ask .CopyHead,
      .Finish .Frame [1] false]
    late.phase = .Asking ⟨1, .CopyHead⟩ ∧ (late.step .Poll).2 = some (.Frame, [1]) ∧ late.last.number = 0 ∧
      (late.step .Poll).1.phase = .Idle ∧ (late.step .Poll).1.request = some ⟨1, .CopyHead⟩ := by
  decide +kernel

end RemoteVfs.Bridge
