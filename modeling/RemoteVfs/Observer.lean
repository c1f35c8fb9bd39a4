import RemoteVfs.Local.Calls
import RemoteVfs.Base.Program.Rules

namespace RemoteVfs

open Base Base.Prog

theorem Client.isOpen_eq_false {client : Client} (h : (!client.connected || !client.socket) = true) :
    client.isOpen = false := by
  rw [← Bool.not_and] at h
  exact (Bool.not_eq_true' _).mp h

-- What is recorded of the traffic with the server: a new connection, a frame that is handed to the
-- transport, a frame that is received, one that does not decode, a token that could not be got,
-- and a login that the transport is told of.
structure Observer (τ : Type) where
  opened : τ → τ
  sent : Pb.ClientFrame → τ → τ
  received : Pb.ServerFrame → τ → τ
  garbled : τ → τ
  tokenless : τ → τ
  loggedIn : Nat → τ → τ

namespace Observer

variable {ω τ ε α : Type}

-- A call that is not recorded.
def aside (body : Prog ω ε α) : Prog (ω × τ) ε α :=
  Prog.zoom Prod.fst (fun world s => (world, s.2)) body

def question (ask : ω → α × ω) (s : ω × τ) : α × ω × τ := ((ask s.1).1, (ask s.1).2, s.2)

def record (change : τ → τ) : Prog (ω × τ) ε Unit := Prog.modify fun s => (s.1, change s.2)

def store (store : LocalStore ω) : LocalStore (ω × τ) where
  head := aside store.head
  read first count := aside (store.read first count)
  write head blocks := aside (store.write head blocks)
  forget head blocks := aside (store.forget head blocks)
  clear := aside store.clear
  select dbId := aside (store.select dbId)
  flush := aside store.flush

def opening (O : Observer τ) (body : Prog ω String Unit) : Prog (ω × τ) String Unit := do
  aside body
  record O.opened

-- The same world with a record of the traffic.
def env (O : Observer τ) (E : Env ω) : Env (ω × τ) where
  fuel := E.fuel
  native := E.native
  dial := O.opening E.dial
  reopen := O.opening E.reopen
  send frame := do
    record (O.sent frame)
    aside (E.send frame)
  receive := do
    let answer ← aside E.receive
    match answer with
    | .error err =>
      record O.garbled
      return .error err
    | .ok frame =>
      record (O.received frame)
      return .ok frame
  loggedIn interval s := (E.loggedIn interval s.1, O.loggedIn interval s.2)
  reachable := question E.reachable
  token := Prog.handle (aside E.token) fun err => do
    record O.tokenless
    Prog.fail err
  now := question E.now
  pause interval s := (E.pause interval s.1, s.2)
  random := question E.random
  sign := E.sign
  store := store E.store
  spawn := question E.spawn
  progress := question E.progress
  debug := E.debug
  debugBroken := E.debugBroken

-- The record of the traffic.
def heard (link : Link (ω × τ)) : τ := link.world.2

def seen (db : Database (ω × τ)) : τ := db.world.2

section Unseen

variable (O : Observer τ) (E : Env ω)

theorem aside_unseen (body : Prog ω ε α) : Moves (Same Prod.snd) (aside body : Prog (ω × τ) ε α) :=
  fun _ => rfl

theorem storeMoves_unseen : (O.env E).StoreMoves (Same Prod.snd) where
  head := aside_unseen _
  read _ _ := aside_unseen _
  write _ _ := aside_unseen _
  forget _ _ := aside_unseen _
  clear := aside_unseen _
  spawn _ := rfl
  progress _ := rfl

open Database Remote

theorem onLink_unseen {body : Prog (Link (ω × τ)) ε α} (h : Moves (Same heard) body) :
    Moves (Same seen) (onLink body : Prog (Database (ω × τ)) ε α) :=
  fun db => h db.source.link

theorem isConnected_unseen :
    Moves (Same heard) (Client.isConnected (O.env E) : Prog (Link (ω × τ)) ε Bool) := by
  refine Moves.bind (Moves.gets _) fun client => ?_
  cases client.isOpen with
  | false => exact Moves.pure _
  | true =>
      cases client.tokenRenewal with
      | none => exact Moves.pure _
      | some due => exact Moves.bind (fun _ => rfl) fun _ => Moves.pure _

theorem onWorld_unseen {body : Prog (ω × τ) ε α} (h : Moves (Same Prod.snd) body) :
    Moves (Same seen) (onWorld body : Prog (Database (ω × τ)) ε α) :=
  fun db => h db.world

theorem count_unseen (change : Stats → Stats) :
    Moves (Same seen) (Database.count change : Prog (Database (ω × τ)) ε Unit) := fun _ => rfl

theorem setCopy_unseen (copy : LocalCopy) :
    Moves (Same seen) (setCopy copy : Prog (Database (ω × τ)) ε Unit) := fun _ => rfl

theorem now_unseen : Moves (Same seen) (onLink (Client.now (O.env E)) : Prog (Database (ω × τ)) ε Nat) :=
  fun _ => rfl

theorem mapPages_unseen (change : Pages → Pages) :
    Moves (Same seen) (Prog.modify (Held.mapPages change) : Prog (Database (ω × τ)) ε Unit) := fun _ => rfl

theorem mapKept_unseen (loaded : List (Nat × Bytes)) :
    Moves (Same seen) (Prog.modify (Held.mapPages (Pages.keepAll · loaded)) : Prog (Database (ω × τ)) ε Unit) :=
  mapPages_unseen _

theorem onCurrentConnection_unseen :
    Moves (Same seen) (onCurrentConnection (O.env E) : Prog (Database (ω × τ)) ε Bool) := by
  refine Moves.bind (onLink_unseen (isConnected_unseen O E)) fun connected => ?_
  exact Moves.ite (Moves.bind (Moves.gets _) fun _ => Moves.pure _) (Moves.pure _)

theorem copyMoves_unseen : (O.env E).CopyMoves (Same Prod.snd) (Same seen) where
  store := storeMoves_unseen O E
  world := onWorld_unseen
  count := count_unseen
  setCopy := setCopy_unseen

end Unseen

section Traffic

variable (O : Observer τ) (E : Env ω)

theorem post_heard (frame : Pb.ClientFrame) (link : Link (ω × τ)) :
    heard (Client.post (O.env E) frame link).2 = O.sent frame (heard link) := by
  have hsent : heard (Link.outside ((O.env E).send frame) link).2 = O.sent frame (heard link) := rfl
  unfold Client.post Prog.handle
  generalize Link.outside ((O.env E).send frame) link = run at hsent ⊢
  rcases run with ⟨_ | _ | _, after⟩ <;> exact hsent

-- A frame is sent with a new id, or not at all.
theorem send_heard (body : Pb.ClientBody) (link : Link (ω × τ)) :
    match Client.send (O.env E) body link with
    | (.ok id, after) => id ≠ 0 ∧ heard after = O.sent ⟨id, body⟩ (heard link)
    | (_, after) => heard after = heard link ∨ ∃ id, heard after = O.sent ⟨id, body⟩ (heard link) := by
  unfold Client.send
  rw [gets_bind]
  by_cases hdown : (!link.client.connected || !link.client.socket) = true
  · rw [if_pos hdown]
    exact .inl rfl
  rw [if_neg hdown]
  simp only [modify_bind]
  rw [bind_apply]
  have hpost := post_heard O E ⟨link.client.nextId + 1, body⟩
    (link.mapClient fun client => { client with nextId := link.client.nextId + 1 })
  generalize Client.post (O.env E) ⟨link.client.nextId + 1, body⟩ _ = run at hpost ⊢
  rcases run with ⟨_ | _ | _, after⟩
  · exact ⟨Nat.succ_ne_zero _, hpost⟩
  · exact .inr ⟨_, hpost⟩
  · exact .inr ⟨_, hpost⟩

theorem receive_env (s : ω × τ) :
    match (O.env E).receive s with
    | (.ok (.ok frame), after) => after.2 = O.received frame s.2
    | (.ok (.error _), after) => after.2 = O.garbled s.2
    | (_, after) => after.2 = s.2 := by
  simp only [env]
  rw [bind_apply]
  unfold aside Prog.zoom
  generalize E.receive s.1 = run
  rcases run with ⟨(_ | _) | _ | _, world⟩ <;> rfl

-- Without a frame the connection counts as broken.
theorem poll_heard (link : Link (ω × τ)) :
    match Client.poll (O.env E) link with
    | (.ok (.ok frame), after) =>
      heard after = O.received frame (heard link) ∧ after.client = link.client
    | (.ok (.error _), after) => heard after = O.garbled (heard link) ∧ after.client = link.client
    | (.err _, after) => heard after = heard link ∧ after.client = link.client.disconnect
    | (.hang, after) => heard after = heard link ∧ after.client = link.client := by
  have hreceived := receive_env O E link.world
  unfold Client.poll Prog.handle Link.outside Prog.zoom
  generalize (O.env E).receive link.world = run at hreceived ⊢
  rcases run with ⟨(_ | _) | _ | _, world⟩ <;> exact ⟨hreceived, rfl⟩

-- Frames that are sent unprompted are skipped, if they are not recorded. An error means that the
-- connection is down or that a frame did not decode.
theorem receive_heard {t : τ} (hskip : ∀ frame, frame.requestId = 0 → O.received frame t = t) :
    Triple (fun link => heard link = t) (Client.receive (O.env E)) fun o link =>
      match o with
      | .ok frame => heard link = O.received frame t
      | .err _ => heard link = t ∧ link.client.isOpen = false ∨ heard link = O.garbled t
      | .hang => heard link = t := by
  refine Triple.loop (fun _ link => heard link = t) _ (fun _ => ?_) (fun _ _ h => h) _ _
  rintro link rfl
  unfold Client.receiveStep
  rw [gets_bind]
  by_cases hdown : (!link.client.connected || !link.client.socket) = true
  · rw [if_pos hdown]
    exact .inl ⟨rfl, Client.isOpen_eq_false hdown⟩
  rw [if_neg hdown, bind_apply]
  have hpoll := poll_heard O E link
  generalize Client.poll (O.env E) link = run at hpoll ⊢
  rcases run with ⟨(err | frame) | _ | _, after⟩
  · exact .inr hpoll.1
  · dsimp only
    by_cases hzero : frame.requestId = 0
    · rw [if_pos hzero]
      have hskipped : heard after = heard link := hpoll.1.trans (hskip frame hzero)
      unfold Client.unprompted
      cases frame.body with
      | none => exact hskipped
      | some body => cases body <;> exact hskipped
    · rw [if_neg hzero]
      exact hpoll.1
  · refine .inl ⟨hpoll.1, ?_⟩
    rw [hpoll.2]
    rfl
  · exact hpoll.1

theorem token_env (s : ω × τ) :
    match (O.env E).token s with
    | (.err _, after) => after.2 = O.tokenless s.2
    | (_, after) => after.2 = s.2 := by
  have hsame : (aside E.token s : Outcome String String × (ω × τ)).2.2 = s.2 := rfl
  simp only [env]
  unfold Prog.handle
  generalize (aside E.token s : Outcome String String × (ω × τ)) = run at hsame ⊢
  rcases run with ⟨_ | _ | _, after⟩
  · exact hsame
  · exact congrArg O.tokenless hsame
  · exact hsame

theorem token_heard (link : Link (ω × τ)) :
    match Link.outside (O.env E).token link with
    | (.err _, after) => heard after = O.tokenless (heard link) ∧ after.client = link.client
    | (_, after) => heard after = heard link ∧ after.client = link.client := by
  have htoken := token_env O E link.world
  unfold Link.outside Prog.zoom
  generalize (O.env E).token link.world = run at htoken ⊢
  rcases run with ⟨_ | _ | _, world⟩ <;> exact ⟨htoken, rfl⟩

theorem opening_env (body : Prog ω String Unit) (s : ω × τ) :
    match O.opening body s with
    | (.ok _, after) => after.2 = O.opened s.2
    | (_, after) => after.2 = s.2 := by
  unfold opening
  rw [bind_apply]
  unfold aside Prog.zoom
  generalize body s.1 = run
  rcases run with ⟨_ | _ | _, world⟩ <;> rfl

theorem openSocket_heard (link : Link (ω × τ)) :
    match Client.openSocket (O.env E) link with
    | (.ok _, after) =>
      heard after = O.opened (heard link) ∧
        after.client = { link.client with socket := true, connected := true }
    | (_, after) => heard after = heard link ∧ after.client = link.client := by
  have hopening : match (if link.client.socket then (O.env E).reopen else (O.env E).dial) link.world with
      | (.ok _, after) => after.2 = O.opened link.world.2
      | (_, after) => after.2 = link.world.2 := by
    cases link.client.socket with
    | true => exact opening_env O E.reopen link.world
    | false => exact opening_env O E.dial link.world
  unfold Client.openSocket
  rw [gets_bind, bind_apply]
  unfold Prog.handle Link.outside Prog.zoom
  generalize (if link.client.socket then (O.env E).reopen else (O.env E).dial) link.world = run at hopening ⊢
  rcases run with ⟨_ | _ | _, world⟩ <;> exact ⟨hopening, rfl⟩

end Traffic

end Observer

end RemoteVfs
