import RemoteVfs.Observer

namespace RemoteVfs

open Base Base.Prog Observer

namespace Conduct

-- A connection as the server knows it: whether the login on it is complete, which databases were
-- opened on it, and whether the login was refused. It is refused by any other answer to `Hello`
-- and `Proof` than the one that is due, by a frame that does not decode before it is complete,
-- and by the lack of an access token.
structure Connection where
  loggedIn : Bool
  opened : List String
  refused : Bool
  deriving DecidableEq, Repr

namespace Connection

def new : Connection := ⟨false, [], false⟩

-- Whether the frame may be sent on the connection as it is.
def allows (connection : Connection) : Pb.ClientBody → Bool
  | .Hello _ | .Proof _ => true
  | .Fetch fetch => connection.loggedIn && decide (fetch.dbId ∈ connection.opened)
  | .Changed changed => connection.loggedIn && decide (changed.dbId ∈ connection.opened)
  | .Commit part => connection.loggedIn && decide (part.dbId ∈ connection.opened)
  | .CloseDb close => connection.loggedIn && decide (close.dbId ∈ connection.opened)
  | _ => connection.loggedIn

-- What the answer to a request completes.
def answered (connection : Connection) : Pb.ClientBody → Option Pb.ServerBody → Connection
  | .Hello _, some (.Challenge _) => connection
  | .Proof _, some (.HelloOk _) => { connection with loggedIn := true }
  | .Hello _, _ | .Proof _, _ => { connection with refused := true }
  | .Open request, some (.Opened _) => { connection with opened := request.dbId :: connection.opened }
  | _, _ => connection

def interrupted (connection : Connection) : Connection :=
  { connection with refused := connection.refused || !connection.loggedIn }

-- What the traffic on a connection does not undo.
structure Grows (before after : Connection) : Prop where
  loggedIn : before.loggedIn = true → after.loggedIn = true
  opened : ∀ dbId ∈ before.opened, dbId ∈ after.opened
  refused : before.refused = true → after.refused = true

variable {a b c : Connection}

theorem Grows.refl (a : Connection) : Grows a a := ⟨fun h => h, fun _ h => h, fun h => h⟩

theorem Grows.trans (hab : Grows a b) (hbc : Grows b c) : Grows a c where
  loggedIn h := hbc.loggedIn (hab.loggedIn h)
  opened dbId h := hbc.opened dbId (hab.opened dbId h)
  refused h := hbc.refused (hab.refused h)

theorem grows_answered (a : Connection) (request : Pb.ClientBody) (answer : Option Pb.ServerBody) :
    Grows a (a.answered request answer) := by
  unfold answered
  split
  · exact Grows.refl _
  · exact ⟨fun _ => rfl, fun _ h => h, fun h => h⟩
  · exact ⟨fun h => h, fun _ h => h, fun _ => rfl⟩
  · exact ⟨fun h => h, fun _ h => h, fun _ => rfl⟩
  · exact ⟨fun h => h, fun _ h => List.mem_cons_of_mem _ h, fun h => h⟩
  · exact Grows.refl _

theorem grows_interrupted (a : Connection) : Grows a a.interrupted := by
  refine ⟨fun h => h, fun _ h => h, fun h => ?_⟩
  rw [interrupted, h]
  rfl

end Connection

end Conduct

-- The record of a run: the current connection, the last request on it, and all frames that were
-- sent, each with its connection as it was then.
structure Conduct where
  connection : Conduct.Connection
  asked : Option Pb.ClientFrame
  frames : List (Conduct.Connection × Pb.ClientBody)
  deriving DecidableEq, Repr

namespace Conduct

def new : Conduct := ⟨.new, none, []⟩

def sent (frame : Pb.ClientFrame) (conduct : Conduct) : Conduct :=
  { conduct with
    asked := some frame
    frames := conduct.frames ++ [(conduct.connection, frame.body)] }

def received (frame : Pb.ServerFrame) (conduct : Conduct) : Conduct :=
  match conduct.asked with
  | some request =>
    if frame.requestId = request.requestId then
      { conduct with connection := conduct.connection.answered request.body frame.body }
    else conduct
  | none => conduct

def interrupted (conduct : Conduct) : Conduct :=
  { conduct with connection := conduct.connection.interrupted }

-- The connection worker of a browser forgets its ping interval with every new connection, and
-- pings on its own from the login on. Its ping stands in the record there, without its time.
def observer : Observer Conduct where
  opened conduct := { conduct with connection := .new, asked := none }
  sent := sent
  received := received
  garbled := interrupted
  tokenless := interrupted
  loggedIn interval conduct :=
    if interval = 0 then conduct
    else { conduct with frames := conduct.frames ++ [(conduct.connection, .Ping ⟨0⟩)] }

-- Every frame was allowed where it was sent, unless the login on that connection was refused.
def Orderly (conduct : Conduct) : Prop :=
  ∀ entry ∈ conduct.frames, entry.1.refused = false → entry.1.allows entry.2 = true

theorem received_grows (frame : Pb.ServerFrame) (conduct : Conduct) :
    conduct.connection.Grows (conduct.received frame).connection ∧
      (conduct.received frame).frames = conduct.frames := by
  unfold received
  split
  · split_ifs
    · exact ⟨Connection.grows_answered _ _ _, rfl⟩
    · exact ⟨Connection.Grows.refl _, rfl⟩
  · exact ⟨Connection.Grows.refl _, rfl⟩

variable {ω ε α β : Type}

-- What is sent on an open connection without opening another one: only frames of the kind `B`.
structure Talks (B : Pb.ClientBody → Prop) (before after : Link (ω × Conduct)) : Prop where
  logins : after.client.logins = before.client.logins
  isOpen : after.client.isOpen = true → before.client.isOpen = true
  grows : (heard before).connection.Grows (heard after).connection
  frames : ∃ sent, (heard after).frames = (heard before).frames ++ sent ∧
    ∀ entry ∈ sent, B entry.2 ∧ before.client.isOpen = true ∧ (heard before).connection.Grows entry.1

namespace Talks

variable {B : Pb.ClientBody → Prop} {a b c : Link (ω × Conduct)}

theorem of_received (hlogins : b.client.logins = a.client.logins)
    (hopen : b.client.isOpen = true → a.client.isOpen = true)
    (hgrows : (heard a).connection.Grows (heard b).connection)
    (hframes : (heard b).frames = (heard a).frames) : Talks B a b :=
  ⟨hlogins, hopen, hgrows, [], by rw [hframes, List.append_nil], by simp⟩

theorem of_same (hlogins : b.client.logins = a.client.logins)
    (hopen : b.client.isOpen = true → a.client.isOpen = true) (hheard : heard b = heard a) : Talks B a b := by
  refine of_received hlogins hopen ?_ (by rw [hheard])
  rw [hheard]
  exact Connection.Grows.refl _

theorem trans (hab : Talks B a b) (hbc : Talks B b c) : Talks B a c := by
  obtain ⟨sent, hsent, hall⟩ := hab.frames
  obtain ⟨sent', hsent', hall'⟩ := hbc.frames
  refine ⟨hbc.logins.trans hab.logins, fun h => hab.isOpen (hbc.isOpen h), hab.grows.trans hbc.grows,
    sent ++ sent', by rw [hsent', hsent, List.append_assoc], fun entry hentry => ?_⟩
  rcases List.mem_append.mp hentry with hentry | hentry
  · exact hall entry hentry
  · obtain ⟨hB, hopen, hgrows⟩ := hall' entry hentry
    exact ⟨hB, hab.isOpen hopen, hab.grows.trans hgrows⟩

instance : IsPreorder (Link (ω × Conduct)) (Talks B) where
  refl _ := of_same rfl (fun h => h) rfl
  trans _ _ _ := trans

end Talks

section Traffic

variable {B : Pb.ClientBody → Prop} (E : Env ω)

theorem outside_talks {body : Prog (ω × Conduct) ε α} (h : Moves (Same Prod.snd) body) :
    Moves (Talks B) (Link.outside body) := fun link => Talks.of_same rfl (fun h => h) (h link.world)

theorem now_talks : Moves (Talks B) (Client.now (observer.env E) : Prog (Link (ω × Conduct)) ε Nat) :=
  outside_talks fun _ => rfl

theorem isConnected_talks :
    Moves (Talks B) (Client.isConnected (observer.env E) : Prog (Link (ω × Conduct)) ε Bool) := by
  refine Moves.bind (Moves.gets _) fun client => ?_
  cases client.isOpen with
  | false => exact Moves.pure _
  | true =>
      cases client.tokenRenewal with
      | none => exact Moves.pure _
      | some due => exact Moves.bind (now_talks E) fun _ => Moves.pure _

theorem disconnect_talks {link : Link (ω × Conduct)} : Talks B link (link.mapClient Client.disconnect) :=
  Talks.of_same rfl (fun h => by cases h) rfl

theorem post_talks {frame : Pb.ClientFrame} (h : B frame.body) {link : Link (ω × Conduct)}
    (hopen : link.client.isOpen = true) :
    Talks B link (Client.post (observer.env E) frame link).2 := by
  have hsent : Talks B link (Link.outside ((observer.env E).send frame) link).2 := by
    refine ⟨rfl, fun h => h, Connection.Grows.refl _, [((heard link).connection, frame.body)], rfl, ?_⟩
    intro entry hentry
    rw [List.mem_singleton.mp hentry]
    exact ⟨h, hopen, Connection.Grows.refl _⟩
  unfold Client.post Prog.handle
  generalize Link.outside ((observer.env E).send frame) link = run at hsent ⊢
  rcases run with ⟨_ | _ | _, after⟩
  · exact hsent
  · exact hsent.trans disconnect_talks
  · exact hsent

theorem send_talks {body : Pb.ClientBody} (h : B body) :
    Moves (Talks B) (Client.send (observer.env E) body) := by
  intro link
  unfold Client.send
  rw [gets_bind]
  by_cases hdown : (!link.client.connected || !link.client.socket) = true
  · rw [if_pos hdown]
    exact Std.Refl.refl link
  · rw [if_neg hdown, modify_bind]
    have hopen : link.client.isOpen = true := by
      rw [← Bool.not_and, Bool.not_eq_true'] at hdown
      exact Bool.of_not_eq_false hdown
    set frame : Pb.ClientFrame := ⟨link.client.nextId + 1, body⟩
    set numbered := link.mapClient fun client => { client with nextId := link.client.nextId + 1 }
    have hnumbered : Talks B link numbered := Talks.of_same rfl (fun h => h) rfl
    have hpost : Talks B numbered (Client.post (observer.env E) frame numbered).2 := post_talks E h hopen
    refine hnumbered.trans ?_
    rw [bind_apply]
    generalize Client.post (observer.env E) frame numbered = run at hpost ⊢
    rcases run with ⟨_ | _ | _, after⟩
    · refine hpost.trans (Moves.bind (now_talks E) (fun time => Moves.bind ?_ fun _ => Moves.pure _) after)
      exact Moves.modify fun link => Talks.of_same rfl (fun h => h) rfl
    · exact hpost
    · exact hpost

theorem poll_talks : Moves (Talks B) (Client.poll (observer.env E)) := by
  intro link
  have hpoll := poll_heard observer E link
  generalize Client.poll (observer.env E) link = run at hpoll ⊢
  rcases run with ⟨(err | frame) | _ | _, after⟩
  · refine Talks.of_received (by rw [hpoll.2]) (by rw [hpoll.2]; exact fun h => h) ?_ (by rw [hpoll.1]; rfl)
    rw [hpoll.1]
    exact Connection.grows_interrupted _
  · obtain ⟨hgrows, hframes⟩ := received_grows frame (heard link)
    refine Talks.of_received (by rw [hpoll.2]) (by rw [hpoll.2]; exact fun h => h) ?_ ?_
    · rw [hpoll.1]
      exact hgrows
    · rw [hpoll.1]
      exact hframes
  · refine Talks.of_same (by rw [hpoll.2]; rfl) ?_ hpoll.1
    rw [hpoll.2]
    exact fun h => by cases h
  · exact Talks.of_same (by rw [hpoll.2]) (by rw [hpoll.2]; exact fun h => h) hpoll.1

theorem noteRevoked_talks (revoked : Pb.LeaseRevoked) :
    Moves (Talks B) (Prog.modify (Link.mapClient (Client.noteRevoked · revoked)) :
      Prog (Link (ω × Conduct)) ε Unit) := by
  intro link
  refine Talks.of_same ?_ ?_ rfl
  · show (link.client.noteRevoked revoked).logins = _
    unfold Client.noteRevoked
    dsimp only
    split
    · rfl
    · rfl
  · show (link.client.noteRevoked revoked).isOpen = true → _
    unfold Client.noteRevoked Client.isOpen
    dsimp only
    split
    · exact fun h => h
    · exact fun h => h

theorem receive_talks : Moves (Talks B) (Client.receive (observer.env E)) := by
  refine Moves.loop (fun _ => Moves.bind (Moves.gets _) fun client => Moves.ite (Moves.fail _) ?_) _ _
  refine Moves.bind (poll_talks E) ?_
  rintro (err | frame)
  · exact Moves.fail _
  · refine Moves.ite (Moves.bind ?_ fun _ => Moves.pure _) (Moves.pure _)
    unfold Client.unprompted
    split
    · exact noteRevoked_talks _
    · exact Moves.pure _

theorem call_talks {body : Pb.ClientBody} (h : B body) :
    Moves (Talks B) (Client.call (observer.env E) body) := by
  refine Moves.bind (send_talks E h) fun id => Moves.loop (fun _ => ?_) _ _
  refine Moves.bind (receive_talks E) fun frame => Moves.ite (Moves.pure _) ?_
  split
  · exact Moves.fail _
  · exact Moves.pure _
  · exact Moves.fail _

theorem expect_talks {body : Pb.ClientBody} (h : B body) (kind : String) (pick : Pb.ServerBody → Option α) :
    Moves (Talks B) (Client.expect (observer.env E) body kind pick) := by
  refine Moves.bind (call_talks E h) fun answer => ?_
  cases pick answer with
  | some value => exact Moves.pure _
  | none => exact Moves.fail _

theorem fetchFrames_talks {fetch : Pb.Fetch} (h : B (.Fetch fetch)) (expected blockSize : Nat) :
    Moves (Talks B) (Client.fetchFrames (observer.env E) fetch expected blockSize) := by
  refine Moves.bind (send_talks E h) fun id => Moves.loop (fun blocks => ?_) _ _
  refine Moves.bind (receive_talks E) fun frame => Moves.ite (Moves.pure _) ?_
  split
  · split
    · exact Moves.fail _
    · exact Moves.ite (Moves.ite (Moves.fail _) (Moves.pure _)) (Moves.pure _)
  · exact Moves.fail _
  · exact Moves.fail _

theorem note_talks (ranges : List (Nat × Nat)) :
    Moves (Talks B) (Client.note ranges : Prog (Link (ω × Conduct)) ClientError Unit) :=
  fun _ => Talks.of_same rfl (fun h => h) rfl

theorem fetch_talks {fetch : Pb.Fetch} (h : B (.Fetch fetch)) (blockSize : Nat) :
    Moves (Talks B) (Client.fetch (observer.env E) fetch blockSize) := by
  refine Moves.bind (note_talks _) fun _ => ?_
  exact Moves.bind (fetchFrames_talks E h _ _) fun _ => Moves.pure _

theorem fetchRanges_talks {dbId : String} (h : ∀ fetch : Pb.Fetch, fetch.dbId = dbId → B (.Fetch fetch))
    (version : Nat) (ranges : List (Nat × Nat)) (blockSize : Nat) :
    Moves (Talks B) (Client.fetchRanges (observer.env E) dbId version ranges blockSize) :=
  Moves.bind (note_talks _) fun _ => fetchFrames_talks E (h _ rfl) _ _

theorem sendParts_talks {parts : List Pb.Commit} (h : ∀ part ∈ parts, B (.Commit part)) :
    Moves (Talks B) (Client.sendParts (observer.env E) parts) := by
  induction parts with
  | nil => exact Moves.pure _
  | cons part rest ih =>
      refine Moves.bind (send_talks E (h part (List.mem_cons_self ..))) fun id => ?_
      exact Moves.bind (ih fun part hpart => h part (List.mem_cons_of_mem _ hpart)) fun _ => Moves.pure _

theorem commit_talks {parts : List Pb.Commit} (h : ∀ part ∈ parts, B (.Commit part)) :
    Moves (Talks B) (Client.commit (observer.env E) parts) := by
  refine Moves.bind (sendParts_talks E h) fun ids => ?_
  cases ids.getLast? with
  | none => exact Moves.fail _
  | some last =>
      refine Moves.loop (fun refusal => ?_) _ _
      refine Moves.bind (receive_talks E) fun frame => Moves.ite (Moves.pure _) ?_
      split
      · exact Moves.ite (Moves.fail _) (Moves.pure _)
      · refine Moves.ite ?_ (Moves.fail _)
        cases refusal with
        | some e => exact Moves.fail _
        | none => exact Moves.pure _
      · exact Moves.fail _

end Traffic

end Conduct

end RemoteVfs
