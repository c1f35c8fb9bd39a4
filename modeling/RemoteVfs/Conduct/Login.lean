import RemoteVfs.Conduct

namespace RemoteVfs.Conduct

open Base Base.Prog Observer

variable {ω ε α : Type} {B : Pb.ClientBody → Prop} {file : Option (String × Nat)} {dbId : String}
  {a b : Link (ω × Conduct)}

def Sound (link : Link (ω × Conduct)) : Prop := (heard link).Orderly

-- The database was opened on the connection, if there is one on which the login was not refused.
def Has (dbId : String) (link : Link (ω × Conduct)) : Prop :=
  link.client.isOpen = true → (heard link).connection.refused = true ∨ dbId ∈ (heard link).connection.opened

-- What holds between the operations of a VFS. `file` is the open database, with the number of
-- the login that it was opened after.
structure Ready (file : Option (String × Nat)) (link : Link (ω × Conduct)) : Prop where
  sound : Sound link
  login : link.client.isOpen = true →
    (heard link).connection.refused = true ∨ (heard link).connection.loggedIn = true
  file : ∀ dbId login, file = some (dbId, login) → login ≤ link.client.logins ∧
    (login = link.client.logins → Has dbId link)

theorem Has.talks (h : Has dbId a) (htalks : Talks B a b) : Has dbId b := by
  intro hopen
  rcases h (htalks.isOpen hopen) with hrefused | hmem
  · exact .inl (htalks.grows.refused hrefused)
  · exact .inr (htalks.grows.opened dbId hmem)

theorem Sound.talks (h : Sound a) (htalks : Talks B a b)
    (hB : ∀ body, B body → a.client.isOpen = true → ∀ connection,
      (heard a).connection.Grows connection → connection.refused = false →
      connection.allows body = true) : Sound b := by
  obtain ⟨sent, hsent, hall⟩ := htalks.frames
  intro entry hentry hrefused
  rw [hsent] at hentry
  rcases List.mem_append.mp hentry with hentry | hentry
  · exact h entry hentry hrefused
  · obtain ⟨hbody, hopen, hgrows⟩ := hall entry hentry
    exact hB entry.2 hbody hopen entry.1 hgrows hrefused

-- The frames that only need a login.
def Plain (body : Pb.ClientBody) : Prop :=
  ∀ connection : Connection, connection.loggedIn = true → connection.allows body = true

-- The frames that are allowed on a connection on which the database was opened.
def About (dbId : String) (body : Pb.ClientBody) : Prop :=
  ∀ connection : Connection, connection.loggedIn = true → dbId ∈ connection.opened →
    connection.allows body = true

theorem Ready.talks (h : Ready file a) (htalks : Talks B a b) (hsound : Sound b) : Ready file b where
  sound := hsound
  login hopen := by
    rcases h.login (htalks.isOpen hopen) with hrefused | hlogged
    · exact .inl (htalks.grows.refused hrefused)
    · exact .inr (htalks.grows.loggedIn hlogged)
  file dbId login hfile := by
    rw [htalks.logins]
    obtain ⟨hle, hhas⟩ := h.file dbId login hfile
    exact ⟨hle, fun heq => (hhas heq).talks htalks⟩

theorem Ready.plain (h : Ready file a) (htalks : Talks Plain a b) : Ready file b := by
  refine h.talks htalks (h.sound.talks htalks fun body hbody hopen connection hgrows hrefused => ?_)
  rcases h.login hopen with hbad | hlogged
  · rw [hgrows.refused hbad] at hrefused
    cases hrefused
  · exact hbody connection (hgrows.loggedIn hlogged)

theorem Ready.about (h : Ready file a) (hhas : Has dbId a) (htalks : Talks (About dbId) a b) :
    Ready file b := by
  refine h.talks htalks (h.sound.talks htalks fun body hbody hopen connection hgrows hrefused => ?_)
  rcases h.login hopen with hbad | hlogged
  · rw [hgrows.refused hbad] at hrefused
    cases hrefused
  rcases hhas hopen with hbad | hmem
  · rw [hgrows.refused hbad] at hrefused
    cases hrefused
  · exact hbody connection (hgrows.loggedIn hlogged) (hgrows.opened dbId hmem)

theorem plain_open (request : Pb.Open) : Plain (.Open request) := fun _ h => h

theorem about_fetch (fetch : Pb.Fetch) : About fetch.dbId (.Fetch fetch) :=
  fun _ hlogged hmem => by simp [Connection.allows, hlogged, hmem]

theorem about_changed (changed : Pb.Changed) : About changed.dbId (.Changed changed) :=
  fun _ hlogged hmem => by simp [Connection.allows, hlogged, hmem]

theorem about_commit (part : Pb.Commit) : About part.dbId (.Commit part) :=
  fun _ hlogged hmem => by simp [Connection.allows, hlogged, hmem]

theorem about_closeDb (close : Pb.CloseDb) : About close.dbId (.CloseDb close) :=
  fun _ hlogged hmem => by simp [Connection.allows, hlogged, hmem]

section Answers

variable (E : Env ω)

-- How a request ends without an answer that its caller gets to see: the connection is down, a
-- frame did not decode, or the answer is an error or empty.
def Ended (connection : Connection) (body : Pb.ClientBody) (link : Link (ω × Conduct)) : Prop :=
  link.client.isOpen = false ∨ (heard link).connection = connection.interrupted ∨
    ∃ answer, (∀ value, answer = some value → ∃ e, value = .Error e) ∧
      (heard link).connection = connection.answered body answer

theorem received_other {conduct : Conduct} {id : Nat} {body : Pb.ClientBody}
    (hasked : conduct.asked = some ⟨id, body⟩) {frame : Pb.ServerFrame} (hid : frame.requestId ≠ id) :
    conduct.received frame = conduct := by
  rw [received, hasked]
  exact if_neg hid

theorem received_answer {conduct : Conduct} {id : Nat} {body : Pb.ClientBody}
    (hasked : conduct.asked = some ⟨id, body⟩) {frame : Pb.ServerFrame} (hid : frame.requestId = id) :
    (conduct.received frame).connection = conduct.connection.answered body frame.body := by
  simp only [received, hasked, hid, if_true]

theorem callStep_heard {conduct : Conduct} {id : Nat} {body : Pb.ClientBody} (hid : id ≠ 0)
    (hasked : conduct.asked = some ⟨id, body⟩) :
    Triple (fun link => heard link = conduct) (Client.callStep (observer.env E) id ())
      (Settles (fun _ => True) (Ended conduct.connection body)
        (orDone (fun _ link => heard link = conduct) fun answer link =>
          (heard link).connection = conduct.connection.answered body (some answer))) := by
  intro link hlink
  have hskip : ∀ frame : Pb.ServerFrame, frame.requestId = 0 →
      observer.received frame conduct = conduct := by
    intro frame hframe
    refine received_other hasked ?_
    rw [hframe]
    exact hid.symm
  have hreceive := receive_heard observer E hskip link hlink
  unfold Client.callStep
  rw [bind_apply]
  generalize Client.receive (observer.env E) link = run at hreceive ⊢
  rcases run with ⟨frame | reason | _, after⟩
  · change heard after = conduct.received frame at hreceive
    dsimp only
    by_cases hframe : frame.requestId = id
    · have hanswer := received_answer hasked hframe
      rw [← hreceive] at hanswer
      rw [if_neg (not_not.mpr hframe)]
      cases hbody : frame.body with
      | none =>
          rw [hbody] at hanswer
          have hnone : ∀ value, (none : Option Pb.ServerBody) = some value → ∃ e, value = .Error e :=
            fun value h => nomatch h
          exact .inr (.inr ⟨none, hnone, hanswer⟩)
      | some answer =>
          rw [hbody] at hanswer
          cases answer with
          | Error e =>
              refine .inr (.inr ⟨_, fun value h => ?_, hanswer⟩)
              cases h
              exact ⟨e, rfl⟩
          | _ => exact hanswer
    · rw [received_other hasked hframe] at hreceive
      rw [if_pos hframe]
      exact hreceive
  · rcases hreceive with hdown | hgarbled
    · exact .inl hdown.2
    · refine .inr (.inl ?_)
      rw [hgarbled]
      rfl
  · trivial

-- A request that cannot be sent leaves the connection down.
theorem send_down (body : Pb.ClientBody) :
    Fails (fun _ link => link.client.isOpen = false) (Client.send (observer.env E) body) := by
  intro link err after hrun
  unfold Client.send at hrun
  rw [gets_bind] at hrun
  by_cases hdown : (!link.client.connected || !link.client.socket) = true
  · rw [if_pos hdown] at hrun
    cases hrun
    exact Client.isOpen_eq_false hdown
  · rw [if_neg hdown] at hrun
    refine (?_ : Fails (fun _ link => link.client.isOpen = false) _) _ _ _ hrun
    refine Fails.bind (Fails.modify _) fun _ => Fails.bind ?_ fun _ => ?_
    · refine Fails.handle fun err link reason after hfail => ?_
      cases hfail
      rfl
    · refine Fails.bind (Fails.of_raises fun _ _ hnow => ?_) fun time => ?_
      · cases hnow
      · exact Fails.bind (Fails.modify _) fun _ => Fails.pure _

theorem call_heard (connection : Connection) (body : Pb.ClientBody) :
    Triple (fun link => (heard link).connection = connection) (Client.call (observer.env E) body)
      (Settles (fun _ => True) (Ended connection body) fun answer link =>
        (heard link).connection = connection.answered body (some answer)) := by
  intro link hlink
  have hsend := send_heard observer E body link
  have hdown := send_down E body link
  unfold Client.call
  rw [bind_apply]
  generalize Client.send (observer.env E) body link = run at hsend hdown ⊢
  rcases run with ⟨id | reason | _, after⟩
  · obtain ⟨hid, hsent⟩ := hsend
    have hasked : (heard after).asked = some ⟨id, body⟩ := by rw [hsent]; rfl
    have hconnection : (heard after).connection = connection := by
      rw [hsent]
      exact hlink
    have hcall := Settles.loop (fun _ link => heard link = heard after)
      (fun _ => callStep_heard E hid hasked) (fun _ _ _ => trivial) E.fuel () after rfl
    rw [hconnection] at hcall
    exact hcall
  · exact .inl (hdown reason after rfl)
  · trivial

end Answers

section Login

variable (E : Env ω) (n : Nat)

-- The stages of a login that started after `n` others: under way, failed, accepted and complete.
structure Unproven (n : Nat) (link : Link (ω × Conduct)) : Prop where
  sound : Sound link
  logins : link.client.logins = n
  login : (heard link).connection.loggedIn = false

structure Failed (n : Nat) (link : Link (ω × Conduct)) : Prop where
  sound : Sound link
  logins : link.client.logins = n
  login : link.client.isOpen = true → (heard link).connection.refused = true

structure Proven (n : Nat) (link : Link (ω × Conduct)) : Prop where
  sound : Sound link
  logins : link.client.logins = n
  login : (heard link).connection.loggedIn = true

structure Done (n : Nat) (link : Link (ω × Conduct)) : Prop where
  sound : Sound link
  logins : link.client.logins = n + 1
  login : (heard link).connection.loggedIn = true

-- One of the two requests of the login was answered.
structure Answered (n : Nat) (body : Pb.ClientBody) (answer : Pb.ServerBody)
    (link : Link (ω × Conduct)) : Prop where
  sound : Sound link
  logins : link.client.logins = n
  login : ∃ connection : Connection, connection.loggedIn = false ∧
    (heard link).connection = connection.answered body (some answer)

variable {E n}

-- What the traffic of a login leaves as it was.
theorem Unproven.talks (h : Unproven n a) (htalks : Talks (fun body => ∀ connection : Connection,
    connection.allows body = true) a b) : Sound b ∧ b.client.logins = n :=
  ⟨h.sound.talks htalks fun _ hbody _ connection _ _ => hbody connection,
    htalks.logins.trans h.logins⟩

-- One of the two requests of a login. Without an answer that is due it is refused.
theorem call_unproven {body : Pb.ClientBody}
    (hallows : ∀ connection : Connection, connection.allows body = true)
    (hrefused : ∀ connection : Connection, (connection.answered body none).refused = true ∧
      ∀ e, (connection.answered body (some (.Error e))).refused = true) :
    Triple (Unproven n) (Client.call (observer.env E) body)
      (Settles Sound (Failed n) (Answered n body)) := by
  intro link hlink
  have hcall := call_heard E _ body link rfl
  have htalks := hlink.talks (call_talks E hallows link)
  generalize Client.call (observer.env E) body link = run at hcall htalks ⊢
  rcases run with ⟨answer | reason | _, after⟩
  · exact ⟨htalks.1, htalks.2, _, hlink.login, hcall⟩
  · refine ⟨htalks.1, htalks.2, fun hopen => ?_⟩
    rcases hcall with hdown | hgarbled | ⟨answer, herror, hanswer⟩
    · rw [hdown] at hopen
      cases hopen
    · rw [hgarbled, Connection.interrupted, hlink.login]
      exact Bool.or_true _
    · rw [hanswer]
      cases answer with
      | none => exact (hrefused _).1
      | some value =>
          obtain ⟨e, rfl⟩ := herror value rfl
          exact (hrefused _).2 e
  · exact htalks.1

theorem Answered.failed {body : Pb.ClientBody} {answer : Pb.ServerBody}
    (hrefused : ∀ connection : Connection, (connection.answered body (some answer)).refused = true)
    (h : Answered n body answer a) : Failed n a := by
  obtain ⟨connection, -, hanswer⟩ := h.login
  refine ⟨h.sound, h.logins, fun _ => ?_⟩
  rw [hanswer]
  exact hrefused connection

theorem Answered.unproven {hello : Pb.Hello} {challenge : Pb.Challenge}
    (h : Answered n (.Hello hello) (.Challenge challenge) a) : Unproven n a := by
  obtain ⟨connection, hlogged, hanswer⟩ := h.login
  refine ⟨h.sound, h.logins, ?_⟩
  rw [hanswer]
  exact hlogged

theorem Answered.proven {proof : Pb.Proof} {ok : Pb.HelloOk}
    (h : Answered n (.Proof proof) (.HelloOk ok) a) : Proven n a := by
  obtain ⟨connection, -, hanswer⟩ := h.login
  refine ⟨h.sound, h.logins, ?_⟩
  rw [hanswer]
  rfl

theorem Proven.limited (h : Proven n a) (limits : Limits) (renewal : Option Nat) :
    Proven n (a.mapClient fun client => { client with limits := limits, tokenRenewal := renewal }) :=
  ⟨h.sound, h.logins, h.login⟩

variable (E) in
-- The worker of a browser may ping from here on.
theorem Proven.told (h : Proven n a) (interval : Nat) :
    Proven n { a with world := (observer.env E).loggedIn interval a.world } := by
  by_cases hzero : interval = 0
  · have hsame : observer.loggedIn interval (heard a) = heard a := if_pos hzero
    refine ⟨?_, h.logins, ?_⟩
    · show (observer.loggedIn interval (heard a)).Orderly
      rw [hsame]
      exact h.sound
    · show (observer.loggedIn interval (heard a)).connection.loggedIn = true
      rw [hsame]
      exact h.login
  · have hping : observer.loggedIn interval (heard a) =
        { heard a with frames := (heard a).frames ++ [((heard a).connection, .Ping ⟨0⟩)] } := if_neg hzero
    refine ⟨?_, h.logins, ?_⟩
    · show (observer.loggedIn interval (heard a)).Orderly
      rw [hping]
      intro entry hentry hrefused
      rcases List.mem_append.mp hentry with hentry | hentry
      · exact h.sound entry hentry hrefused
      · rw [List.mem_singleton.mp hentry]
        exact h.login
    · show (observer.loggedIn interval (heard a)).connection.loggedIn = true
      rw [hping]
      exact h.login

theorem Proven.done (h : Proven n a) :
    Done n (a.mapClient fun client => { client with logins := client.logins + 1 }) :=
  ⟨h.sound, congrArg (· + 1) h.logins, h.login⟩

-- What `sayHello` does with a `HelloOk`.
theorem loggedIn_done (ok : Pb.HelloOk) :
    Triple (Proven n) (Client.loggedIn (observer.env E) ok)
      (Settles Sound (Failed n) fun _ => Done n) := by
  have hrenewal : Triple (Proven n) (Client.renewalTime (observer.env E) (ok.accessTokenTtlMs * 1000000))
      (Settles Sound (Failed n) fun _ => Proven n) :=
    Triple.ite (fun _ => Triple.pure fun _ h => h) fun _ _ h => ⟨h.sound, h.logins, h.login⟩
  refine Settles.bind hrenewal fun renewal link hlink => ?_
  rw [modify_bind, gets_bind]
  split_ifs
  · exact ((hlink.limited _ _).told E _).done
  · exact (hlink.limited _ _).done

theorem accessToken_unproven (config : ClientConfig) :
    Triple (Unproven n) (Client.accessToken (observer.env E) config)
      (Settles Sound (Failed n) fun _ => Unproven n) := by
  unfold Client.accessToken
  refine Triple.ite (fun _ => Settles.handle (fun link hlink => ?_) fun _ => Triple.fail fun _ h => h)
    fun _ => Triple.pure fun _ h => h
  have hsound : ∀ after : Link (ω × Conduct), (heard after).frames = (heard link).frames → Sound after := by
    intro after hframes
    unfold Sound Orderly
    rw [hframes]
    exact hlink.sound
  have htoken := token_heard observer E link
  generalize Link.outside (observer.env E).token link = run at htoken ⊢
  rcases run with ⟨token | err | _, after⟩
  · refine ⟨hsound after (by rw [htoken.1]), ?_, ?_⟩
    · rw [htoken.2]
      exact hlink.logins
    · rw [htoken.1]
      exact hlink.login
  · refine ⟨hsound after (by rw [htoken.1]; rfl), ?_, fun _ => ?_⟩
    · rw [htoken.2]
      exact hlink.logins
    · rw [htoken.1]
      show ((heard link).connection.refused || !(heard link).connection.loggedIn) = true
      rw [hlink.login]
      exact Bool.or_true _
  · exact hsound after (by rw [htoken.1])

theorem sayHello_unproven :
    Triple (Unproven n) (Client.sayHello (observer.env E))
      (Settles Sound (Failed n) fun _ => Done n) := by
  intro link hlink
  unfold Client.sayHello
  rw [gets_bind]
  refine Settles.bind (accessToken_unproven _) (fun token => ?_) link hlink
  refine Settles.bind (call_unproven (fun _ => rfl) fun _ => ⟨rfl, fun _ => rfl⟩) fun answer => ?_
  cases answer with
  | Challenge challenge =>
      refine Settles.bind ((call_unproven (fun _ => rfl) fun _ => ⟨rfl, fun _ => rfl⟩).mono
        (fun _ h => h.unproven) fun _ _ h => h) fun answer => ?_
      cases answer with
      | HelloOk ok =>
          exact (loggedIn_done ok).mono (fun _ h => h.proven) fun _ _ h => h
      | _ => exact Triple.fail fun _ h => h.failed fun _ => rfl
  | _ => exact Triple.fail fun _ h => h.failed fun _ => rfl

-- A socket that cannot be opened leaves the client with the one it had.
theorem openSocket_unproven (keep : Link (ω × Conduct) → Prop)
    (hkeep : ∀ link, keep link → Sound link ∧ link.client.logins = n)
    (hsame : ∀ link after, keep link → heard after = heard link → after.client = link.client → keep after) :
    Triple keep (Client.openSocket (observer.env E)) (Settles Sound keep fun _ => Unproven n) := by
  intro link hlink
  obtain ⟨hsound, hlogins⟩ := hkeep link hlink
  have hopened := openSocket_heard observer E link
  generalize Client.openSocket (observer.env E) link = run at hopened ⊢
  rcases run with ⟨_ | _ | _, after⟩
  · refine ⟨?_, ?_, ?_⟩
    · rw [Sound, hopened.1]
      exact hsound
    · rw [hopened.2]
      exact hlogins
    · rw [hopened.1]
      rfl
  · exact hsame link after hlink hopened.1 hopened.2
  · exact (hkeep after (hsame link after hlink hopened.1 hopened.2)).1

theorem logIn_unproven :
    Triple (Unproven n) (Client.logIn (observer.env E)) (Settles Sound (Failed n) fun _ => Done n) := by
  intro link hlink
  unfold Client.logIn
  rw [gets_bind]
  refine Settles.handle sayHello_unproven (fun reason => Triple.ite (fun _ => ?_) fun _ => ?_) link hlink
  · refine Settles.bind (openSocket_unproven (Failed n) (fun _ h => ⟨h.sound, h.logins⟩) ?_) fun _ =>
      sayHello_unproven
    rintro link after hfailed hheard hclient
    refine ⟨?_, ?_, ?_⟩
    · rw [Sound, hheard]
      exact hfailed.sound
    · rw [hclient]
      exact hfailed.logins
    · rw [hclient, hheard]
      exact hfailed.login
  · exact Triple.fail fun _ h => h

-- The file was opened before the login began.
def Before (n : Nat) (file : Option (String × Nat)) : Prop := ∀ dbId login, file = some (dbId, login) → login ≤ n

theorem Failed.ready (hfile : Before n file) (h : Failed n a) : Ready file a := by
  refine ⟨h.sound, fun hopen => .inl (h.login hopen), fun dbId login heq => ?_⟩
  rw [h.logins]
  exact ⟨hfile dbId login heq, fun _ hopen => .inl (h.login hopen)⟩

theorem Done.ready (hfile : Before n file) (h : Done n a) : Ready file a := by
  refine ⟨h.sound, fun _ => .inr h.login, fun dbId login heq => ?_⟩
  have hle := hfile dbId login heq
  rw [h.logins]
  exact ⟨by omega, fun hnew => by omega⟩

theorem Ready.same (h : Ready file a) (hheard : heard b = heard a) (hclient : b.client = a.client) :
    Ready file b := by
  have htalks : Talks (fun _ => False) a b :=
    Talks.of_same (by rw [hclient]) (by rw [hclient]; exact fun h => h) hheard
  refine h.talks htalks ?_
  rw [Sound, hheard]
  exact h.sound

theorem reconnect_ready : Guards Sound (Ready file) (Client.reconnect (observer.env E)) := by
  intro link hlink
  have hfile : Before link.client.logins file := fun dbId login heq => (hlink.file dbId login heq).1
  have hopen : Triple (fun after => Ready file after ∧ after.client.logins = link.client.logins)
      (Client.openSocket (observer.env E)) (Settles Sound (Ready file) fun _ => Unproven link.client.logins) := by
    refine (openSocket_unproven _ (fun _ h => ⟨h.1.sound, h.2⟩) ?_).mono (fun _ h => h) ?_
    · intro first after h hheard hclient
      exact ⟨h.1.same hheard hclient, by rw [hclient, h.2]⟩
    · exact fun o after h => h.imp (fun h => h) (fun h => h.1) fun _ h => h
  refine Settles.bind hopen (fun _ => logIn_unproven.mono (fun _ h => h) fun o after h => ?_) link ⟨hlink, rfl⟩
  exact h.imp (fun h => h) (fun h => h.ready hfile) fun _ h => h.ready hfile

end Login

end RemoteVfs.Conduct
