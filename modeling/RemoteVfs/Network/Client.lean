import RemoteVfs.Network.Link

namespace RemoteVfs

open Base Base.Prog

theorem Complete.grow {a b : Asked} {image : Image} {version : Nat} {parts : List Pb.Commit}
    (h : Complete a image version parts) (hab : a.Grows b) : Complete b image version parts :=
  ⟨h.chain, h.last, fun part hpart => (h.sent part hpart).grow hab, h.fits⟩

namespace Net

variable {net : Net} {n : Nat}

theorem asked_transmit (frame : Pb.ClientFrame) :
    (net.transmit frame).asked frame.requestId = some (frame.body, net.server.version) := by
  simp [transmit]

theorem grows_transmit (h : net.Wf n) {frame : Pb.ClientFrame} (hid : frame.requestId = n + 1) :
    net.asked.Grows (net.transmit frame).asked := by
  intro id request hask
  have hle := h.bound id (by rw [hask]; simp)
  simp only [transmit]
  rw [if_neg (by omega), hask]

theorem sent_transmit {frame : Pb.ClientFrame} {part : Pb.Commit}
    (h : (net.transmit frame).asked.Sent part) : net.asked.Sent part ∨ frame.body = .Commit part := by
  obtain ⟨id, stamp, h⟩ := h
  simp only [transmit] at h
  split_ifs at h
  · simp only [Option.some.injEq, Prod.mk.injEq] at h
    exact Or.inr h.1
  · exact Or.inl ⟨id, stamp, h⟩

theorem transmit_wf (h : net.Wf n) {frame : Pb.ClientFrame} (hid : frame.requestId = n + 1)
    (hbody : ∀ part, frame.body = .Commit part → ∃ k < net.drawn, part.commitId = net.ids k) :
    (net.transmit frame).Wf (n + 1) ∧ net.Later (net.transmit frame) := by
  have hgrows := grows_transmit h hid
  refine ⟨⟨⟨h.distinct.injective, h.distinct.nonempty, h.distinct.others⟩, ?_, ?_, ?_, h.others, ?_⟩,
    ⟨Server.Extends.refl _, hgrows, rfl, rfl, le_refl _⟩⟩
  · intro conn hconn
    rcases mem_modify hconn with hold | ⟨old, hold, rfl⟩
    · exact (h.conns conn hold).extend (Server.Extends.refl _) hgrows
    · have hwf := (h.conns old hold).extend (Server.Extends.refl _) hgrows
      refine hwf.transmit frame ?_ (by omega) (le_refl _) (asked_transmit frame)
      intro sent hsent
      obtain ⟨-, stamp, -, hask⟩ := (h.conns old hold).known sent hsent
      have := h.bound sent.requestId (by rw [hask]; simp)
      omega
  · intro id hask
    simp only [transmit] at hask
    split_ifs at hask with heq
    · omega
    · have := h.bound id hask
      omega
  · exact fun j parts hj => Complete.grow (h.log j parts hj) hgrows
  · intro part hpart
    rcases sent_transmit hpart with hold | hnew
    · exact h.drawn part hold
    · exact hbody part hnew

-- What a received frame says about the request it answers.
theorem Wf.truth (h : net.Wf n) {conn : Conn} (hconn : conn ∈ net.conns) {frame : Pb.ServerFrame}
    (hframe : frame ∈ conn.answers) (h0 : frame.requestId ≠ 0) {body : Pb.ClientBody}
    {stamp : Nat} (hasked : net.asked frame.requestId = some (body, stamp)) :
    ∃ answer bodies, frame.body = some answer ∧ answer ∈ bodies ∧
      net.server.Answers stamp body bodies ∧
      conn.replies frame.requestId = Conn.framed frame.requestId bodies := by
  have hwf := h.conns conn hconn
  obtain ⟨request, hrequest, hid⟩ := hwf.answered frame hframe h0
  obtain ⟨stamp', -, bodies, hasked', hanswers, hreplies⟩ := hwf.replied request hrequest
  rw [hid] at hasked' hreplies
  rw [hasked] at hasked'
  simp only [Option.some.injEq, Prod.mk.injEq] at hasked'
  obtain ⟨rfl, rfl⟩ := hasked'
  have hmem : frame ∈ conn.replies frame.requestId :=
    List.mem_filter.mpr ⟨hframe, by simp⟩
  rw [hreplies] at hmem
  obtain ⟨answer, hanswer, heq⟩ := List.mem_map.mp hmem
  exact ⟨answer, bodies, by rw [← heq], hanswer, hanswers, hreplies⟩

end Net

-- The frames that the client has received on this connection.
def Conn.seen (conn : Conn) : List Pb.ServerFrame := conn.answers.take conn.received

theorem Conn.seen_append {conn : Conn} {server : Server} {asked : Asked} (h : conn.Wf server asked)
    (handled : Nat) (session : Session) (frames : List Pb.ServerFrame) :
    Conn.seen { conn with
      handled := handled, session := session, answers := conn.answers ++ frames } = conn.seen :=
  List.take_append_of_le_length h.received

namespace Net

-- The frames with this request id that the client has received on its connection.
def heard (net : Net) (id : Nat) : List Pb.ServerFrame :=
  ((net.conns.map Conn.seen).getLast?.getD []).filter fun frame => frame.requestId = id

theorem heard_congr {a b : Net} (h : b.conns.map Conn.seen = a.conns.map Conn.seen) (id : Nat) :
    b.heard id = a.heard id := by
  simp only [heard, h]

variable {net : Net} {n : Nat}

theorem seen_modify (index : Nat) (change : Conn → Conn)
    (h : ∀ conn ∈ net.conns, (change conn).seen = conn.seen) :
    (net.conns.modify index change).map Conn.seen = net.conns.map Conn.seen := by
  apply List.ext_getElem?
  intro i
  rw [List.getElem?_map, List.getElem?_map, List.getElem?_modify]
  cases hconn : net.conns[i]? with
  | none => rfl
  | some conn =>
      by_cases hi : index = i
      · simp [hi, h conn (List.mem_of_getElem? hconn)]
      · simp [hi]

theorem move_seen (h : net.Wf n) (move : Move) :
    (net.move move).conns.map Conn.seen = net.conns.map Conn.seen := by
  cases move with
  | Serve index fate =>
      simp only [Net.move, serve]
      cases hconn : net.conns[index]? with
      | none => rfl
      | some conn =>
          dsimp only
          cases hframe : conn.sent[conn.handled]? with
          | none => rfl
          | some frame =>
              dsimp only
              obtain ⟨hlt, hget⟩ := List.getElem?_eq_some_iff.mp hconn
              rw [List.map_set, Conn.seen_append (h.conns conn (List.mem_of_getElem? hconn))]
              rw [← hget, ← List.getElem_map Conn.seen (h := by simpa using hlt), List.set_getElem_self]
  | Commit commitId pageCount blocks =>
      simp only [Net.move]
      split_ifs <;> rfl
  | Push index revoked =>
      exact seen_modify index _ fun conn hconn =>
        Conn.seen_append (h.conns conn hconn) conn.handled conn.session _
  | _ => rfl

theorem tick_heard (h : net.Wf n) (id : Nat) : net.tick.2.heard id = net.heard id := by
  have hmoves : ∀ (moves : List Move) (net : Net), net.Wf n →
      (∀ move ∈ moves, ∀ commitId pageCount blocks,
        move = .Commit commitId pageCount blocks → ∀ k, net.ids k ≠ commitId) →
      (net.moves moves).conns.map Conn.seen = net.conns.map Conn.seen := by
    intro moves
    induction moves with
    | nil => exact fun _ _ _ => rfl
    | cons move rest ih =>
        intro net hnet hids
        obtain ⟨hwf, hlater⟩ := move_wf hnet move (hids move List.mem_cons_self)
        refine (ih _ hwf fun m hm => ?_).trans (move_seen hnet move)
        rw [hlater.ids]
        exact hids m (List.mem_cons_of_mem _ hm)
  have hnext : ({ net with turn := net.turn + 1 } : Net).Wf n :=
    ⟨⟨h.distinct.injective, h.distinct.nonempty, h.distinct.others⟩, h.conns, h.bound,
      h.log, h.others, h.drawn⟩
  exact heard_congr (hmoves _ _ hnext (h.distinct.others net.turn)) id

theorem transmit_heard (frame : Pb.ClientFrame) (id : Nat) :
    (net.transmit frame).heard id = net.heard id :=
  heard_congr (seen_modify _ (fun conn => { conn with sent := conn.sent ++ [frame] })
    fun _ _ => rfl) id

-- Nothing was received for a request that was not sent.
theorem heard_eq_nil (h : net.Wf n) {id : Nat} (hid : n < id) : net.heard id = [] := by
  unfold heard
  rw [List.filter_eq_nil_iff]
  intro frame hframe heq
  simp only [decide_eq_true_eq] at heq
  cases hlast : (net.conns.map Conn.seen).getLast? with
  | none => rw [hlast] at hframe; cases hframe
  | some seen =>
      rw [hlast] at hframe
      obtain ⟨conn, hconn, rfl⟩ := List.mem_map.mp (List.mem_of_getLast? hlast)
      have hwf := h.conns conn hconn
      obtain ⟨request, hrequest, hrid⟩ :=
        hwf.answered frame (List.mem_of_mem_take hframe) (by omega)
      obtain ⟨-, stamp, -, hasked⟩ := hwf.known request (List.mem_of_mem_take hrequest)
      have := h.bound request.requestId (by rw [hasked]; simp)
      omega

-- What receiving a frame does.
theorem receive_ok {frame : Pb.ServerFrame} {net' : Net}
    (h : Net.receive net = (.ok (.ok frame), net')) :
    ∃ conn, net.tick.2.conns.getLast? = some conn ∧ conn.answers[conn.received]? = some frame ∧
      net' = { net.tick.2 with
        conns := net.tick.2.conns.modify (net.tick.2.conns.length - 1) Conn.receive } := by
  unfold Net.receive attempt next at h
  dsimp only at h
  cases hfail : net.tick.1.fail with
  | some reason => rw [hfail] at h; cases h
  | none =>
      rw [hfail] at h
      dsimp only at h
      cases hmal : net.tick.1.malformed with
      | some reason => rw [hmal] at h; cases h
      | none =>
          rw [hmal] at h
          dsimp only at h
          cases hconn : net.tick.2.conns.getLast? with
          | none => rw [hconn] at h; cases h
          | some conn =>
              rw [hconn, Option.bind_some] at h
              cases hframe : conn.answers[conn.received]? with
              | none => rw [hframe] at h; cases h
              | some received =>
                  rw [hframe] at h
                  simp only [Prod.mk.injEq, Outcome.ok.injEq, Except.ok.injEq] at h
                  obtain ⟨rfl, rfl⟩ := h
                  exact ⟨conn, rfl, hframe, rfl⟩

theorem receive_heard (h : net.Wf n) {frame : Pb.ServerFrame} {net' : Net}
    (hreceive : Net.receive net = (.ok (.ok frame), net')) (id : Nat) :
    net'.heard id = net.heard id ++ if frame.requestId = id then [frame] else [] := by
  obtain ⟨conn, hlast, hframe, rfl⟩ := receive_ok hreceive
  rw [← tick_heard h id]
  have hlen : (net.tick.2.conns.map Conn.seen).getLast? = some conn.seen := by
    rw [List.getLast?_map, hlast]
    rfl
  have hlen' : ((net.tick.2.conns.modify (net.tick.2.conns.length - 1) Conn.receive).map
      Conn.seen).getLast? = some (conn.seen ++ [frame]) := by
    rw [List.getLast?_map, List.getLast?_eq_getElem?, List.length_modify, List.getElem?_modify,
      ← List.getLast?_eq_getElem?, hlast]
    simp [Conn.seen, Conn.receive, List.take_add_one, hframe]
  unfold heard
  rw [hlen, hlen']
  simp only [Option.getD_some, List.filter_append, List.filter_cons, List.filter_nil,
    decide_eq_true_eq]

-- A frame that is received was sent by the server.
theorem receive_mem {frame : Pb.ServerFrame} {net' : Net}
    (hreceive : Net.receive net = (.ok (.ok frame), net')) :
    ∃ conn ∈ net'.conns, frame ∈ conn.answers := by
  obtain ⟨conn, hlast, hframe, rfl⟩ := receive_ok hreceive
  refine ⟨conn.receive, ?_, List.mem_of_getElem? hframe⟩
  refine List.mem_of_getElem? (i := net.tick.2.conns.length - 1) ?_
  rw [List.getElem?_modify, ← List.getLast?_eq_getElem?, hlast]
  simp

end Net

namespace Link

variable {P : Pb.Commit → Prop} {D : Disk → Disk → Prop} (setup : Net.Setup)

-- The request was sent, at this version at the earliest.
def Asks (version : Nat) (id : Nat) (body : Pb.ClientBody) (link : Link Net) : Prop :=
  ∃ stamp, version ≤ stamp ∧ link.world.asked id = some (body, stamp)

theorem Asks.later {version id : Nat} {body : Pb.ClientBody} {before after : Link Net}
    (h : Asks version id body before) (hlater : before.world.Later after.world) :
    Asks version id body after := by
  obtain ⟨stamp, hstamp, hasked⟩ := h
  exact ⟨stamp, hstamp, hlater.asked _ _ hasked⟩

-- The frame is one that the server has sent.
def Heard (frame : Pb.ServerFrame) (link : Link Net) : Prop :=
  frame.requestId ≠ 0 ∧ ∃ conn ∈ link.world.conns, frame ∈ conn.answers

-- What an answer to the request may say.
def Told (version : Nat) (body : Pb.ClientBody) (answer : Pb.ServerBody) (link : Link Net) : Prop :=
  ∃ stamp bodies, version ≤ stamp ∧ answer ∈ bodies ∧
    link.world.server.Answers stamp body bodies

theorem Told.opened {version : Nat} {request : Pb.Open} {opened : Pb.Opened} {link : Link Net}
    (h : Told version (.Open request) (.Opened opened) link) :
    link.world.server.OpenedAt version opened := by
  obtain ⟨stamp, bodies, hstamp, hmem, rfl | ⟨e, rfl⟩ | ⟨answer, rfl, hat⟩⟩ := h
  · cases hmem
  · simp at hmem
  · obtain rfl : opened = answer := by simpa using hmem
    exact ⟨hstamp.trans hat.later, hat.reached, hat.commitId, hat.pageSize, hat.pageCount⟩

theorem Told.changes {version : Nat} {request : Pb.Changed} {changes : Pb.Changes}
    {link : Link Net} (h : Told version (.Changed request) (.Changes changes) link)
    (hfrom : request.fromVersion ≤ version) :
    link.world.server.ChangesAt request changes := by
  obtain ⟨stamp, bodies, hstamp, hmem, rfl | ⟨e, rfl⟩ | ⟨answer, rfl, hat⟩⟩ := h
  · cases hmem
  · simp at hmem
  · obtain rfl : changes = answer := by simpa using hmem
    exact hat (hfrom.trans hstamp)

-- A fact that stays true as the run goes on.
def Lasting (fact : Link Net → Prop) : Prop :=
  ∀ before after : Link Net, before.world.Later after.world → fact before → fact after

theorem lasting_true : Lasting fun _ => True := fun _ _ _ h => h

theorem Lasting.and {p q : Link Net → Prop} (hp : Lasting p) (hq : Lasting q) :
    Lasting fun link => p link ∧ q link :=
  fun a b hlater h => ⟨hp a b hlater h.1, hq a b hlater h.2⟩

theorem lasting_asks (version id : Nat) (body : Pb.ClientBody) : Lasting (Asks version id body) :=
  fun _ _ hlater h => h.later hlater

theorem Heard.told {frame : Pb.ServerFrame} {link : Link Net} (h : Heard frame link)
    (hready : link.Ready P) {version : Nat} {body : Pb.ClientBody}
    (hasks : Asks version frame.requestId body link) :
    ∃ answer, frame.body = some answer ∧ Told version body answer link := by
  obtain ⟨h0, conn, hconn, hframe⟩ := h
  obtain ⟨stamp, hstamp, hasked⟩ := hasks
  obtain ⟨answer, bodies, hbody, hmem, hanswers, -⟩ := hready.wf.truth hconn hframe h0 hasked
  exact ⟨answer, hbody, stamp, bodies, hstamp, hmem, hanswers⟩

variable [IsPreorder Disk D]

theorem now_moved {ε : Type} :
    Moves (Moved P D) (Client.now (Net.env setup) : Prog (Link Net) ε Nat) :=
  outside_moved (Net.quiet_tick fun turn => .ok turn.time)

theorem pause_moved {ε : Type} (time : Nat) :
    Moves (Moved P D) (outside (Prog.modify ((Net.env setup).pause time)) :
      Prog (Link Net) ε Unit) :=
  outside_moved (Net.quiet_tick fun _ => .ok ())

-- The frame leaves the client, with or without an error.
theorem transmitted {link : Link Net} (hready : link.Ready P) {body : Pb.ClientBody}
    (hbody : ∀ part, body = .Commit part → P part) (client : Client)
    (hclient : client.nextId = link.client.nextId + 1) {net : Net}
    (hnet : net = link.world.tick.2 ∨
      net = link.world.tick.2.transmit ⟨link.client.nextId + 1, body⟩) :
    Kept P D link ⟨client, net⟩ := by
  obtain ⟨hwf, hlater⟩ := Net.tick_wf hready.wf
  have hsame := Net.tick_same link.world
  rcases hnet with rfl | rfl
  · refine ⟨?_, hlater, fun part hpart => Or.inl ?_, hsame.disk ▸ Std.Refl.refl _⟩
    · exact hready.of_later (hwf.mono (by rw [hclient]; omega)) hlater
    · have hpart' : link.world.tick.2.asked.Sent part := hpart
      rw [hsame.asked] at hpart'
      exact hpart'
  · have hdrawn : ∀ part, body = .Commit part →
        ∃ k < link.world.tick.2.drawn, part.commitId = link.world.tick.2.ids k := by
      intro part hpart
      obtain ⟨k, hk, hid⟩ := hready.allowed part (hbody part hpart)
      exact ⟨k, Nat.lt_of_lt_of_le hk hlater.drawn, by rw [hlater.ids]; exact hid⟩
    obtain ⟨hwf', hlater'⟩ := Net.transmit_wf hwf
      (show (⟨link.client.nextId + 1, body⟩ : Pb.ClientFrame).requestId = _ from rfl) hdrawn
    refine ⟨hready.of_later (hclient ▸ hwf') (hlater.trans hlater'), hlater.trans hlater', ?_,
      hsame.disk ▸ Std.Refl.refl _⟩
    intro part hpart
    rcases Net.sent_transmit hpart with hold | hnew
    · rw [hsame.asked] at hold
      exact Or.inl hold
    · exact Or.inr (hbody part hnew)

theorem post_cases (frame : Pb.ClientFrame) (link : Link Net) :
    Client.post (Net.env setup) frame link =
        (.ok (), ⟨link.client, link.world.tick.2.transmit frame⟩) ∨
      ∃ reason net, (net = link.world.tick.2 ∨ net = link.world.tick.2.transmit frame) ∧
        Client.post (Net.env setup) frame link =
          (.err (.Transport reason), ⟨link.client.disconnect, net⟩) := by
  have hpost : ∀ o net, Net.send frame link.world = (o, net) →
      Client.post (Net.env setup) frame link = match o with
        | .ok _ => (.ok (), ⟨link.client, net⟩)
        | .err reason => (.err (.Transport reason), ⟨link.client.disconnect, net⟩)
        | .hang => (.hang, ⟨link.client, net⟩) := by
    intro o net h
    simp only [Client.post, Prog.handle, outside, Prog.zoom, Net.env, h]
    rcases o with _ | _ | _ <;> rfl
  cases hfail : link.world.tick.1.fail with
  | none => exact Or.inl (hpost (.ok ()) _ (by simp [Net.send, hfail]))
  | some reason =>
      refine Or.inr ?_
      by_cases hyes : link.world.tick.1.yes = true
      · exact ⟨reason, _, Or.inr rfl, hpost (.err reason) _ (by simp [Net.send, hfail, hyes])⟩
      · exact ⟨reason, _, Or.inl rfl, hpost (.err reason) _ (by simp [Net.send, hfail, hyes])⟩

theorem send_spec {body : Pb.ClientBody} (hbody : ∀ part, body = .Commit part → P part)
    (link : Link Net) (hready : link.Ready P) :
    Ends (Kept P D link) (fun id after => Asks link.world.server.version id body after ∧
        id ≠ 0 ∧ after.world.heard id = [])
      (Client.send (Net.env setup) body link).1 (Client.send (Net.env setup) body link).2 := by
  simp only [Client.send, gets_bind]
  by_cases hdown : (!link.client.connected || !link.client.socket) = true
  · simp only [hdown, if_true, fail_apply]
    exact ⟨Kept.refl hready, trivial⟩
  simp only [hdown, if_false, modify_bind, Bool.false_eq_true]
  set posted := mapClient (fun client => { client with nextId := link.client.nextId + 1 }) link
  rcases post_cases setup ⟨link.client.nextId + 1, body⟩ posted with hpost | ⟨reason, net, hnet, hpost⟩
  · rw [bind_ok _ hpost]
    -- The clock is read after the frame left.
    have hkept : Kept P D link ⟨posted.client, _⟩ :=
      transmitted hready hbody posted.client rfl (Or.inr rfl)
    have hrest : Moves (Moved P D) (Client.now (Net.env setup) >>= fun time => do
        Prog.modify (mapClient fun client => { client with lastRequest := time })
        return link.client.nextId + 1 : Prog (Link Net) ClientError Nat) :=
      Moves.bind (now_moved setup) fun _ =>
        Moves.bind (client_moved fun _ => le_refl _) fun _ => Moves.pure _
    have hlast := hrest _ hkept.ready
    refine ⟨hkept.trans hlast, ?_, Nat.succ_ne_zero _, ?_⟩
    · refine Asks.later ⟨_, (Net.tick_wf hready.wf).2.ext.version_le, ?_⟩ hlast.later
      exact Net.asked_transmit ⟨link.client.nextId + 1, body⟩
    · refine (Net.tick_heard hkept.ready.wf _).trans ?_
      refine (Net.transmit_heard _ _).trans ((Net.tick_heard hready.wf _).trans ?_)
      exact Net.heard_eq_nil hready.wf (Nat.lt_succ_self _)
  · rw [bind_err _ hpost]
    exact ⟨transmitted hready hbody _ rfl hnet, trivial⟩

theorem poll_moved : Moves (Moved P D) (Client.poll (Net.env setup)) :=
  Moves.handle (outside_moved Net.quiet_receive) fun _ =>
    Moves.bind (client_moved fun _ => le_refl _) fun _ => Moves.fail _

theorem poll_ok {link : Link Net} {frame : Pb.ServerFrame}
    (h : (Client.poll (Net.env setup) link).1 = .ok (.ok frame)) :
    Net.receive link.world = (.ok (.ok frame), (Client.poll (Net.env setup) link).2.world) := by
  simp only [Client.poll, Prog.handle, outside, Prog.zoom, Net.env] at h ⊢
  generalize Net.receive link.world = run at h ⊢
  rcases run with ⟨_ | _ | _, net⟩
  · simp only [Outcome.ok.injEq] at h
    rw [h]
  · cases h
  · cases h

theorem Kept.triple {ε α : Type} {body : Prog (Link Net) ε α} (h : Moves (Moved P D) body)
    (start : Link Net) {fact : Link Net → Prop} (hfact : Lasting fact) :
    Triple (fun link => Kept P D start link ∧ fact link) body
      (Ends (Kept P D start) fun _ => fact) := by
  rintro link ⟨hkept, hlink⟩
  have hstep := h link hkept.ready
  refine ⟨hkept.trans hstep, ?_⟩
  have hafter := hfact _ _ hstep.later hlink
  cases (body link).1 <;> first | exact hafter | trivial

theorem poll_spec (start : Link Net) {fact : Link Net → Prop} (hfact : Lasting fact) (id : Nat)
    (heard : List Pb.ServerFrame) :
    Triple (fun link => Kept P D start link ∧ fact link ∧ link.world.heard id = heard)
      (Client.poll (Net.env setup))
      (Ends (Kept P D start) fun result link => fact link ∧ ∀ frame, result = .ok frame →
        (∃ conn ∈ link.world.conns, frame ∈ conn.answers) ∧
          link.world.heard id = heard ++ if frame.requestId = id then [frame] else []) := by
  rintro link ⟨hkept, hlink, hheard⟩
  obtain ⟨hkept', hmeets⟩ := Kept.triple (poll_moved setup) start hfact link ⟨hkept, hlink⟩
  refine ⟨hkept', ?_⟩
  cases hresult : (Client.poll (Net.env setup) link).1 with
  | ok result =>
      rw [hresult] at hmeets
      refine ⟨hmeets, ?_⟩
      rintro frame rfl
      have hreceive := poll_ok setup hresult
      exact ⟨Net.receive_mem hreceive, hheard ▸ Net.receive_heard hkept.ready.wf hreceive id⟩
  | err reason => trivial
  | hang => trivial

theorem unprompted_eq (frame : Pb.ServerFrame) (link : Link Net) :
    ∃ client : Client, client.nextId = link.client.nextId ∧
      Client.unprompted frame link = (.ok (), ⟨client, link.world⟩) := by
  obtain ⟨id, _ | body⟩ := frame
  · exact ⟨link.client, rfl, rfl⟩
  cases body with
  | LeaseRevoked revoked =>
      refine ⟨link.client.noteRevoked revoked, ?_, rfl⟩
      simp only [Client.noteRevoked]
      by_cases hnewer : (link.client.revoked.lookup revoked.dbId).getD 0 < revoked.newLeaseEpoch
      · rw [if_pos hnewer]
      · rw [if_neg hnewer]
  | _ => exact ⟨link.client, rfl, rfl⟩

-- `heard` is what was received for the request so far.
theorem receive_spec (start : Link Net) {fact : Link Net → Prop} (hfact : Lasting fact) {id : Nat}
    (hid : id ≠ 0) (heard : List Pb.ServerFrame) :
    Triple (fun link => Kept P D start link ∧ fact link ∧ link.world.heard id = heard)
      (Client.receive (Net.env setup))
      (Ends (Kept P D start) fun frame link => fact link ∧ Heard frame link ∧
        link.world.heard id = heard ++ if frame.requestId = id then [frame] else []) := by
  refine Ends.loop (fun _ link => fact link ∧ link.world.heard id = heard) (fun _ => ?_) _ ()
  refine Triple.gets fun client => Triple.ite (fun _ => Ends.fail fun _ h => h.1.1) fun _ => ?_
  refine Ends.bind (Ends.mono (poll_spec setup start hfact id heard) (fun _ h => h.1)
    fun _ _ _ h => h) ?_
  rintro (reason | frame)
  · exact Ends.fail fun _ h => h.1
  · refine Triple.ite (fun h0 => ?_) fun h0 => ?_
    · -- An unprompted frame answers no request.
      rintro link ⟨hkept, hlink, hframe⟩
      have hheard : link.world.heard id = heard := by
        rw [(hframe frame rfl).2, h0, if_neg hid.symm, List.append_nil]
      obtain ⟨client, hclient, hnote⟩ := unprompted_eq frame link
      rw [bind_ok _ hnote]
      refine ⟨hkept.trans ?_, hfact link _ (Net.Later.refl _) hlink, hheard⟩
      exact ⟨⟨hclient ▸ hkept.ready.wf, hkept.ready.allowed⟩, Net.Later.refl _,
        fun _ h => Or.inl h, Std.Refl.refl _⟩
    · rintro link ⟨hkept, hlink, hframe⟩
      obtain ⟨hmem, hheard⟩ := hframe frame rfl
      exact ⟨hkept, hlink, ⟨h0, hmem⟩, hheard⟩

theorem receive_heard (start : Link Net) {fact : Link Net → Prop} (hfact : Lasting fact) :
    Triple (fun link => Kept P D start link ∧ fact link) (Client.receive (Net.env setup))
      (Ends (Kept P D start) fun frame link => fact link ∧ Heard frame link) := by
  rintro link ⟨hkept, hlink⟩
  exact Ends.mono (receive_spec setup start hfact Nat.one_ne_zero (link.world.heard 1))
    (fun _ h => h) (fun _ _ _ h => ⟨h.1, h.2.1⟩) link ⟨hkept, hlink, rfl⟩

theorem send_triple {body : Pb.ClientBody} (hbody : ∀ part, body = .Commit part → P part)
    (start : Link Net) {fact : Link Net → Prop} (hfact : Lasting fact) :
    Triple (fun link => Kept P D start link ∧ fact link) (Client.send (Net.env setup) body)
      (Ends (Kept P D start) fun id link => (fact link ∧ Asks start.world.server.version id body link) ∧
        id ≠ 0 ∧ link.world.heard id = []) := by
  rintro link ⟨hkept, hlink⟩
  obtain ⟨hkept', hmeets⟩ := send_spec (D := D) setup hbody link hkept.ready
  refine ⟨hkept.trans hkept', ?_⟩
  cases hid : (Client.send (Net.env setup) body link).1 with
  | ok id =>
      rw [hid] at hmeets
      obtain ⟨⟨stamp, hstamp, hasked⟩, hrest⟩ := hmeets
      exact ⟨⟨hfact _ _ hkept'.later hlink, stamp, hkept.later.ext.version_le.trans hstamp, hasked⟩,
        hrest⟩
  | err reason => trivial
  | hang => trivial

-- A call returns what the server said, and no error.
theorem call_spec {body : Pb.ClientBody} (hbody : ∀ part, body = .Commit part → P part)
    (start : Link Net) {fact : Link Net → Prop} (hfact : Lasting fact) :
    Triple (fun link => Kept P D start link ∧ fact link) (Client.call (Net.env setup) body)
      (Ends (Kept P D start) fun answer link => fact link ∧
        Told start.world.server.version body answer link ∧ ∀ e, answer ≠ .Error e) := by
  refine Ends.bind (send_triple setup hbody start hfact) fun id => ?_
  have hasks := hfact.and (lasting_asks start.world.server.version id body)
  refine Triple.mono (Ends.loop
      (fun _ link => fact link ∧ Asks start.world.server.version id body link) (fun _ => ?_) _ ())
    (fun _ h => ⟨h.1, h.2.1⟩) (fun _ _ h => h)
  refine Ends.bind (receive_heard setup start hasks) fun frame => Triple.ite
    (fun _ => Ends.pure fun _ h => ⟨h.1, h.2.1⟩) fun hid => ?_
  rintro link ⟨hkept, ⟨hlink, hask⟩, hheard⟩
  rw [not_not] at hid
  obtain ⟨answer, hanswer, htold⟩ := hheard.told hkept.ready (hid ▸ hask)
  rw [hanswer]
  cases answer with
  | Error e => exact ⟨hkept, trivial⟩
  | _ => exact ⟨hkept, hlink, htold, by simp⟩

theorem moved_of_triple {ε α : Type} {body : Prog (Link Net) ε α} {good : Link Net → α → Link Net → Prop}
    (h : ∀ start, Triple (Kept P D start) body (Ends (Kept P D start) (good start))) :
    Moves (Moved P D) body :=
  fun link hready => (h link link (Kept.refl hready)).1

theorem call_moved {body : Pb.ClientBody} (hbody : ∀ part, body ≠ .Commit part) :
    Moves (Moved P D) (Client.call (Net.env setup) body) :=
  moved_of_triple fun start => Triple.mono
    (call_spec setup (fun part h => absurd h (hbody part)) start lasting_true)
    (fun _ h => ⟨h, trivial⟩) fun _ _ h => h

theorem isConnected_moved {ε : Type} :
    Moves (Moved P D) (Client.isConnected (Net.env setup) : Prog (Link Net) ε Bool) := by
  refine Moves.bind (Moves.gets _) fun client => ?_
  cases client.isOpen with
  | false => exact Moves.pure _
  | true =>
      cases client.tokenRenewal with
      | none => exact Moves.pure _
      | some due => exact Moves.bind (now_moved setup) fun _ => Moves.pure _

theorem openSocket_moved : Moves (Moved P D) (Client.openSocket (Net.env setup)) := by
  refine Moves.bind (Moves.gets _) fun client => ?_
  refine Moves.bind (Moves.handle (outside_moved ?_) fun _ => Moves.fail _) fun _ =>
    client_moved fun _ => le_refl _
  split_ifs <;> exact Net.quiet_connect

theorem loggedIn_moved (ok : Pb.HelloOk) :
    Moves (Moved P D) (Client.loggedIn (Net.env setup) ok) := by
  have hrenewal : Moves (Moved P D)
      (Client.renewalTime (Net.env setup) (ok.accessTokenTtlMs * 1000000)) :=
    Moves.ite (Moves.pure _) (Moves.bind (now_moved setup) fun _ => Moves.pure _)
  have hworld : Moves (Moved P D) (Prog.modify fun link : Link Net =>
      { link with world := (Net.env setup).loggedIn (ok.pingIntervalMs * 1000000) link.world } :
      Prog (Link Net) ClientError Unit) :=
    outside_moved (P := P) (Net.quiet_tick fun _ => (.ok () : Outcome ClientError Unit))
  refine Moves.bind hrenewal fun renewal => Moves.bind (client_moved fun _ => le_refl _) fun _ => ?_
  refine Moves.bind (Moves.gets _) fun client => Moves.ite (Moves.bind hworld fun _ => ?_) ?_
  · exact client_moved fun _ => le_refl _
  · exact client_moved fun _ => le_refl _

theorem sayHello_moved : Moves (Moved P D) (Client.sayHello (Net.env setup)) := by
  have htoken : Moves (Moved P D)
      (Prog.handle (outside (Net.env setup).token) fun err => Prog.fail (.Token err) :
        Prog (Link Net) ClientError String) :=
    Moves.handle (outside_moved (Net.quiet_attempt fun _ => Net.quiet_stay fun _ => _)) fun _ =>
      Moves.fail _
  refine Moves.bind (Moves.gets _) fun client =>
    Moves.bind (Moves.ite htoken (Moves.pure _)) fun token =>
    Moves.bind (call_moved setup (by simp)) fun answer => ?_
  cases answer with
  | Challenge challenge =>
      refine Moves.bind (call_moved setup (by simp)) fun answer => ?_
      cases answer with
      | HelloOk ok => exact loggedIn_moved setup ok
      | _ => exact Moves.fail _
  | _ => exact Moves.fail _

theorem reconnect_moved : Moves (Moved P D) (Client.reconnect (Net.env setup)) := by
  refine Moves.bind (openSocket_moved setup) fun _ => Moves.bind (Moves.gets _) fun client => ?_
  refine Moves.handle (sayHello_moved setup) fun err => Moves.ite ?_ (Moves.fail _)
  exact Moves.bind (openSocket_moved setup) fun _ => sayHello_moved setup

theorem withClient_moved {α : Type} {request : Prog (Link Net) ClientError α}
    (h : Moves (Moved P D) request) : Moves (Moved P D) (Client.withClient (Net.env setup) request) := by
  refine Moves.bind (isConnected_moved setup) fun _ => Moves.ite ?_ ?_
  · exact h
  · exact Moves.bind (reconnect_moved setup) fun _ => h

theorem expect_moved {α : Type} {body : Pb.ClientBody} (hbody : ∀ part, body ≠ .Commit part)
    (kind : String) (pick : Pb.ServerBody → Option α) :
    Moves (Moved P D) (Client.expect (Net.env setup) body kind pick) := by
  refine Moves.bind (call_moved setup hbody) fun answer => ?_
  cases pick answer with
  | some value => exact Moves.pure _
  | none => exact Moves.fail _

theorem changes_spec (start : Link Net) (dbId : String) {fromVersion : Nat}
    (hfrom : fromVersion ≤ start.world.server.version) :
    Triple (Kept P D start) (Client.changes (Net.env setup) dbId fromVersion)
      (Ends (Kept P D start) fun changes link =>
        link.world.server.ChangesAt ⟨dbId, fromVersion⟩ changes) := by
  refine Triple.mono (Ends.bind (call_spec setup (by simp) start lasting_true) fun answer => ?_)
    (fun _ h => ⟨h, trivial⟩) fun _ _ h => h
  cases answer with
  | Changes changes => exact Ends.pure fun _ h => ⟨h.1, h.2.2.1.changes hfrom⟩
  | _ => exact Ends.fail fun _ h => h.1

end Link

end RemoteVfs
