import RemoteVfs.Network
import RemoteVfs.Server.Lemmas

namespace RemoteVfs

open Base

def Asked.Grows (before after : Asked) : Prop := ∀ id request, before id = some request →
  after id = some request

-- The part was sent by the client.
def Asked.Sent (asked : Asked) (part : Pb.Commit) : Prop :=
  ∃ id stamp, asked id = some (.Commit part, stamp)

theorem Asked.Sent.grow {a b : Asked} {part : Pb.Commit} (h : a.Sent part) (hab : a.Grows b) :
    b.Sent part := by
  obtain ⟨id, stamp, h⟩ := h
  exact ⟨id, stamp, hab _ _ h⟩

namespace Conn

-- The frames that answer a request.
def replies (conn : Conn) (id : Nat) : List Pb.ServerFrame :=
  conn.answers.filter fun frame => frame.requestId = id

def framed (id : Nat) (bodies : List Pb.ServerBody) : List Pb.ServerFrame :=
  bodies.map fun body => ⟨id, some body⟩

structure Wf (server : Server) (asked : Asked) (conn : Conn) : Prop where
  handled : conn.handled ≤ conn.sent.length
  received : conn.received ≤ conn.answers.length
  ordered : conn.sent.Pairwise fun a b => a.requestId < b.requestId
  known : ∀ frame ∈ conn.sent, frame.requestId ≠ 0 ∧
    ∃ stamp ≤ server.version, asked frame.requestId = some (frame.body, stamp)
  answered : ∀ answer ∈ conn.answers, answer.requestId ≠ 0 →
    ∃ frame ∈ conn.sent.take conn.handled, frame.requestId = answer.requestId
  replied : ∀ frame ∈ conn.sent.take conn.handled, ∃ stamp ≤ server.version, ∃ bodies,
    asked frame.requestId = some (frame.body, stamp) ∧
      server.Answers stamp frame.body bodies ∧
      conn.replies frame.requestId = framed frame.requestId bodies
  chain : conn.session.pending = [] ∨ Chain conn.session.pending
  pending : ∀ part ∈ conn.session.pending, asked.Sent part ∧ part.baseVersion ≤ server.version ∧
    BlocksFit (server.imageAt part.baseVersion).pageSize part.pageCount part.blocks

theorem wf_new (server : Server) (asked : Asked) : Conn.new.Wf server asked where
  handled := le_refl _
  received := le_refl _
  ordered := List.Pairwise.nil
  known _ h := absurd h List.not_mem_nil
  answered _ h := absurd h List.not_mem_nil
  replied _ h := absurd h (by simp [Conn.new])
  chain := Or.inl rfl
  pending _ h := absurd h List.not_mem_nil

variable {server server' : Server} {asked asked' : Asked} {conn : Conn}

theorem Wf.extend (h : conn.Wf server asked) (hext : server.Extends server')
    (hgrows : asked.Grows asked') : conn.Wf server' asked' where
  handled := h.handled
  received := h.received
  ordered := h.ordered
  known frame hframe := by
    obtain ⟨h0, stamp, hstamp, hasked⟩ := h.known frame hframe
    exact ⟨h0, stamp, hstamp.trans hext.version_le, hgrows _ _ hasked⟩
  answered := h.answered
  replied frame hframe := by
    obtain ⟨stamp, hstamp, bodies, hasked, hanswers, hreplies⟩ := h.replied frame hframe
    exact ⟨stamp, hstamp.trans hext.version_le, bodies, hgrows _ _ hasked,
      hanswers.extend hext hstamp, hreplies⟩
  chain := h.chain
  pending part hpart := by
    obtain ⟨hsent, hbase, hfit⟩ := h.pending part hpart
    refine ⟨hsent.grow hgrows, hbase.trans hext.version_le, ?_⟩
    rw [hext.imageAt hbase]
    exact hfit

-- Receiving only moves the cursor.
theorem Wf.receive (h : conn.Wf server asked) {received : Nat}
    (hreceived : received ≤ conn.answers.length) :
    ({ conn with received := received } : Conn).Wf server asked :=
  ⟨h.handled, hreceived, h.ordered, h.known, h.answered, h.replied, h.chain, h.pending⟩

theorem Wf.push (h : conn.Wf server asked) (body : Pb.ServerBody) :
    ({ conn with answers := conn.answers ++ [⟨0, some body⟩] } : Conn).Wf server asked where
  handled := h.handled
  received := by
    have := h.received
    simp only [List.length_append]
    omega
  ordered := h.ordered
  known := h.known
  answered answer hanswer h0 := by
    rcases List.mem_append.mp hanswer with hold | hnew
    · exact h.answered answer hold h0
    · rw [List.mem_singleton.mp hnew] at h0
      exact absurd rfl h0
  replied frame hframe := by
    obtain ⟨stamp, hstamp, bodies, hasked, hanswers, hreplies⟩ := h.replied frame hframe
    refine ⟨stamp, hstamp, bodies, hasked, hanswers, ?_⟩
    have hne := (h.known frame (List.mem_of_mem_take hframe)).1
    unfold replies at hreplies ⊢
    rw [List.filter_append, hreplies]
    simp [hne.symm]
  chain := h.chain
  pending := h.pending

theorem Wf.transmit (h : conn.Wf server asked) (frame : Pb.ClientFrame)
    (hnew : ∀ old ∈ conn.sent, old.requestId < frame.requestId) (h0 : frame.requestId ≠ 0)
    {stamp : Nat} (hstamp : stamp ≤ server.version)
    (hasked : asked frame.requestId = some (frame.body, stamp)) :
    ({ conn with sent := conn.sent ++ [frame] } : Conn).Wf server asked where
  handled := by
    have := h.handled
    simp only [List.length_append]
    omega
  received := h.received
  ordered := by
    rw [List.pairwise_append]
    refine ⟨h.ordered, List.pairwise_singleton _ _, ?_⟩
    intro old hold new hnew'
    rw [List.mem_singleton.mp hnew']
    exact hnew old hold
  known other hother := by
    rcases List.mem_append.mp hother with hold | hnew'
    · exact h.known other hold
    · rw [List.mem_singleton.mp hnew']
      exact ⟨h0, stamp, hstamp, hasked⟩
  answered := by
    rw [List.take_append_of_le_length h.handled]
    exact h.answered
  replied := by
    rw [List.take_append_of_le_length h.handled]
    exact h.replied
  chain := h.chain
  pending := h.pending

-- A frame that is not handled yet has no answers.
theorem Wf.replies_eq_nil (h : conn.Wf server asked) {frame : Pb.ClientFrame}
    (hframe : conn.sent[conn.handled]? = some frame) : conn.replies frame.requestId = [] := by
  refine List.filter_eq_nil_iff.mpr fun answer hanswer heq => ?_
  simp only [decide_eq_true_eq] at heq
  have h0 : answer.requestId ≠ 0 := by
    rw [heq]
    exact (h.known frame (List.mem_of_getElem? hframe)).1
  obtain ⟨old, hold, hid⟩ := h.answered answer hanswer h0
  obtain ⟨i, hi⟩ := List.mem_iff_getElem?.mp hold
  rw [List.getElem?_take] at hi
  split_ifs at hi with hlt
  obtain ⟨hb, hget⟩ := List.getElem?_eq_some_iff.mp hi
  obtain ⟨hb', hget'⟩ := List.getElem?_eq_some_iff.mp hframe
  have := List.pairwise_iff_getElem.mp h.ordered i conn.handled hb hb' hlt
  rw [hget, hget'] at this
  omega

-- The server handles the next frame of the connection.
theorem Wf.serve (h : conn.Wf server asked) {frame : Pb.ClientFrame}
    (hframe : conn.sent[conn.handled]? = some frame) {session : Session}
    {bodies : List Pb.ServerBody}
    (hserved : server.Served conn.session frame.body server' session bodies) :
    ({ conn with
       handled := conn.handled + 1
       session := session
       answers := conn.answers ++ framed frame.requestId bodies } : Conn).Wf server' asked := by
  have hlater := h.extend hserved.ext fun _ _ h => h
  obtain ⟨h0, stamp, hstamp, hasked⟩ := h.known frame (List.mem_of_getElem? hframe)
  have htake : conn.sent.take (conn.handled + 1) = conn.sent.take conn.handled ++ [frame] := by
    rw [List.take_add_one, hframe]
    rfl
  have hnone := h.replies_eq_nil hframe
  have hreceived : conn.received ≤ (conn.answers ++ framed frame.requestId bodies).length := by
    have := h.received
    rw [List.length_append]
    omega
  refine ⟨(List.getElem?_eq_some_iff.mp hframe).1, hreceived, h.ordered, hlater.known, ?_, ?_, ?_, ?_⟩
  · intro answer hanswer hne
    rw [htake]
    rcases List.mem_append.mp hanswer with hold | hnew
    · obtain ⟨old, hold, hid⟩ := h.answered answer hold hne
      exact ⟨old, List.mem_append_left _ hold, hid⟩
    · obtain ⟨body, -, rfl⟩ := List.mem_map.mp hnew
      exact ⟨frame, List.mem_append_right _ (List.mem_singleton_self _), rfl⟩
  · intro other hother
    rw [htake] at hother
    unfold replies
    rw [List.filter_append]
    by_cases hid : other.requestId = frame.requestId
    · -- The frame itself: a frame with the same id is the same request.
      have hsame : other = frame ∨ other ∈ conn.sent.take conn.handled := by
        rcases List.mem_append.mp hother with hold | hnew
        · exact Or.inr hold
        · exact Or.inl (List.mem_singleton.mp hnew)
      have hfilter : (framed frame.requestId bodies).filter
          (fun answer => decide (answer.requestId = frame.requestId)) =
            framed frame.requestId bodies := by
        refine List.filter_eq_self.mpr fun answer hanswer => ?_
        obtain ⟨body, -, rfl⟩ := List.mem_map.mp hanswer
        simp
      rcases hsame with rfl | hold
      · refine ⟨stamp, hstamp.trans hserved.ext.version_le, bodies, hasked,
          hserved.answers stamp hstamp, ?_⟩
        unfold replies at hnone
        rw [hnone, hfilter, List.nil_append]
      · obtain ⟨i, hi⟩ := List.mem_iff_getElem?.mp hold
        rw [List.getElem?_take] at hi
        split_ifs at hi with hlt
        obtain ⟨hb, hget⟩ := List.getElem?_eq_some_iff.mp hi
        obtain ⟨hb', hget'⟩ := List.getElem?_eq_some_iff.mp hframe
        have := List.pairwise_iff_getElem.mp h.ordered i conn.handled hb hb' hlt
        rw [hget, hget'] at this
        omega
    · have hold : other ∈ conn.sent.take conn.handled := by
        rcases List.mem_append.mp hother with hold | hnew
        · exact hold
        · exact absurd (by rw [List.mem_singleton.mp hnew]) hid
      obtain ⟨stamp, hstamp, bodies', hasked', hanswers, hreplies⟩ := hlater.replied other hold
      refine ⟨stamp, hstamp, bodies', hasked', hanswers, ?_⟩
      have hfilter : (framed frame.requestId bodies).filter
          (fun answer => decide (answer.requestId = other.requestId)) = [] := by
        refine List.filter_eq_nil_iff.mpr fun answer hanswer => ?_
        obtain ⟨body, -, rfl⟩ := List.mem_map.mp hanswer
        simpa using Ne.symm hid
      unfold replies at hreplies
      rw [hfilter, List.append_nil, hreplies]
  · rcases hserved.pending with hp | hp | ⟨part, -, -, -, -, hjoined⟩
    · show session.pending = [] ∨ Chain session.pending
      rw [hp]
      exact h.chain
    · exact Or.inl hp
    · exact Or.inr (Chain.of_joined h.chain hjoined).1
  · intro part hpart
    rcases hserved.pending with hp | hp | ⟨last, hbody, -, hbase, hvalid, hjoined⟩
    · exact hlater.pending part (hp ▸ hpart)
    · exact absurd (hp ▸ hpart) List.not_mem_nil
    · rcases (Chain.of_joined h.chain hjoined).2.2 part hpart with hold | rfl
      · exact hlater.pending part hold
      · refine ⟨⟨frame.requestId, stamp, by rw [hasked, hbody]⟩, ?_, ?_⟩
        · rw [hbase]; exact hserved.ext.version_le
        · rw [hbase, hserved.ext.imageAt (le_refl _)]
          exact Server.blocksFit_of_valid hvalid

end Conn

-- The commit ids are distinct, also from those of other instances, and not empty.
structure Net.Distinct (net : Net) : Prop where
  injective : Function.Injective net.ids
  nonempty : ∀ k, net.ids k ≠ []
  others : ∀ n, ∀ move ∈ (net.turns n).moves, ∀ commitId pageCount blocks,
    move = .Commit commitId pageCount blocks → ∀ k, net.ids k ≠ commitId

-- A commit of the client in the log: all its parts, in order, on top of its base version.
structure Complete (asked : Asked) (image : Image) (version : Nat) (parts : List Pb.Commit) :
    Prop where
  chain : Chain parts
  last : ∃ last, parts.getLast? = some last ∧ last.more = false ∧ last.baseVersion = version
  sent : ∀ part ∈ parts, asked.Sent part
  fits : ∀ part ∈ parts, BlocksFit image.pageSize part.pageCount part.blocks

structure Net.Wf (net : Net) (nextId : Nat) : Prop where
  distinct : net.Distinct
  conns : ∀ conn ∈ net.conns, conn.Wf net.server net.asked
  bound : ∀ id, net.asked id ≠ none → id ≤ nextId
  log : ∀ j parts, net.server.log[j]? = some (.Commit parts) →
    Complete net.asked (net.server.imageAt j) j parts
  others : ∀ j commitId pageCount blocks,
    net.server.log[j]? = some (.Other commitId pageCount blocks) →
      BlocksFit (net.server.imageAt j).pageSize pageCount blocks ∧ ∀ k, net.ids k ≠ commitId
  drawn : ∀ part, net.asked.Sent part → ∃ k < net.drawn, part.commitId = net.ids k

-- What can only grow.
structure Net.Later (before after : Net) : Prop where
  ext : before.server.Extends after.server
  asked : before.asked.Grows after.asked
  ids : after.ids = before.ids
  turns : after.turns = before.turns
  drawn : before.drawn ≤ after.drawn

namespace Net

theorem Later.refl (net : Net) : net.Later net :=
  ⟨Server.Extends.refl _, fun _ _ h => h, rfl, rfl, le_refl _⟩

theorem Later.trans {a b c : Net} (hab : a.Later b) (hbc : b.Later c) : a.Later c :=
  ⟨hab.ext.trans hbc.ext, fun id request h => hbc.asked _ _ (hab.asked id request h),
    hbc.ids.trans hab.ids, hbc.turns.trans hab.turns, hab.drawn.trans hbc.drawn⟩

variable {net : Net} {nextId : Nat}

-- A step of the server that leaves the log alone.
theorem Wf.of_log_eq (h : net.Wf nextId) {server : Server} (hext : net.server.Extends server)
    (hlog : server.log = net.server.log) {conns : List Conn}
    (hconns : ∀ conn ∈ conns, conn.Wf server net.asked) :
    ({ net with server := server, conns := conns } : Net).Wf nextId where
  distinct := ⟨h.distinct.injective, h.distinct.nonempty, h.distinct.others⟩
  conns := hconns
  bound := h.bound
  log j parts hj := by
    have hj' : net.server.log[j]? = some (.Commit parts) := hlog ▸ hj
    have hle : j ≤ net.server.version := Nat.le_of_lt (List.getElem?_eq_some_iff.mp hj').1
    rw [hext.imageAt hle]
    exact h.log j parts hj'
  others j commitId pageCount blocks hj := by
    have hj' : net.server.log[j]? = some (.Other commitId pageCount blocks) := hlog ▸ hj
    have hle : j ≤ net.server.version := Nat.le_of_lt (List.getElem?_eq_some_iff.mp hj').1
    rw [hext.imageAt hle]
    exact h.others j commitId pageCount blocks hj'
  drawn := h.drawn

-- A step of the server that adds an entry.
theorem Wf.of_append (h : net.Wf nextId) (server : Server) (entry : Entry)
    (hsize : server.pageSize = net.server.pageSize) (hlog : server.log = net.server.log ++ [entry])
    {conns : List Conn} (hconns : ∀ conn ∈ conns, conn.Wf server net.asked)
    (hcommit : ∀ parts, entry = .Commit parts →
      Complete net.asked net.server.image net.server.version parts)
    (hother : ∀ commitId pageCount blocks, entry = .Other commitId pageCount blocks →
      BlocksFit net.server.image.pageSize pageCount blocks ∧ ∀ k, net.ids k ≠ commitId) :
    ({ net with server := server, conns := conns } : Net).Wf nextId := by
  have hext : net.server.Extends server := ⟨hsize, by rw [hlog]; exact List.prefix_append _ _⟩
  have hsplit : ∀ j e, server.log[j]? = some e →
      net.server.log[j]? = some e ∨ j = net.server.version ∧ e = entry := by
    intro j e hj
    rw [hlog] at hj
    by_cases hlt : j < net.server.log.length
    · rw [List.getElem?_append_left hlt] at hj
      exact Or.inl hj
    · have hlen := (List.getElem?_eq_some_iff.mp hj).1
      rw [List.length_append, List.length_singleton] at hlen
      have heq : j = net.server.log.length := by omega
      subst heq
      rw [List.getElem?_concat_length, Option.some.injEq] at hj
      exact Or.inr ⟨rfl, hj.symm⟩
  have himage : ∀ j e, net.server.log[j]? = some e → server.imageAt j = net.server.imageAt j :=
    fun j e hj => hext.imageAt (Nat.le_of_lt (List.getElem?_eq_some_iff.mp hj).1)
  refine ⟨⟨h.distinct.injective, h.distinct.nonempty, h.distinct.others⟩, hconns, h.bound,
    ?_, ?_, h.drawn⟩
  · intro j parts hj
    rcases hsplit j _ hj with hold | ⟨rfl, hnew⟩
    · show Complete net.asked (server.imageAt j) j parts
      rw [himage j _ hold]
      exact h.log j parts hold
    · show Complete net.asked (server.imageAt net.server.version) _ parts
      rw [hext.imageAt (le_refl _)]
      exact hcommit parts hnew.symm
  · intro j commitId pageCount blocks hj
    rcases hsplit j _ hj with hold | ⟨rfl, hnew⟩
    · show BlocksFit (server.imageAt j).pageSize pageCount blocks ∧ _
      rw [himage j _ hold]
      exact h.others j commitId pageCount blocks hold
    · show BlocksFit (server.imageAt net.server.version).pageSize pageCount blocks ∧ _
      rw [hext.imageAt (le_refl _)]
      exact hother commitId pageCount blocks hnew.symm

theorem Wf.conns_extend (h : net.Wf nextId) {server : Server} (hext : net.server.Extends server) :
    ∀ conn ∈ net.conns, conn.Wf server net.asked :=
  fun conn hconn => (h.conns conn hconn).extend hext fun _ _ h => h

theorem later_of_server {server : Server} {conns : List Conn} (hext : net.server.Extends server) :
    net.Later { net with server := server, conns := conns } :=
  ⟨hext, fun _ _ h => h, rfl, rfl, le_refl _⟩

theorem serve_wf (h : net.Wf nextId) (index : Nat) (fate : Fate) :
    (net.serve index fate).Wf nextId ∧ net.Later (net.serve index fate) := by
  unfold serve
  cases hconn : net.conns[index]? with
  | none => exact ⟨h, Later.refl _⟩
  | some conn =>
      dsimp only
      cases hframe : conn.sent[conn.handled]? with
      | none => exact ⟨h, Later.refl _⟩
      | some frame =>
          dsimp only
          have hmem := List.mem_of_getElem? hconn
          have hwf := h.conns conn hmem
          have hserved : net.server.Served conn.session frame.body _ _ _ :=
            Server.serve_served frame.body fate hwf.chain
          generalize net.server.serve conn.session frame.body fate = result at hserved ⊢
          obtain ⟨server, session, bodies⟩ := result
          have hnew := hwf.serve hframe hserved
          have hconns : ∀ c ∈ net.conns.set index
              { conn with
                handled := conn.handled + 1
                session := session
                answers := conn.answers ++ Conn.framed frame.requestId bodies },
              c.Wf server net.asked := by
            intro c hc
            rcases List.mem_or_eq_of_mem_set hc with hold | rfl
            · exact h.conns_extend hserved.ext c hold
            · exact hnew
          refine ⟨?_, later_of_server hserved.ext⟩
          rcases hserved.log with hlog | ⟨part, parts, hbody, hmore, hbase, hvalid, hjoined, hlog⟩
          · exact h.of_log_eq hserved.ext hlog hconns
          · refine h.of_append server _ hserved.ext.pageSize hlog hconns ?_ (fun _ _ _ he => by cases he)
            rintro _ ⟨⟩
            obtain ⟨hchain, hlast, hmembers⟩ := Chain.of_joined hwf.chain hjoined
            obtain ⟨-, stamp, -, hasked⟩ := hwf.known frame (List.mem_of_getElem? hframe)
            refine ⟨hchain, ⟨part, hlast, hmore, hbase⟩, ?_, ?_⟩
            · intro p hp
              rcases hmembers p hp with hold | rfl
              · exact (hwf.pending p hold).1
              · exact ⟨frame.requestId, stamp, by rw [hasked, hbody]⟩
            · intro p hp
              rcases hmembers p hp with hold | rfl
              · have hpbase := (hchain.same part hlast p hp).2.2.1
                have hfit := (hwf.pending p hold).2.2
                rw [hpbase, hbase] at hfit
                exact hfit
              · exact Server.blocksFit_of_valid hvalid

theorem mem_modify {α : Type} {change : α → α} {list : List α} {i : Nat} {value : α}
    (h : value ∈ list.modify i change) : value ∈ list ∨ ∃ old ∈ list, value = change old := by
  obtain ⟨j, hj⟩ := List.mem_iff_getElem?.mp h
  rw [List.getElem?_modify] at hj
  obtain ⟨old, hold, rfl⟩ := Option.map_eq_some_iff.mp hj
  have hmem := List.mem_of_getElem? hold
  split_ifs
  · exact Or.inr ⟨old, hmem, rfl⟩
  · exact Or.inl hmem

theorem push_wf (h : net.Wf nextId) (index : Nat) (revoked : Pb.LeaseRevoked) :
    (net.push index revoked).Wf nextId ∧ net.Later (net.push index revoked) := by
  refine ⟨h.of_log_eq (Server.Extends.refl _) rfl ?_, later_of_server (Server.Extends.refl _)⟩
  intro conn hconn
  rcases mem_modify hconn with hold | ⟨old, hold, rfl⟩
  · exact h.conns conn hold
  · exact (h.conns old hold).push _

theorem move_wf (h : net.Wf nextId) (move : Move)
    (hmove : ∀ commitId pageCount blocks, move = .Commit commitId pageCount blocks →
      ∀ k, net.ids k ≠ commitId) :
    (net.move move).Wf nextId ∧ net.Later (net.move move) := by
  cases move with
  | Serve conn fate => exact serve_wf h conn fate
  | Takeover leaseId =>
      have hext : net.server.Extends { net.server with
          epoch := net.server.epoch + 1, lease := some (leaseId, net.server.epoch + 1) } :=
        ⟨rfl, List.prefix_rfl⟩
      exact ⟨h.of_log_eq hext rfl (h.conns_extend hext), later_of_server hext⟩
  | Commit commitId pageCount blocks =>
      simp only [move]
      split_ifs with hfits
      · have hext := Server.extends_append net.server (.Other commitId pageCount blocks)
        refine ⟨h.of_append
          { net.server with log := net.server.log ++ [.Other commitId pageCount blocks] }
          (.Other commitId pageCount blocks) rfl rfl (h.conns_extend hext)
          (fun _ he => by cases he) ?_, later_of_server hext⟩
        rintro _ _ _ ⟨⟩
        refine ⟨fun block hblock => ?_, hmove _ _ _ rfl⟩
        have hfit := List.all_eq_true.mp hfits block hblock
        simpa only [Bool.and_eq_true, decide_eq_true_eq] using hfit
      · exact ⟨h, Later.refl _⟩
  | Delete pageSize =>
      let server : Server := { net.server with
        log := net.server.log ++ [.Deleted pageSize], epoch := net.server.epoch + 1, lease := none }
      have hext : net.server.Extends server := ⟨rfl, List.prefix_append _ _⟩
      exact ⟨h.of_append server (.Deleted pageSize) rfl rfl (h.conns_extend hext)
        (fun _ he => by cases he) (fun _ _ _ he => by cases he), later_of_server hext⟩
  | Push conn revoked => exact push_wf h conn revoked

theorem moves_wf (h : net.Wf nextId) (moves : List Move)
    (hmoves : ∀ move ∈ moves, ∀ commitId pageCount blocks,
      move = .Commit commitId pageCount blocks → ∀ k, net.ids k ≠ commitId) :
    (net.moves moves).Wf nextId ∧ net.Later (net.moves moves) := by
  induction moves generalizing net with
  | nil => exact ⟨h, Later.refl _⟩
  | cons move rest ih =>
      obtain ⟨hwf, hlater⟩ := move_wf h move (hmoves move List.mem_cons_self)
      obtain ⟨hwf', hlater'⟩ := ih hwf fun m hm => by
        rw [hlater.ids]
        exact hmoves m (List.mem_cons_of_mem _ hm)
      exact ⟨hwf', hlater.trans hlater'⟩

theorem tick_wf (h : net.Wf nextId) : net.tick.2.Wf nextId ∧ net.Later net.tick.2 := by
  have hnext : ({ net with turn := net.turn + 1 } : Net).Wf nextId :=
    ⟨⟨h.distinct.injective, h.distinct.nonempty, h.distinct.others⟩, h.conns, h.bound,
      h.log, h.others, h.drawn⟩
  obtain ⟨hwf, hlater⟩ := moves_wf hnext _ (h.distinct.others net.turn)
  exact ⟨hwf, hlater.ext, hlater.asked, hlater.ids, hlater.turns, hlater.drawn⟩

theorem Wf.sized (h : net.Wf nextId) (version : Nat) : (net.server.imageAt version).Sized := by
  induction version with
  | zero => exact Image.sized_empty _
  | succ v ih =>
      cases hentry : net.server.log[v]? with
      | none =>
          have hlen : net.server.log.length ≤ v := List.getElem?_eq_none_iff.mp hentry
          unfold Server.imageAt at ih ⊢
          rw [List.take_of_length_le (by omega)]
          rwa [List.take_of_length_le hlen] at ih
      | some entry =>
          rw [Server.imageAt_succ _ hentry]
          cases entry with
          | Commit parts =>
              have hcomplete := h.log v parts hentry
              obtain ⟨last, hlast, -⟩ := hcomplete.last
              obtain ⟨first, rest, rfl⟩ := List.exists_cons_of_ne_nil hcomplete.chain.ne_nil
              refine ih.store fun block hblock => ?_
              obtain ⟨part, hpart, hin⟩ := List.mem_flatMap.mp hblock
              have hsame := hcomplete.chain.same last hlast
              have hcount : part.pageCount = first.pageCount :=
                (hsame part hpart).2.2.2.trans (hsame first List.mem_cons_self).2.2.2.symm
              have hfit := hcomplete.fits part hpart block hin
              rw [hcount] at hfit
              exact hfit
          | Other commitId pageCount blocks => exact ih.store (h.others v _ _ _ hentry).1
          | Deleted pageSize => exact Image.sized_empty _

end Net

end RemoteVfs
