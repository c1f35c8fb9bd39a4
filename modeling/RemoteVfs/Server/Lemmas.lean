import RemoteVfs.Server
import Mathlib.Data.List.Infix

namespace RemoteVfs

open Base

-- Every block has the page size.
def Image.Sized (image : Image) : Prop := ∀ i, (image.block i).length = image.pageSize

theorem Image.sized_empty (pageSize : Nat) : (Image.empty pageSize).Sized :=
  fun _ => List.length_replicate

def BlocksFit (pageSize pageCount : Nat) (blocks : List Pb.Block) : Prop :=
  ∀ block ∈ blocks, block.index < pageCount ∧ block.data.length = pageSize

theorem Image.Sized.store {image : Image} (h : image.Sized) {pageCount : Nat}
    {blocks : List Pb.Block} (hfit : BlocksFit image.pageSize pageCount blocks) :
    (image.store pageCount blocks).Sized := by
  intro i
  simp only [Image.store]
  split_ifs with hi
  · cases hfind : blocks.reverse.find? (·.index = i) with
    | none => simpa using h i
    | some block =>
        have hmem : block ∈ blocks := List.mem_reverse.mp (List.mem_of_find?_eq_some hfind)
        simpa using (hfit block hmem).2
  · exact List.length_replicate

-- The parts of a commit in the order in which the server accepts them.
inductive Chain : List Pb.Commit → Prop where
  | First (part : Pb.Commit) (h : part.part = 0) : Chain [part]
  | Next (parts : List Pb.Commit) (previous part : Pb.Commit) (hchain : Chain parts)
      (hlast : parts.getLast? = some previous) (hcontinues : Server.continues previous part)
      (hpart : part.part = parts.length) : Chain (parts ++ [part])

namespace Chain

variable {parts : List Pb.Commit}

theorem ne_nil (h : Chain parts) : parts ≠ [] := by
  cases h <;> simp

theorem part_eq (h : Chain parts) (i : Nat) (part : Pb.Commit) (hi : parts[i]? = some part) :
    part.part = i := by
  induction h generalizing i with
  | First first h0 =>
      cases i with
      | zero => simp only [List.getElem?_cons_zero, Option.some.injEq] at hi; rw [← hi, h0]
      | succ i => simp at hi
  | Next parts previous next _ _ _ hnumber ih =>
      by_cases hlt : i < parts.length
      · rw [List.getElem?_append_left hlt] at hi
        exact ih i hi
      · rw [List.getElem?_append_right (by omega)] at hi
        have h0 : i - parts.length = 0 := by
          by_contra hne
          obtain ⟨n, hn⟩ : ∃ n, i - parts.length = n + 1 := ⟨i - parts.length - 1, by omega⟩
          rw [hn] at hi
          simp at hi
        rw [h0, List.getElem?_cons_zero, Option.some.injEq] at hi
        rw [← hi, hnumber]
        omega

-- All parts carry the fields of the last one.
theorem same (h : Chain parts) (last : Pb.Commit) (hlast : parts.getLast? = some last) :
    ∀ part ∈ parts, part.commitId = last.commitId ∧ part.leaseEpoch = last.leaseEpoch ∧
      part.baseVersion = last.baseVersion ∧ part.pageCount = last.pageCount := by
  induction h generalizing last with
  | First first _ =>
      intro part hpart
      simp only [List.getLast?_singleton, Option.some.injEq] at hlast
      rw [List.mem_singleton.mp hpart, hlast]
      simp
  | Next parts previous next _ hprevious hcontinues _ ih =>
      simp only [List.getLast?_append, List.getLast?_singleton, Option.some_or,
        Option.some.injEq] at hlast
      subst hlast
      simp only [Server.continues, Bool.and_eq_true, beq_iff_eq] at hcontinues
      obtain ⟨⟨⟨⟨hid, hepoch⟩, hbase⟩, hcount⟩, -⟩ := hcontinues
      intro part hpart
      rcases List.mem_append.mp hpart with hpart | hpart
      · obtain ⟨h1, h2, h3, h4⟩ := ih previous hprevious part hpart
        exact ⟨h1.trans hid, h2.trans hepoch, h3.trans hbase, h4.trans hcount⟩
      · rw [List.mem_singleton.mp hpart]
        simp

theorem of_joined {pending : List Pb.Commit} {part : Pb.Commit}
    (hpending : pending = [] ∨ Chain pending) (h : Server.joined pending part = some parts) :
    Chain parts ∧ parts.getLast? = some part ∧ ∀ p ∈ parts, p ∈ pending ∨ p = part := by
  unfold Server.joined at h
  split_ifs at h with h0
  · cases h
    exact ⟨.First part h0, rfl, by simp⟩
  · cases hlast : pending.getLast? with
    | none => rw [hlast] at h; cases h
    | some previous =>
        rw [hlast] at h
        simp only [Bool.and_eq_true, beq_iff_eq] at h
        split_ifs at h with hc
        cases h
        have hchain : Chain pending := by
          rcases hpending with rfl | hchain
          · simp at hlast
          · exact hchain
        exact ⟨.Next pending previous part hchain hlast hc.1 hc.2, by simp, by simp⟩

end Chain

-- A complete chain made of the parts of one commit is that commit.
theorem Chain.eq_of_subset {parts own : List Pb.Commit} (h : Chain parts) (last : Pb.Commit)
    (hlast : parts.getLast? = some last) (hmore : last.more = false)
    (hsub : ∀ part ∈ parts, part ∈ own)
    (hown : ∀ i part, own[i]? = some part →
      part.part = i ∧ part.more = decide (i + 1 < own.length)) :
    parts = own := by
  have hget : ∀ i < parts.length, parts[i]? = own[i]? := by
    intro i hi
    have hsome : parts[i]? = some parts[i] := List.getElem?_eq_getElem hi
    obtain ⟨j, hj⟩ := List.mem_iff_getElem?.mp (hsub _ (List.getElem_mem hi))
    have hnumber := h.part_eq i _ hsome
    have hindex := (hown j _ hj).1
    obtain rfl : j = i := hindex.symm.trans hnumber
    rw [hsome, hj]
  have hlen : parts.length = own.length := by
    have hpos : 0 < parts.length := List.length_pos_iff.mpr h.ne_nil
    have hend : parts[parts.length - 1]? = some last := by
      rw [← hlast, List.getLast?_eq_getElem?]
    rw [hget _ (by omega)] at hend
    have hflag := (hown _ _ hend).2
    have hbound := (List.getElem?_eq_some_iff.mp hend).1
    rw [hmore] at hflag
    have := of_decide_eq_false hflag.symm
    omega
  apply List.ext_getElem?
  intro i
  by_cases hi : i < parts.length
  · exact hget i hi
  · rw [List.getElem?_eq_none (by omega), List.getElem?_eq_none (by omega)]

namespace Server

-- The same database at a later time.
structure Extends (before after : Server) : Prop where
  pageSize : after.pageSize = before.pageSize
  log : before.log <+: after.log

namespace Extends

variable {a b c : Server}

theorem refl (a : Server) : Extends a a := ⟨rfl, List.prefix_rfl⟩

theorem trans (hab : Extends a b) (hbc : Extends b c) : Extends a c :=
  ⟨hbc.pageSize.trans hab.pageSize, hab.log.trans hbc.log⟩

theorem version_le (h : Extends a b) : a.version ≤ b.version := h.log.length_le

theorem take (h : Extends a b) {v : Nat} (hv : v ≤ a.version) :
    b.log.take v = a.log.take v := by
  obtain ⟨rest, hrest⟩ := h.log
  rw [← hrest, List.take_append_of_le_length hv]

theorem imageAt (h : Extends a b) {v : Nat} (hv : v ≤ a.version) :
    b.imageAt v = a.imageAt v := by
  simp only [Server.imageAt, h.take hv, h.pageSize]

theorem getElem? (h : Extends a b) {j : Nat} {entry : Entry} (hj : a.log[j]? = some entry) :
    b.log[j]? = some entry := by
  obtain ⟨rest, hrest⟩ := h.log
  have hlt := (List.getElem?_eq_some_iff.mp hj).1
  rw [← hrest, List.getElem?_append_left hlt, hj]

end Extends

theorem extends_append (server : Server) (entry : Entry) :
    Extends server { server with log := server.log ++ [entry] } :=
  ⟨rfl, List.prefix_append _ _⟩

theorem imageAt_succ (server : Server) {v : Nat} {entry : Entry} (h : server.log[v]? = some entry) :
    server.imageAt (v + 1) = (server.imageAt v).apply entry := by
  unfold imageAt imageOf
  rw [List.take_add_one, h]
  simp

-- A request of the client that is answered with what was true of the database at that
-- moment. `stamp` is the version at which it was sent.
structure OpenedAt (server : Server) (stamp : Nat) (opened : Pb.Opened) : Prop where
  later : stamp ≤ opened.version
  reached : opened.version ≤ server.version
  commitId : opened.lastCommitId = lastCommitId (server.log.take opened.version)
  pageSize : opened.pageSize = (server.imageAt opened.version).pageSize
  pageCount : opened.pageCount = (server.imageAt opened.version).pageCount

structure AckedAt (server : Server) (part : Pb.Commit) (ack : Pb.CommitAck) : Prop where
  last : part.more = false
  version : ack.version = part.baseVersion + 1
  applied : ∃ entry, server.log[part.baseVersion]? = some entry ∧ entry.commitId = part.commitId

structure ChangesAt (server : Server) (request : Pb.Changed) (changes : Pb.Changes) : Prop where
  reached : changes.toVersion ≤ server.version
  covers : changes.complete → ∀ i < (server.imageAt changes.toVersion).pageCount,
    (server.imageAt request.fromVersion).block i = (server.imageAt changes.toVersion).block i ∨
      i ∈ changes.blocks

-- All that the server may answer to a request: nothing yet, an error, or the truth.
def Answers (server : Server) (stamp : Nat) (body : Pb.ClientBody) (bodies : List Pb.ServerBody) :
    Prop :=
  bodies = [] ∨ (∃ e, bodies = [.Error e]) ∨
    match body with
    | .Open _ => ∃ opened, bodies = [.Opened opened] ∧ OpenedAt server stamp opened
    | .Fetch request => request.version ≤ server.version ∧
        ∃ cuts, bodies = (pages cuts (server.imageAt request.version) request).map .Pages
    | .Commit part => ∃ ack, bodies = [.CommitAck ack] ∧ AckedAt server part ack
    | .Changed request => ∃ changes, bodies = [.Changes changes] ∧
        (request.fromVersion ≤ stamp → ChangesAt server request changes)
    | _ => ∃ answer, bodies = [answer]

theorem Answers.extend {a b : Server} {stamp : Nat} {body : Pb.ClientBody}
    {bodies : List Pb.ServerBody} (h : Answers a stamp body bodies) (hext : Extends a b)
    (hstamp : stamp ≤ a.version) : Answers b stamp body bodies := by
  rcases h with h | h | h
  · exact Or.inl h
  · exact Or.inr (Or.inl h)
  refine Or.inr (Or.inr ?_)
  have hle := hext.version_le
  cases body with
  | Open request =>
      obtain ⟨opened, rfl, hat⟩ := h
      refine ⟨opened, rfl, hat.later, hat.reached.trans hle, ?_, ?_, ?_⟩
      · rw [hext.take hat.reached]; exact hat.commitId
      · rw [hext.imageAt hat.reached]; exact hat.pageSize
      · rw [hext.imageAt hat.reached]; exact hat.pageCount
  | Fetch request =>
      obtain ⟨hversion, cuts, rfl⟩ := h
      exact ⟨hversion.trans hle, cuts, by rw [hext.imageAt hversion]⟩
  | Commit part =>
      obtain ⟨ack, rfl, hat⟩ := h
      obtain ⟨entry, hentry, hid⟩ := hat.applied
      exact ⟨ack, rfl, hat.last, hat.version, entry, hext.getElem? hentry, hid⟩
  | Changed request =>
      obtain ⟨changes, rfl, hat⟩ := h
      refine ⟨changes, rfl, fun hfrom => ⟨(hat hfrom).reached.trans hle, ?_⟩⟩
      rw [hext.imageAt (hat hfrom).reached, hext.imageAt (hfrom.trans hstamp)]
      exact (hat hfrom).covers
  | _ => exact h

theorem blocksFit_of_valid {image : Image} {part : Pb.Commit} (h : validBlocks image part) :
    BlocksFit image.pageSize part.pageCount part.blocks := by
  intro block hblock
  have hfit := List.all_eq_true.mp h block hblock
  simpa only [Bool.and_eq_true, decide_eq_true_eq] using hfit

-- What handling one request does, whatever the request and its fate.
structure Served (before : Server) (session : Session) (body : Pb.ClientBody) (after : Server)
    (session' : Session) (bodies : List Pb.ServerBody) : Prop where
  ext : Extends before after
  answers : ∀ stamp ≤ before.version, Answers after stamp body bodies
  log : after.log = before.log ∨ ∃ part parts, body = .Commit part ∧ part.more = false ∧
    part.baseVersion = before.version ∧ validBlocks before.image part ∧
    joined session.pending part = some parts ∧ after.log = before.log ++ [.Commit parts]
  pending : session'.pending = session.pending ∨ session'.pending = [] ∨
    ∃ part, body = .Commit part ∧ part.more = true ∧ part.baseVersion = before.version ∧
      validBlocks before.image part ∧ joined session.pending part = some session'.pending

variable {server : Server} {session : Session}

-- A request that leaves the database and the pending commit alone.
theorem Served.of_same {body : Pb.ClientBody} {after : Server} {session' : Session}
    {bodies : List Pb.ServerBody} (hsize : after.pageSize = server.pageSize)
    (hlog : after.log = server.log) (hpending : session'.pending = session.pending)
    (hanswers : ∀ stamp ≤ server.version, Answers after stamp body bodies) :
    Served server session body after session' bodies :=
  ⟨⟨hsize, by rw [hlog]⟩, hanswers, Or.inl hlog, Or.inl hpending⟩

theorem Served.of_error {body : Pb.ClientBody} {session' : Session} (e : Pb.Error)
    (hpending : session'.pending = session.pending ∨ session'.pending = []) :
    Served server session body server session' [.Error e] :=
  ⟨Extends.refl _, fun _ _ => Or.inr (Or.inl ⟨e, rfl⟩), Or.inl rfl,
    hpending.elim Or.inl fun h => Or.inr (Or.inl h)⟩

theorem openedAt_opened (server : Server) (lease : Bytes × Nat) {stamp : Nat}
    (hstamp : stamp ≤ server.version) : OpenedAt server stamp (server.opened lease) where
  later := hstamp
  reached := le_refl _
  commitId := by simp [opened, version]
  pageSize := rfl
  pageCount := rfl

theorem openDb_served (request : Pb.Open) (fate : Fate) :
    Served server session (.Open request) (server.openDb session request fate).1
      (server.openDb session request fate).2.1 (server.openDb session request fate).2.2 := by
  unfold openDb
  cases request.resume with
  | some resume =>
      dsimp only
      split_ifs
      · exact Served.of_same rfl rfl rfl fun stamp hstamp =>
          Or.inr (Or.inr ⟨_, rfl, openedAt_opened server _ hstamp⟩)
      · exact Served.of_error _ (Or.inl rfl)
  | none =>
      dsimp only
      split_ifs
      · exact Served.of_error _ (Or.inl rfl)
      · exact Served.of_same rfl rfl rfl fun stamp hstamp =>
          Or.inr (Or.inr ⟨_, rfl, openedAt_opened _ _ hstamp⟩)

theorem fetch_served (request : Pb.Fetch) (fate : Fate) :
    Served server session (.Fetch request) server session (server.fetch session request fate) := by
  unfold fetch
  split_ifs with hopen hversion
  · exact Served.of_error _ (Or.inl rfl)
  · exact Served.of_error _ (Or.inl rfl)
  · rw [not_not] at hversion
    refine Served.of_same rfl rfl rfl fun stamp _ => Or.inr (Or.inr ⟨le_of_eq hversion, fate.cuts, ?_⟩)
    rw [hversion]
    rfl

theorem changes_served (request : Pb.Changed) (fate : Fate) :
    Served server session (.Changed request) server session
      [.Changes (server.changes request.fromVersion fate)] := by
  refine Served.of_same rfl rfl rfl fun stamp hstamp => Or.inr (Or.inr ⟨_, rfl, fun _ => ?_⟩)
  unfold changes
  split_ifs with hcomplete
  · refine ⟨le_refl _, fun _ i hi => ?_⟩
    rw [Bool.and_eq_true] at hcomplete
    have hcovers := List.all_eq_true.mp hcomplete.2 i (List.mem_range.mpr hi)
    rw [Bool.or_eq_true, decide_eq_true_eq, decide_eq_true_eq] at hcovers
    exact hcovers
  · exact ⟨le_refl _, fun h => by cases h⟩

theorem ackedAt_repeated {part : Pb.Commit} (hmore : part.more = false)
    (h : server.repeated part) : AckedAt server part ⟨part.commitId, server.version⟩ := by
  simp only [repeated, Bool.and_eq_true, decide_eq_true_eq] at h
  obtain ⟨hid, hversion⟩ := h
  refine ⟨hmore, hversion, ?_⟩
  have hlast : server.log.getLast? = server.log[part.baseVersion]? := by
    rw [List.getLast?_eq_getElem?]
    congr 1
    unfold version at hversion
    omega
  obtain ⟨entry, hentry⟩ : ∃ entry, server.log[part.baseVersion]? = some entry :=
    ⟨_, List.getElem?_eq_getElem (by unfold version at hversion; omega)⟩
  refine ⟨entry, hentry, ?_⟩
  rw [lastCommitId, hlast, hentry] at hid
  exact hid

theorem commitId_of_chain {parts : List Pb.Commit} {part : Pb.Commit} (h : Chain parts)
    (hlast : parts.getLast? = some part) : (Entry.Commit parts).commitId = part.commitId := by
  cases parts with
  | nil => exact absurd rfl h.ne_nil
  | cons first rest => exact (h.same part hlast first List.mem_cons_self).1

theorem accept_served {part : Pb.Commit} (hbase : part.baseVersion = server.version)
    (hvalid : validBlocks server.image part)
    (hpending : session.pending = [] ∨ Chain session.pending) :
    Served server session (.Commit part) (server.accept session part).1
      (server.accept session part).2.1 (server.accept session part).2.2 := by
  unfold accept
  cases hjoined : joined session.pending part with
  | none => exact Served.of_error _ (Or.inr rfl)
  | some parts =>
      dsimp only
      split_ifs with hmore
      · refine ⟨Extends.refl _, fun _ _ => Or.inl rfl, Or.inl rfl, Or.inr (Or.inr ?_)⟩
        exact ⟨part, rfl, hmore, hbase, hvalid, hjoined⟩
      · rw [Bool.not_eq_true] at hmore
        obtain ⟨hchain, hlast, -⟩ := Chain.of_joined hpending hjoined
        refine ⟨extends_append _ _, fun _ _ => Or.inr (Or.inr ⟨_, rfl, hmore, ?_, ?_⟩),
          Or.inr ⟨part, parts, rfl, hmore, hbase, hvalid, hjoined, rfl⟩, Or.inr (Or.inl rfl)⟩
        · rw [hbase]
        · refine ⟨.Commit parts, ?_, commitId_of_chain hchain hlast⟩
          rw [hbase]
          exact List.getElem?_concat_length

theorem commit_served (part : Pb.Commit) (hpending : session.pending = [] ∨ Chain session.pending) :
    Served server session (.Commit part) (server.commit session part).1
      (server.commit session part).2.1 (server.commit session part).2.2 := by
  unfold commit
  split_ifs with hopen hlease hrepeated hmore hbase hvalid
  · exact Served.of_error _ (Or.inr rfl)
  · exact Served.of_error _ (Or.inr rfl)
  · exact Served.of_same rfl rfl rfl fun _ _ => Or.inl rfl
  · rw [Bool.not_eq_true] at hmore
    exact Served.of_same rfl rfl rfl fun _ _ =>
      Or.inr (Or.inr ⟨_, rfl, ackedAt_repeated hmore hrepeated⟩)
  · exact Served.of_error _ (Or.inr rfl)
  · exact Served.of_error _ (Or.inr rfl)
  · exact accept_served (not_not.mp hbase) (by simpa using hvalid) hpending

theorem effect_served (body : Pb.ClientBody) (fate : Fate)
    (hpending : session.pending = [] ∨ Chain session.pending) :
    Served server session body (server.effect session body fate).1
      (server.effect session body fate).2.1 (server.effect session body fate).2.2 := by
  have hother : ∀ (body : Pb.ClientBody) (session' : Session) (answer : Pb.ServerBody),
      session'.pending = session.pending →
      (∀ stamp, Answers server stamp body [answer]) →
      Served server session body server session' [answer] :=
    fun _ _ _ hp ha => Served.of_same rfl rfl hp fun stamp _ => ha stamp
  cases body with
  | Hello hello => exact hother _ _ _ rfl fun _ => Or.inr (Or.inr ⟨_, rfl⟩)
  | Proof proof => exact hother _ _ _ rfl fun _ => Or.inr (Or.inr ⟨_, rfl⟩)
  | _ =>
      simp only [effect]
      split_ifs
      all_goals first
        | exact Served.of_error _ (Or.inl rfl)
        | exact openDb_served _ fate
        | exact fetch_served _ fate
        | exact commit_served _ hpending
        | exact changes_served _ fate
        | (unfold closeDb
           split_ifs
           · exact Served.of_same rfl rfl rfl fun _ _ => Or.inr (Or.inr ⟨_, rfl⟩)
           · exact Served.of_error _ (Or.inl rfl))
        | exact hother _ _ _ rfl fun _ => Or.inr (Or.inr ⟨_, rfl⟩)

theorem serve_served (body : Pb.ClientBody) (fate : Fate)
    (hpending : session.pending = [] ∨ Chain session.pending) :
    Served server session body (server.serve session body fate).1
      (server.serve session body fate).2.1 (server.serve session body fate).2.2 := by
  have heffect : Served server session body _ _ _ := effect_served body fate hpending
  unfold serve
  cases fate.error with
  | none => exact heffect
  | some e =>
      dsimp only
      split_ifs
      · exact ⟨heffect.ext, fun _ _ => Or.inr (Or.inl ⟨e, rfl⟩), heffect.log, heffect.pending⟩
      · apply Served.of_error
        cases body with
        | Commit part => exact Or.inr rfl
        | _ => exact Or.inl rfl

end Server

end RemoteVfs
