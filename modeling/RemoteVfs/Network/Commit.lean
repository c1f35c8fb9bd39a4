import RemoteVfs.Network.Client

namespace RemoteVfs.Link

open Base Base.Prog

variable {P : Pb.Commit → Prop} {D : Disk → Disk → Prop} [IsPreorder Disk D] (setup : Net.Setup)

-- The last of the ids is the one of the last part.
def LastAsked (version : Nat) (parts : List Pb.Commit) (ids : List Nat) (link : Link Net) : Prop :=
  ∀ last, ids.getLast? = some last →
    ∃ part, parts.getLast? = some part ∧ Asks version last (.Commit part) link

theorem lasting_lastAsked (version : Nat) (parts : List Pb.Commit) (ids : List Nat) :
    Lasting (LastAsked version parts ids) := by
  intro before after hlater h last hlast
  obtain ⟨part, hpart, hasks⟩ := h last hlast
  exact ⟨part, hpart, hasks.later hlater⟩

theorem sendParts_spec (start : Link Net) {fact : Link Net → Prop} (hfact : Lasting fact)
    (parts : List Pb.Commit) (hparts : ∀ part ∈ parts, P part) :
    Triple (fun link => Kept P D start link ∧ fact link) (Client.sendParts (Net.env setup) parts)
      (Ends (Kept P D start) fun ids link => fact link ∧ ids.length = parts.length ∧
        LastAsked start.world.server.version parts ids link) := by
  induction parts generalizing fact with
  | nil => exact Ends.pure fun _ h => ⟨h.1, h.2, rfl, fun _ hlast => by cases hlast⟩
  | cons part rest ih =>
      have hbody : ∀ p, Pb.ClientBody.Commit part = .Commit p → P p := by
        rintro _ ⟨⟩
        exact hparts part List.mem_cons_self
      refine Ends.bind (send_triple setup hbody start hfact) fun id => ?_
      have hasks := hfact.and (lasting_asks start.world.server.version id (.Commit part))
      refine Ends.bind (Ends.mono (ih hasks fun p hp => hparts p (List.mem_cons_of_mem _ hp))
        (fun _ h => ⟨h.1, h.2.1⟩) fun _ _ _ h => h) fun ids => Ends.pure ?_
      rintro link ⟨hkept, ⟨hlink, hask⟩, hlength, hlasts⟩
      refine ⟨hkept, hlink, by simp [hlength], ?_⟩
      intro last hlast
      -- The head is the last one only if nothing follows it.
      rcases ids with _ | ⟨next, ids⟩
      · obtain rfl : rest = [] := List.length_eq_zero_iff.mp hlength.symm
        simp only [List.getLast?_singleton, Option.some.injEq] at hlast
        exact ⟨part, rfl, hlast ▸ hask⟩
      · obtain ⟨p, hp, hask'⟩ := hlasts last (by simpa using hlast)
        refine ⟨p, ?_, hask'⟩
        cases rest with
        | nil => cases hp
        | cons _ _ => simpa using hp

-- The server has acknowledged the commit under this version.
def Acked (parts : List Pb.Commit) (version : Nat) (link : Link Net) : Prop :=
  ∃ part ack, parts.getLast? = some part ∧ link.world.server.AckedAt part ack ∧
    version = ack.version

theorem commitStep_spec (start : Link Net) {fact : Link Net → Prop} (hfact : Lasting fact)
    (parts : List Pb.Commit) (ids : List Nat) (last : Nat) (hlast : ids.getLast? = some last)
    (refusal : Option Pb.Error) :
    Triple (fun link => Kept P D start link ∧ fact link ∧
        LastAsked start.world.server.version parts ids link)
      (Client.commitStep (Net.env setup) ids last refusal)
      (Ends (Kept P D start) (orDone
        (fun _ link => fact link ∧ LastAsked start.world.server.version parts ids link)
        fun version link => fact link ∧ Acked parts version link)) := by
  have hasks := hfact.and (lasting_lastAsked start.world.server.version parts ids)
  refine Ends.bind (receive_heard setup start hasks) fun frame => ?_
  refine Triple.ite (fun _ => Ends.pure fun _ h => ⟨h.1, h.2.1⟩) fun _ => ?_
  obtain ⟨requestId, _ | body⟩ := frame
  · exact Ends.fail fun _ h => h.1
  cases body with
  | Error e =>
      exact Triple.ite (fun _ => Ends.fail fun _ h => h.1) fun _ => Ends.pure fun _ h => ⟨h.1, h.2.1⟩
  | CommitAck ack =>
      refine Triple.ite (fun hid => ?_) fun _ => Ends.fail fun _ h => h.1
      obtain rfl : requestId = last := hid
      cases refusal with
      | some e => exact Ends.fail fun _ h => h.1
      | none =>
          refine Ends.pure ?_
          rintro link ⟨hkept, ⟨hlink, hlasts⟩, hheard⟩
          obtain ⟨part, hpart, hask⟩ := hlasts requestId hlast
          obtain ⟨answer, hanswer, stamp, bodies, -, hmem, hanswers⟩ := hheard.told hkept.ready hask
          cases hanswer
          refine ⟨hkept, hlink, part, ack, hpart, ?_, rfl⟩
          rcases hanswers with rfl | ⟨e, rfl⟩ | ⟨ack', rfl, hat⟩
          · simp at hmem
          · simp at hmem
          · obtain rfl : ack = ack' := by simpa using hmem
            exact hat
  | _ => exact Ends.fail fun _ h => h.1

theorem commit_spec (start : Link Net) {fact : Link Net → Prop} (hfact : Lasting fact)
    (parts : List Pb.Commit) (hparts : ∀ part ∈ parts, P part) :
    Triple (fun link => Kept P D start link ∧ fact link) (Client.commit (Net.env setup) parts)
      (Ends (Kept P D start) fun version link => fact link ∧ Acked parts version link) := by
  refine Ends.bind (sendParts_spec setup start hfact parts hparts) fun ids => ?_
  cases hlast : ids.getLast? with
  | none =>
      dsimp only
      exact Ends.fail fun _ h => h.1
  | some last =>
      dsimp only
      rintro link ⟨hkept, hlink, -, hlasts⟩
      exact Ends.loop _ (fun refusal => commitStep_spec setup start hfact parts ids last hlast refusal)
        _ none link ⟨hkept, hlink, hlasts⟩

end RemoteVfs.Link
