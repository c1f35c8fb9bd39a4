import RemoteVfs.Client.Frames
import RemoteVfs.Observer
import RemoteVfs.Session.Run

namespace RemoteVfs

open Base Base.Prog Observer

-- The request that waits for its answer. A commit of several parts is one request: its answer is
-- the first rejection of a part, and it is there when the last part is answered.
inductive Awaited where
  | Nothing
  | Answer (id : Nat)
  | Parts (ids : List Nat) (refusal : Option Pb.Error)
  deriving DecidableEq, Repr

-- `fenced` is set when a request about the database is answered with FENCED or SLOT_TAKEN.
structure Alarm where
  awaited : Awaited
  fenced : Bool
  deriving DecidableEq, Repr

namespace Alarm

def fences (error : Pb.Error) : Bool := (ClientError.Server error).isFenced

def raise (alarm : Alarm) : Alarm := { alarm with fenced := true }

-- The requests about the database. `opens` tells whether those that resume the lease count.
def counts (opens : Bool) : Pb.ClientBody → Bool
  | .Open _ => opens
  | .Fetch _ | .Changed _ | .Commit _ => true
  | _ => false

def sent (opens : Bool) (frame : Pb.ClientFrame) (alarm : Alarm) : Alarm where
  fenced := alarm.fenced
  awaited :=
    match frame.body with
    | .Commit part =>
      match alarm.awaited, part.part with
      | .Parts ids refusal, _ + 1 => .Parts (ids ++ [frame.requestId]) refusal
      | _, _ => .Parts [frame.requestId] none
    | body => if counts opens body then .Answer frame.requestId else .Nothing

def received (frame : Pb.ServerFrame) (alarm : Alarm) : Alarm :=
  match alarm.awaited with
  | .Nothing => alarm
  | .Answer id =>
    match frame.body with
    | some (.Error e) => if frame.requestId = id ∧ fences e = true then alarm.raise else alarm
    | _ => alarm
  | .Parts ids refusal =>
    if frame.requestId ∉ ids then alarm
    else
      let last := ids.getLast? = some frame.requestId
      match frame.body with
      | some (.Error e) =>
        if last then if fences (refusal.getD e) then alarm.raise else alarm
        else { alarm with awaited := .Parts ids (some (refusal.getD e)) }
      | some (.CommitAck _) => if last ∧ refusal.any fences then alarm.raise else alarm
      | _ => alarm

def observer (opens : Bool) : Observer Alarm where
  opened alarm := { alarm with awaited := .Nothing }
  sent := sent opens
  received := received
  garbled alarm := alarm
  tokenless alarm := alarm
  loggedIn _ alarm := alarm

-- An answer that fences the database, to a request that counts, is an error that says so.
def Tells {σ α : Type} (counted : Prop) (quiet : σ → Prop) : Outcome ClientError α → σ → Prop
  | .err reason, s => quiet s ∨ counted ∧ reason.isFenced = true
  | _, s => quiet s

section Tells

variable {σ α β : Type} {counted : Prop} {quiet : σ → Prop}

theorem Tells.bind {first : Prog σ ClientError β} {next : β → Prog σ ClientError α}
    (hfirst : Triple quiet first (Tells counted quiet))
    (hnext : ∀ value, Triple quiet (next value) (Tells counted quiet)) :
    Triple quiet (first >>= next) (Tells counted quiet) := by
  refine Triple.bind (hfirst.mono (fun _ h => h) fun o s h => ?_) hnext
  cases o with
  | ok value => exact h
  | err reason => exact h
  | hang => exact h

theorem Tells.of_carries {body : Prog σ ClientError α} (h : Moves (Carries quiet) body) :
    Triple quiet body (Tells counted quiet) := by
  intro s hs
  have hafter := h s hs
  cases (body s).1 with
  | ok value => exact hafter
  | err reason => exact .inl hafter
  | hang => exact hafter

theorem Tells.mono {counted' : Prop} {body : Prog σ ClientError α}
    (h : Triple quiet body (Tells counted quiet)) (hcounted : counted → counted') :
    Triple quiet body (Tells counted' quiet) := by
  refine Triple.mono h (fun _ h => h) fun o s ho => ?_
  cases o with
  | ok value => exact ho
  | err reason => exact ho.imp_right fun ⟨hcount, hfenced⟩ => ⟨hcounted hcount, hfenced⟩
  | hang => exact ho

-- Nothing is awaited.
theorem Tells.carries {body : Prog σ ClientError α} (h : Triple quiet body (Tells False quiet)) :
    Moves (Carries quiet) body := by
  intro s hs
  have hafter := h s hs
  cases hbody : (body s).1 with
  | ok value =>
      rw [hbody] at hafter
      exact hafter
  | err reason =>
      rw [hbody] at hafter
      exact hafter.resolve_right (fun h => h.1)
  | hang =>
      rw [hbody] at hafter
      exact hafter

end Tells

variable {ω : Type} (E : Env ω) (opens : Bool)

-- The request is awaited, or it does not count.
def Heeds (id : Nat) (alarm : Alarm) : Prop :=
  alarm.fenced = false ∧ (alarm.awaited = .Nothing ∨ alarm.awaited = .Answer id)

theorem received_unprompted {id : Nat} {alarm : Alarm} (hid : id ≠ 0) (h : Heeds id alarm)
    (frame : Pb.ServerFrame) (hframe : frame.requestId = 0) : received frame alarm = alarm := by
  unfold received
  rcases h.2 with hnone | hanswer
  · rw [hnone]
  · rw [hanswer]
    dsimp only
    split
    · rw [if_neg]
      rintro ⟨hid', -⟩
      exact hid (hid'.symm.trans hframe)
    · rfl

-- An answer raises the alarm only as an error that fences.
theorem received_heeds {id : Nat} {alarm : Alarm} (h : Heeds id alarm) (frame : Pb.ServerFrame) :
    received frame alarm = alarm ∨ alarm.awaited ≠ .Nothing ∧
      ∃ e, frame.requestId = id ∧ frame.body = some (.Error e) ∧ fences e = true := by
  unfold received
  rcases h.2 with hnone | hanswer
  · rw [hnone]
    exact .inl rfl
  · rw [hanswer]
    dsimp only
    split
    · rename_i e hbody
      by_cases hfences : frame.requestId = id ∧ fences e = true
      · exact .inr ⟨by simp, e, hfences.1, hbody, hfences.2⟩
      · rw [if_neg hfences]
        exact .inl rfl
    · exact .inl rfl

-- The record is the same after a run, unless it ends with an error that fences.
def Told {α : Type} (alarm : Alarm) : Outcome ClientError α → Link (ω × Alarm) → Prop
  | .err reason, link => heard link = alarm ∨ alarm.awaited ≠ .Nothing ∧ reason.isFenced = true
  | _, link => heard link = alarm

theorem Told.of_same {α : Type} {alarm : Alarm} {body : Prog (Link (ω × Alarm)) ClientError α}
    (h : Moves (Same heard) body) : Triple (fun link => heard link = alarm) body (Told alarm) := by
  intro link hlink
  have hafter := (h link).trans hlink
  cases (body link).1 with
  | ok value => exact hafter
  | err reason => exact .inl hafter
  | hang => exact hafter

theorem receive_awaits {alarm : Alarm}
    (hskip : ∀ frame, frame.requestId = 0 → (observer opens).received frame alarm = alarm) :
    Triple (fun link => heard link = alarm) (Client.receive ((observer opens).env E)) fun o link =>
      match o with
      | .ok frame => heard link = received frame alarm
      | _ => heard link = alarm := by
  refine (receive_heard (observer opens) E hskip).mono (fun _ h => h) fun o link ho => ?_
  cases o with
  | ok frame => exact ho
  | err reason =>
      rcases ho with ho | ho
      · exact ho.1
      · exact ho
  | hang => exact ho

-- A frame is received and looked at. An error that answers the request is passed on.
theorem answer_told {α : Type} {id : Nat} {alarm : Alarm} (hid : id ≠ 0) (h : Heeds id alarm)
    {next : Pb.ServerFrame → Prog (Link (ω × Alarm)) ClientError α}
    (hsame : ∀ frame, Moves (Same heard) (next frame))
    (herror : ∀ frame e, frame.requestId = id → frame.body = some (.Error e) →
      next frame = Prog.fail (.Server e)) :
    Triple (fun link => heard link = alarm) (Client.receive ((observer opens).env E) >>= next)
      (Told alarm) := by
  have hreceive : Triple (fun link => heard link = alarm) (Client.receive ((observer opens).env E))
      (andThen (fun frame link => heard link = received frame alarm) (Told (α := α) alarm)) := by
    refine (receive_awaits E opens (received_unprompted hid h)).mono (fun _ h => h) ?_
    intro o link ho
    cases o with
    | ok frame => exact ho
    | err reason => exact .inl ho
    | hang => exact ho
  refine Triple.bind hreceive fun frame link hlink => ?_
  rcases received_heeds h frame with hkept | ⟨hawaited, e, hframe, hbody, hfences⟩
  · exact Told.of_same (hsame frame) link (hlink.trans hkept)
  · rw [herror frame e hframe hbody]
    exact .inr ⟨hawaited, hfences⟩

theorem callStep_told {id : Nat} (hid : id ≠ 0) {alarm : Alarm} (h : Heeds id alarm) :
    Triple (fun link => heard link = alarm) (Client.callStep ((observer opens).env E) id ()) (Told alarm) := by
  refine answer_told E opens hid h (fun frame => Moves.ite (Moves.pure _) ?_) fun frame e hframe hbody => ?_
  · cases frame.body with
    | none => exact Moves.fail _
    | some body => cases body <;> first | exact Moves.fail _ | exact Moves.pure _
  · rw [if_neg (not_not.mpr hframe), hbody]

theorem fetchStep_told {id : Nat} (hid : id ≠ 0) {alarm : Alarm} (h : Heeds id alarm)
    (expected blockSize : Nat) (blocks : List (Nat × Bytes)) :
    Triple (fun link => heard link = alarm)
      (Client.fetchStep ((observer opens).env E) id expected blockSize blocks) (Told alarm) := by
  refine answer_told E opens hid h (fun frame => Moves.ite (Moves.pure _) ?_) fun frame e hframe hbody => ?_
  · cases frame.body with
    | none => exact Moves.fail _
    | some body =>
        cases body with
        | Pages pages =>
            dsimp only
            cases pages.blocks.find? (·.length ≠ blockSize) with
            | some data => exact Moves.fail _
            | none => exact Moves.ite (Moves.ite (Moves.fail _) (Moves.pure _)) (Moves.pure _)
        | _ => exact Moves.fail _
  · rw [if_neg (not_not.mpr hframe), hbody]

def Quiet (link : Link (ω × Alarm)) : Prop := (heard link).fenced = false

theorem Told.tells {α : Type} {counted : Prop} {alarm : Alarm} (h : alarm.fenced = false)
    (hcounted : alarm.awaited ≠ .Nothing → counted) {o : Outcome ClientError α}
    {link : Link (ω × Alarm)} (ho : Told alarm o link) : Tells counted Quiet o link := by
  have hquiet : heard link = alarm → Quiet link := fun hlink => by rw [Quiet, hlink, h]
  cases o with
  | ok value => exact hquiet ho
  | err reason => exact ho.imp hquiet fun ⟨hawaited, hfenced⟩ => ⟨hcounted hawaited, hfenced⟩
  | hang => exact hquiet ho

-- A request of one frame, with the rounds that wait for its answer.
theorem request_tells {α β : Type} {body : Pb.ClientBody} (hbody : ∀ part, body ≠ .Commit part)
    {round : Nat → β → Prog (Link (ω × Alarm)) ClientError (β ⊕ α)}
    (hround : ∀ id alarm, id ≠ 0 → Heeds id alarm → ∀ state,
      Triple (fun link => heard link = alarm) (round id state) (Told alarm)) (start : β) :
    Triple Quiet (Client.send ((observer opens).env E) body >>= fun id =>
      Prog.loop (round id) E.fuel start) (Tells (counts opens body = true) Quiet) := by
  intro link hquiet
  have hsend := send_heard (observer opens) E body link
  rw [bind_apply]
  generalize Client.send ((observer opens).env E) body link = run at hsend ⊢
  have hfenced : ∀ id, ((observer opens).sent ⟨id, body⟩ (heard link)).fenced = false := fun _ => hquiet
  have hstopped : ∀ after : Link (ω × Alarm), (heard after = heard link ∨
      ∃ id, heard after = (observer opens).sent ⟨id, body⟩ (heard link)) → Quiet after := by
    rintro after (hsame | ⟨id, hsent⟩)
    · rw [Quiet, hsame]
      exact hquiet
    · rw [Quiet, hsent]
      exact hfenced id
  rcases run with ⟨id | reason | _, after⟩
  · obtain ⟨hid, hafter⟩ := hsend
    have hawaited : ((observer opens).sent ⟨id, body⟩ (heard link)).awaited =
        if counts opens body then .Answer id else .Nothing := by
      show (sent opens ⟨id, body⟩ (heard link)).awaited = _
      unfold sent
      cases body with
      | Commit part => exact absurd rfl (hbody part)
      | _ => rfl
    have hheeds : Heeds id ((observer opens).sent ⟨id, body⟩ (heard link)) := by
      refine ⟨hfenced id, ?_⟩
      rw [hawaited]
      cases counts opens body with
      | true => exact .inr rfl
      | false => exact .inl rfl
    have hcounted : ((observer opens).sent ⟨id, body⟩ (heard link)).awaited ≠ .Nothing →
        counts opens body = true := by
      rw [hawaited]
      intro hne
      by_contra hnot
      exact hne (if_neg hnot)
    refine Told.tells (hfenced id) hcounted ?_
    refine Triple.loop (fun _ link => heard link = _) (Told _) (fun state => ?_) (fun _ _ h => h) _ _ after hafter
    refine (hround id _ hid hheeds state).mono (fun _ h => h) fun o link ho => ?_
    rcases o with (_ | _) | _ | _ <;> exact ho
  · exact .inl (hstopped after hsend)
  · exact hstopped after hsend

theorem call_tells {body : Pb.ClientBody} (hbody : ∀ part, body ≠ .Commit part) :
    Triple Quiet (Client.call ((observer opens).env E) body) (Tells (counts opens body = true) Quiet) :=
  request_tells E opens hbody (fun _ _ hid h _ => callStep_told E opens hid h) ()

theorem fetchFrames_tells (fetch : Pb.Fetch) (expected blockSize : Nat) :
    Triple Quiet (Client.fetchFrames ((observer opens).env E) fetch expected blockSize)
      (Tells True Quiet) :=
  Tells.mono (request_tells E opens (by simp)
    (fun _ _ hid h blocks => fetchStep_told E opens hid h expected blockSize blocks) []) fun _ => trivial

-- The parts of a commit are numbered from `k` on.
def Numbered : Nat → List Pb.Commit → Prop
  | _, [] => True
  | k, part :: rest => part.part = k ∧ Numbered (k + 1) rest

-- The parts before the `k`th are sent, under these ids.
def Sending (k : Nat) (ids : List Nat) (alarm : Alarm) : Prop :=
  alarm.fenced = false ∧ if k = 0 then ids = [] else alarm.awaited = .Parts ids none

theorem sending_succ {k id : Nat} {ids : List Nat} {alarm : Alarm} {part : Pb.Commit}
    (h : Sending k ids alarm) (hpart : part.part = k) :
    sent opens ⟨id, .Commit part⟩ alarm = ⟨.Parts (ids ++ [id]) none, false⟩ := by
  obtain ⟨hfenced, hids⟩ := h
  cases k with
  | zero =>
      rw [if_pos rfl] at hids
      subst hids
      cases hawaited : alarm.awaited <;> simp [sent, hpart, hawaited, hfenced]
  | succ k =>
      rw [if_neg (Nat.succ_ne_zero k)] at hids
      simp [sent, hpart, hids, hfenced]

theorem sendParts_heard {parts : List Pb.Commit} {k : Nat} (before : List Nat)
    (hparts : Numbered k parts) :
    Triple (fun link => Sending k before (heard link))
      (Client.sendParts ((observer opens).env E) parts) fun o link =>
        match o with
        | .ok ids => Sending (k + parts.length) (before ++ ids) (heard link) ∧ ids.length = parts.length ∧
            0 ∉ ids
        | _ => Quiet link := by
  induction parts generalizing k before with
  | nil =>
      intro link h
      refine ⟨?_, rfl, by simp⟩
      rw [List.append_nil]
      exact h
  | cons part rest ih =>
      intro link hlink
      have hsend := send_heard (observer opens) E (.Commit part) link
      have hsent : ∀ id, (observer opens).sent ⟨id, .Commit part⟩ (heard link) =
          ⟨.Parts (before ++ [id]) none, false⟩ := fun id => sending_succ opens hlink hparts.1
      rw [Client.sendParts, bind_apply]
      generalize Client.send ((observer opens).env E) (.Commit part) link = run at hsend ⊢
      have hstopped : ∀ after : Link (ω × Alarm), (heard after = heard link ∨
          ∃ id, heard after = (observer opens).sent ⟨id, .Commit part⟩ (heard link)) → Quiet after := by
        rintro after (hsame | ⟨id, hafter⟩)
        · rw [Quiet, hsame]
          exact hlink.1
        · rw [Quiet, hafter, hsent]
      rcases run with ⟨id | reason | _, after⟩
      · obtain ⟨hid, hafter⟩ := hsend
        rw [hsent] at hafter
        have hnext : Sending (k + 1) (before ++ [id]) (heard after) := by
          rw [hafter]
          exact ⟨rfl, by rw [if_neg (Nat.succ_ne_zero k)]⟩
        have hrest := ih _ hparts.2 after hnext
        dsimp only
        rw [bind_apply]
        generalize Client.sendParts ((observer opens).env E) rest after = run at hrest ⊢
        rcases run with ⟨ids | reason | _, final⟩
        · obtain ⟨hsending, hlength, hids⟩ := hrest
          refine ⟨?_, by simp [hlength], ?_⟩
          · rw [List.length_cons, Nat.add_comm rest.length, ← Nat.add_assoc]
            rw [List.append_assoc] at hsending
            exact hsending
          · simp only [List.mem_cons, not_or]
            exact ⟨hid.symm, hids⟩
        · exact hrest
        · exact hrest
      · exact hstopped after hsend
      · exact hstopped after hsend

theorem commitStep_told {ids : List Nat} {last : Nat} (hlast : ids.getLast? = some last) (hids : 0 ∉ ids)
    (refusal : Option Pb.Error) :
    Triple (fun link => heard link = ⟨.Parts ids refusal, false⟩)
      (Client.commitStep ((observer opens).env E) ids last refusal)
      (andThen (orDone (fun next link => heard link = ⟨.Parts ids next, false⟩) fun _ => Quiet)
        (Tells (α := Nat) True Quiet)) := by
  have hunprompted : ∀ frame : Pb.ServerFrame, frame.requestId = 0 →
      (observer opens).received frame ⟨.Parts ids refusal, false⟩ = ⟨.Parts ids refusal, false⟩ := by
    intro frame hframe
    change received frame ⟨.Parts ids refusal, false⟩ = _
    rw [received]
    dsimp only
    rw [if_pos (by rw [hframe]; exact hids)]
  have hreceive := receive_awaits E opens hunprompted
  intro link hlink
  have hrun := hreceive link hlink
  rw [Client.commitStep, bind_apply]
  generalize Client.receive ((observer opens).env E) link = run at hrun ⊢
  rcases run with ⟨frame | reason | _, after⟩
  · change heard after = received frame ⟨.Parts ids refusal, false⟩ at hrun
    rw [received] at hrun
    dsimp only at hrun ⊢
    by_cases hmem : frame.requestId ∉ ids
    · rw [if_pos hmem] at hrun
      rw [if_pos hmem]
      exact hrun
    · rw [if_neg hmem, hlast] at hrun
      rw [if_neg hmem]
      have hquiet : heard after = ⟨.Parts ids refusal, false⟩ → Quiet after := congrArg Alarm.fenced
      cases hbody : frame.body with
      | none =>
          rw [hbody] at hrun
          exact .inl (hquiet hrun)
      | some body =>
          rw [hbody] at hrun
          cases body with
          | Error e =>
              dsimp only at hrun ⊢
              by_cases hid : frame.requestId = last
              · rw [if_pos hid]
                rw [if_pos (by rw [hid])] at hrun
                by_cases hfences : fences (refusal.getD e) = true
                · exact .inr ⟨trivial, hfences⟩
                · rw [if_neg hfences] at hrun
                  exact .inl (hquiet hrun)
              · rw [if_neg hid]
                rw [if_neg (fun h => hid (Option.some.inj h).symm)] at hrun
                exact hrun
          | CommitAck ack =>
              dsimp only at hrun ⊢
              by_cases hid : frame.requestId = last
              · rw [if_pos hid]
                cases refusal with
                | none =>
                    rw [if_neg (by simp)] at hrun
                    exact hquiet hrun
                | some e =>
                    by_cases hfences : fences e = true
                    · exact .inr ⟨trivial, hfences⟩
                    · rw [if_neg (by simp [hfences])] at hrun
                      exact .inl (hquiet hrun)
              · rw [if_neg hid]
                rw [if_neg (fun h => hid (Option.some.inj h.1).symm)] at hrun
                exact .inl (hquiet hrun)
          | _ => exact .inl (hquiet hrun)
  · refine .inl ?_
    rw [Quiet]
    exact congrArg Alarm.fenced hrun
  · exact congrArg Alarm.fenced hrun

theorem commit_tells {parts : List Pb.Commit} (hparts : Numbered 0 parts) :
    Triple Quiet (Client.commit ((observer opens).env E) parts) (Tells True Quiet) := by
  intro link hquiet
  have hsent := sendParts_heard E opens [] hparts link ⟨hquiet, rfl⟩
  rw [Client.commit, bind_apply]
  generalize Client.sendParts ((observer opens).env E) parts link = run at hsent ⊢
  rcases run with ⟨ids | reason | _, after⟩
  · obtain ⟨⟨hfenced, hsending⟩, hlength, hids⟩ := hsent
    dsimp only
    cases hlast : ids.getLast? with
    | none => exact .inl hfenced
    | some last =>
        have hne : 0 + parts.length ≠ 0 := by
          have := List.length_pos_of_mem (List.mem_of_getLast? hlast)
          omega
        rw [if_neg hne, List.nil_append] at hsending
        have hafter : heard after = ⟨.Parts ids none, false⟩ := by
          rw [← hsending, ← hfenced]
        refine Triple.loop (fun refusal link => heard link = ⟨.Parts ids refusal, false⟩) (Tells True Quiet)
          (fun refusal => commitStep_told E opens hlast hids refusal) ?_ _ none after hafter
        intro refusal link hlink
        show Quiet link
        rw [Quiet, hlink]
  · exact .inl hsent
  · exact hsent

theorem quiet_of_unseen {α : Type} {body : Prog (Link (ω × Alarm)) ClientError α}
    (h : Moves (Same heard) body) : Moves (Carries Quiet) body := by
  intro link hquiet
  rw [Quiet, h link]
  exact hquiet

-- No frame of a login counts.
theorem sayHello_quiet : Moves (Carries Quiet) (Client.sayHello ((observer opens).env E)) := by
  have hcall : ∀ {body : Pb.ClientBody}, counts opens body = false →
      Moves (Carries Quiet) (Client.call ((observer opens).env E) body) := by
    intro body hcounts
    refine Tells.carries (Tells.mono (call_tells E opens ?_) fun h => ?_)
    · rintro part rfl
      cases hcounts
    · rw [hcounts] at h
      cases h
  have hsource : Moves (Same heard) (Link.outside ((observer opens).env E).token) := by
    intro link
    have htoken := token_heard (observer opens) E link
    generalize Link.outside ((observer opens).env E).token link = run at htoken ⊢
    rcases run with ⟨_ | _ | _, after⟩ <;> exact htoken.1
  have htoken : ∀ config, Moves (Same heard) (Client.accessToken ((observer opens).env E) config) :=
    fun config => Moves.ite (Moves.handle hsource fun _ => Moves.fail _) (Moves.pure _)
  have hrenewal : ∀ ttl, Moves (Same heard) (Client.renewalTime ((observer opens).env E) ttl) :=
    fun ttl => Moves.ite (Moves.pure _) (Moves.bind (fun _ => rfl) fun _ => Moves.pure _)
  refine Moves.bind (Moves.gets _) fun client => ?_
  refine Moves.bind (quiet_of_unseen (htoken _)) fun token => Moves.bind (hcall rfl) fun answer => ?_
  cases answer with
  | Challenge challenge =>
      refine Moves.bind (hcall rfl) fun answer => ?_
      cases answer with
      | HelloOk ok =>
          refine quiet_of_unseen (Moves.bind (hrenewal _) fun renewal => ?_)
          refine Moves.bind (Moves.modify fun _ => rfl) fun _ => Moves.bind (Moves.gets _) fun client => ?_
          cases client.socket with
          | true => exact Moves.bind (Moves.modify fun _ => rfl) fun _ => Moves.modify fun _ => rfl
          | false => exact Moves.modify fun _ => rfl
      | _ => exact Moves.fail _
  | _ => exact Moves.fail _

theorem openSocket_quiet : Moves (Carries Quiet) (Client.openSocket ((observer opens).env E)) := by
  intro link hquiet
  have hopened := openSocket_heard (observer opens) E link
  generalize Client.openSocket ((observer opens).env E) link = run at hopened ⊢
  rcases run with ⟨_ | _ | _, after⟩
  · rw [Quiet, hopened.1]
    exact hquiet
  · rw [Quiet, hopened.1]
    exact hquiet
  · rw [Quiet, hopened.1]
    exact hquiet

theorem reconnect_quiet : Moves (Carries Quiet) (Client.reconnect ((observer opens).env E)) := by
  refine Moves.bind (openSocket_quiet E opens) fun _ => Moves.bind (Moves.gets _) fun client => ?_
  refine Moves.handle (sayHello_quiet E opens) fun err => Moves.ite ?_ (Moves.fail _)
  exact Moves.bind (openSocket_quiet E opens) fun _ => sayHello_quiet E opens

section Databases

open Database Remote

-- No request that counts was answered with FENCED or SLOT_TAKEN.
def Hush (db : Database (ω × Alarm)) : Prop := (seen db).fenced = false

-- If one was, the database is broken.
def Warned (db : Database (ω × Alarm)) : Prop := Hush db ∨ db.remote.broken = some .Fenced

theorem hush_of_unseen {ε α : Type} {body : Prog (Database (ω × Alarm)) ε α}
    (h : Moves (Same seen) body) : Moves (Carries Hush) body := by
  intro db hhush
  rw [Hush, h db]
  exact hhush

theorem onLink_tells {α : Type} {counted : Prop} {body : Prog (Link (ω × Alarm)) ClientError α}
    (h : Triple Quiet body (Tells counted Quiet)) : Triple Hush (onLink body) (Tells counted Hush) := by
  intro db hhush
  have hafter := h db.source.link hhush
  unfold onLink Prog.zoom
  generalize body db.source.link = run at hafter ⊢
  rcases run with ⟨_ | _ | _, link⟩ <;> exact hafter

theorem resume_tells : Triple Hush (resume ((observer opens).env E)) (Tells (opens = true) Hush) := by
  have hreconnect : Moves (Carries Hush) (reconnectIfDown ((observer opens).env E)) := by
    refine Moves.bind (hush_of_unseen (onLink_unseen (isConnected_unseen _ E))) fun connected => ?_
    refine Moves.ite (Moves.pure _) (Moves.bind ?_ fun _ => hush_of_unseen (count_unseen _))
    exact fun db => reconnect_quiet E opens db.source.link
  refine Tells.bind (Tells.of_carries hreconnect) fun _ => ?_
  refine Tells.bind (Tells.of_carries (Moves.gets _)) fun db => ?_
  refine Tells.bind (onLink_tells (call_tells E opens (by simp))) fun answer => ?_
  cases answer with
  | Opened opened =>
      dsimp only
      cases checked opened (some db.pages.pageSize) with
      | error err => exact Tells.of_carries (Moves.fail _)
      | ok opened =>
          exact Tells.bind (Tells.of_carries (hush_of_unseen fun _ => rfl)) fun _ => Tells.of_carries (Moves.pure _)
  | _ => exact Tells.of_carries (Moves.fail _)

theorem fetch_tells (fetch : Pb.Fetch) (blockSize : Nat) :
    Triple Quiet (Client.fetch ((observer opens).env E) fetch blockSize) (Tells True Quiet) := by
  refine Tells.bind (Tells.of_carries (quiet_of_unseen fun _ => rfl)) fun _ => ?_
  exact Tells.bind (fetchFrames_tells E opens _ _ _) fun _ => Tells.of_carries (Moves.pure _)

theorem load_tells (first blocks : Nat) :
    Triple Hush (load ((observer opens).env E) first blocks) (Tells True Hush) := by
  refine Tells.bind (Tells.of_carries (hush_of_unseen (now_unseen _ E))) fun started => ?_
  refine Tells.bind (Tells.of_carries (Moves.gets _)) fun db => ?_
  refine Tells.bind (onLink_tells (fetch_tells E opens _ _)) fun loaded => ?_
  refine Tells.bind (Tells.of_carries (hush_of_unseen (now_unseen _ E))) fun ended => ?_
  refine Tells.bind (Tells.of_carries (hush_of_unseen (count_unseen _))) fun _ => ?_
  exact Tells.of_carries (hush_of_unseen (mapPages_unseen _))

-- A request of one frame and the error that it may end with.
theorem handle_warned {α : Type} {counted : Prop} {body : Prog (Database (ω × Alarm)) ClientError α}
    {handler : ClientError → Prog (Database (ω × Alarm)) Broken α}
    (h : Triple Hush body (Tells counted Hush))
    (herr : ∀ err, Triple Hush (handler err) (Settles Hush Warned fun _ => Hush))
    (hfenced : ∀ err, counted → err.isFenced = true →
      Triple (fun _ => True) (handler err) (Settles Hush Warned fun _ => Hush)) :
    Triple Hush (Prog.handle body handler) (Settles Hush Warned fun _ => Hush) := by
  intro db hhush
  have hafter := h db hhush
  unfold Prog.handle
  generalize body db = run at hafter ⊢
  rcases run with ⟨_ | err | _, after⟩
  · exact hafter
  · rcases hafter with hquiet | ⟨hcounted, hbad⟩
    · exact herr err after hquiet
    · exact hfenced err hcounted hbad after trivial
  · exact hafter

theorem breakWith_fenced {α : Type} : Triple (fun _ => True)
    (breakWith .Fenced : Prog (Database (ω × Alarm)) Broken α) (Settles Hush Warned fun _ => Hush) :=
  fun _ _ => .inr rfl

theorem breakWith_warned {α : Type} (broken : Broken) :
    Triple Hush (breakWith broken : Prog (Database (ω × Alarm)) Broken α) (Settles Hush Warned fun _ => Hush) :=
  fun _ h => .inl h

theorem warned_of_unseen {α : Type} {body : Prog (Database (ω × Alarm)) Broken α}
    (h : Moves (Same seen) body) : Triple Hush body (Settles Hush Warned fun _ => Hush) := by
  intro db hhush
  have hafter := hush_of_unseen h db hhush
  cases (body db).1 with
  | ok value => exact hafter
  | err reason => exact .inl hafter
  | hang => exact hafter

-- A program that starts quietly ends quietly or breaks the database.
def Warns {α : Type} (body : Prog (Database (ω × Alarm)) Broken α) : Prop :=
  Triple Hush body (Settles Hush Warned fun _ => Hush)

theorem Warns.bind {α β : Type} {first : Prog (Database (ω × Alarm)) Broken β}
    {next : β → Prog (Database (ω × Alarm)) Broken α} (hfirst : Warns first)
    (hnext : ∀ value, Warns (next value)) : Warns (first >>= next) :=
  Settles.bind hfirst hnext

theorem Warns.ite {α : Type} {c : Prop} [Decidable c] {yes no : Prog (Database (ω × Alarm)) Broken α}
    (hyes : Warns yes) (hno : Warns no) : Warns (if c then yes else no) :=
  Triple.ite (fun _ => hyes) fun _ => hno

theorem Warns.warned {α : Type} {body : Prog (Database (ω × Alarm)) Broken α} (h : Warns body)
    {db : Database (ω × Alarm)} (hhush : Hush db) : Warned (body db).2 := by
  have hafter := h db hhush
  generalize body db = run at hafter ⊢
  rcases run with ⟨_ | _ | _, after⟩
  · exact .inl hafter
  · exact hafter
  · exact .inl hafter

theorem Warns.attempt {α β : Type} {body : Prog (Database (ω × Alarm)) ClientError β}
    {next : Except ClientError β → Prog (Database (ω × Alarm)) Broken α} {counted : Prop}
    (h : Triple Hush body (Tells counted Hush)) (hnext : ∀ result, Warns (next result))
    (hfenced : ∀ err, counted → err.isFenced = true → next (.error err) = breakWith .Fenced) :
    Warns (Prog.attempt body >>= next) := by
  intro db hhush
  have hafter := h db hhush
  rw [bind_apply]
  unfold Prog.attempt
  generalize body db = run at hafter ⊢
  rcases run with ⟨value | err | _, after⟩
  · exact hnext (.ok value) after hafter
  · rcases hafter with hquiet | ⟨hcounted, hbad⟩
    · exact hnext (.error err) after hquiet
    · dsimp only
      rw [hfenced err hcounted hbad]
      exact .inr rfl
  · exact hafter

theorem resumeUntil_warns (deadline : Nat) : Warns (resumeUntil ((observer opens).env E) deadline) := by
  have hstep : Warns (resumeStep ((observer opens).env E) deadline ()) := by
    refine Warns.attempt (resume_tells E opens) ?_ fun err _ hfenced => if_pos hfenced
    rintro (err | opened)
    · refine Warns.ite (breakWith_warned _) (Warns.ite (breakWith_warned _) ?_)
      refine Warns.bind (warned_of_unseen (now_unseen _ E)) fun now => ?_
      refine Warns.ite (breakWith_warned _) ?_
      exact Warns.bind (warned_of_unseen fun _ => rfl) fun _ => warned_of_unseen (Moves.pure _)
    · exact warned_of_unseen (Moves.pure _)
  refine Triple.loop (fun _ => Hush) _ (fun _ => ?_) (fun _ _ h => h) _ _
  refine hstep.mono (fun _ h => h) fun o db ho => ?_
  rcases o with (_ | _) | _ | _ <;> exact ho

-- A read or a write does not recognise the answer to its Open.
theorem reconnected_warns : Warns (Fetch.reconnected ((observer false).env E)) := by
  refine Warns.bind (warned_of_unseen (onCurrentConnection_unseen _ E)) fun current => ?_
  refine Warns.ite (warned_of_unseen (Moves.pure _)) (Warns.bind ?_ fun _ => warned_of_unseen (Moves.pure _))
  refine handle_warned (resume_tells E false) (fun err => ?_) (fun err hopens => nomatch hopens)
  exact Warns.ite (breakWith_warned _) (breakWith_warned _)

theorem fill_warned (first blocks : Nat) :
    Moves (Carries Warned) (Fetch.fill ((observer false).env E) first blocks) := by
  intro db hwarned
  unfold Fetch.fill
  rw [get_bind]
  cases hbroken : db.remote.broken with
  | some broken => exact hwarned
  | none =>
      have hhush : Hush db := hwarned.resolve_right (by simp [hbroken])
      refine Warns.warned ?_ hhush
      refine Warns.bind (warned_of_unseen ((copyMoves_unseen _ E).takeFromCopy mapKept_unseen _ _)) fun taken => ?_
      refine Warns.ite (warned_of_unseen (Moves.pure _)) (Warns.bind (reconnected_warns E) fun _ => ?_)
      refine Warns.bind (handle_warned (load_tells E false first blocks) (fun err => ?_) ?_) fun _ => ?_
      · exact Warns.ite (breakWith_warned _) (warned_of_unseen (Moves.fail _))
      · intro err _ hfenced
        rw [if_pos hfenced]
        exact breakWith_fenced
      · exact warned_of_unseen ((copyMoves_unseen _ E).writeCopy _)

theorem numbered_mapIdx {β : Type} {k : Nat} {pieces : List β} {f : Nat → β → Pb.Commit}
    (hf : ∀ i piece, (f i piece).part = k + i) : Numbered k (pieces.mapIdx f) := by
  induction pieces generalizing k f with
  | nil => trivial
  | cons piece rest ih =>
      rw [List.mapIdx_cons]
      refine ⟨hf 0 piece, ih fun i piece => ?_⟩
      rw [hf]
      omega

theorem commitFailed_warns (commitId : Bytes) (deadline : Nat) (err : ClientError) :
    Warns (commitFailed ((observer opens).env E) commitId deadline err) := by
  refine Warns.ite (breakWith_warned _) (Warns.ite ?_ ?_)
  · refine Warns.bind (warned_of_unseen (now_unseen _ E)) fun now => Warns.ite (breakWith_warned _) ?_
    refine Warns.bind (warned_of_unseen fun _ => rfl) fun _ => ?_
    exact Warns.bind (warned_of_unseen (count_unseen _)) fun _ => warned_of_unseen (Moves.pure _)
  · have hunknown : Warns (commitUnknown ((observer opens).env E) commitId deadline) := by
      refine Warns.bind (resumeUntil_warns E opens deadline) fun opened => ?_
      refine Warns.bind (warned_of_unseen (Moves.gets _)) fun db => Warns.ite ?_ (Warns.ite ?_ ?_)
      · exact Warns.bind (warned_of_unseen (count_unseen _)) fun _ => warned_of_unseen (Moves.pure _)
      · exact Warns.bind (warned_of_unseen (Moves.gets _)) fun _ => breakWith_warned _
      · exact Warns.bind (warned_of_unseen (count_unseen _)) fun _ => warned_of_unseen (Moves.pure _)
    cases err with
    | Server e => exact breakWith_warned _
    | _ => exact hunknown

theorem commitRound_warns {parts : List Pb.Commit} (hparts : Numbered 0 parts) (commitId : Bytes)
    (deadline : Nat) : Warns (commitRound ((observer opens).env E) parts commitId deadline ()) := by
  have hready : Warns (commitReady ((observer opens).env E) deadline) := by
    refine Warns.bind (warned_of_unseen (onCurrentConnection_unseen _ E)) fun current => ?_
    refine Warns.ite (warned_of_unseen (Moves.pure _)) ?_
    refine Warns.bind (resumeUntil_warns E opens deadline) fun opened => ?_
    refine Warns.bind (warned_of_unseen (Moves.gets _)) fun db => Warns.ite ?_ (warned_of_unseen (Moves.pure _))
    exact Warns.bind (warned_of_unseen (Moves.gets _)) fun _ => breakWith_warned _
  refine Warns.bind hready fun _ => ?_
  refine Warns.attempt (onLink_tells (commit_tells E opens hparts)) ?_ fun err _ hfenced => if_pos hfenced
  rintro (err | version)
  · exact commitFailed_warns E opens commitId deadline err
  · exact warned_of_unseen (Moves.pure _)

theorem commitDone_warns (parts commitTime : Nat) (commitId : Bytes) (version : Nat) :
    Warns (commitDone ((observer opens).env E) parts commitTime commitId version) := by
  refine warned_of_unseen (Moves.bind (Moves.gets _) fun db => ?_)
  refine Moves.bind (count_unseen _) fun _ => Moves.bind (fun _ => rfl) fun _ => ?_
  refine Moves.bind (Moves.gets _) fun db => Moves.bind (mapPages_unseen _) fun _ => ?_
  refine Moves.bind ((copyMoves_unseen _ E).writeCopy _) fun _ => ?_
  exact Moves.bind (fun _ => rfl) fun _ => fun _ => rfl

theorem commitChanges_warns (reconnectTimeout : Nat) :
    Warns (commitChanges ((observer opens).env E) reconnectTimeout) := by
  have hbegin : Triple Hush (commitBegin ((observer opens).env E))
      (Settles Hush Warned fun begun db => Hush db ∧ Numbered 0 begun.2) := by
    intro db hhush
    refine ⟨hhush, numbered_mapIdx fun i blocks => ?_⟩
    exact (Nat.zero_add i).symm
  refine Settles.bind hbegin fun begun => ?_
  rintro db ⟨hhush, hparts⟩
  refine Warns.bind (warned_of_unseen (now_unseen _ E)) (fun started => ?_) db hhush
  refine Warns.bind ?_ fun version => ?_
  · refine Triple.loop (fun _ => Hush) _ (fun _ => ?_) (fun _ _ h => h) _ _
    refine (commitRound_warns E opens hparts _ _).mono (fun _ h => h) fun o db ho => ?_
    rcases o with (_ | _) | _ | _ <;> exact ho
  · refine Warns.bind (warned_of_unseen (now_unseen _ E)) fun ended => ?_
    exact commitDone_warns E opens _ _ _ _

theorem tells_of_unseen {α : Type} {counted : Prop} {body : Prog (Database (ω × Alarm)) ClientError α}
    (h : Moves (Same seen) body) : Triple Hush body (Tells counted Hush) :=
  Tells.of_carries (hush_of_unseen h)

theorem changes_tells (dbId : String) (fromVersion : Nat) :
    Triple Quiet (Client.changes ((observer opens).env E) dbId fromVersion) (Tells True Quiet) := by
  refine Tells.bind (Tells.mono (call_tells E opens (by simp)) fun _ => trivial) fun answer => ?_
  cases answer <;> first | exact Tells.of_carries (Moves.pure _) | exact Tells.of_carries (Moves.fail _)

theorem fetchRanges_tells (dbId : String) (version : Nat) (ranges : List (Nat × Nat)) (blockSize : Nat) :
    Triple Quiet (Client.fetchRanges ((observer opens).env E) dbId version ranges blockSize)
      (Tells True Quiet) :=
  Tells.bind (Tells.of_carries (quiet_of_unseen fun _ => rfl)) fun _ => fetchFrames_tells E opens _ _ _

theorem catchCopyUp_tells (behind : Head) :
    Triple Hush (catchCopyUp ((observer opens).env E) behind) (Tells True Hush) := by
  refine Tells.bind (tells_of_unseen (Moves.gets _)) fun db => ?_
  refine Tells.bind (onLink_tells (changes_tells E opens _ _)) fun changes => ?_
  refine Triple.ite (fun _ => tells_of_unseen (Moves.pure _)) fun _ => ?_
  refine Triple.ite (fun _ => tells_of_unseen (Moves.pure _)) fun _ => ?_
  refine Tells.bind (tells_of_unseen (Moves.attempt (onWorld_unseen ((storeMoves_unseen _ E).catchUp _ _ _)))) ?_
  rintro (_ | _)
  · exact tells_of_unseen (Moves.bind (copyMoves_unseen (observer opens) E).dropCopy fun _ => Moves.pure _)
  · refine Tells.bind (tells_of_unseen (count_unseen _)) fun _ => ?_
    split_ifs
    · refine Tells.bind (tells_of_unseen (now_unseen _ E)) fun started => ?_
      refine Tells.bind (onLink_tells (fetchRanges_tells E opens _ _ _ _)) fun blocks => ?_
      refine Tells.bind (tells_of_unseen (now_unseen _ E)) fun ended => ?_
      refine Tells.bind (tells_of_unseen (count_unseen _)) fun _ => ?_
      refine Tells.bind (tells_of_unseen (mapPages_unseen _)) fun _ => ?_
      exact tells_of_unseen (Moves.bind ((copyMoves_unseen _ E).writeCopy _) fun _ => Moves.pure _)
    · exact tells_of_unseen (Moves.pure _)

theorem takeCopy_tells : Triple Hush (takeCopy ((observer opens).env E)) (Tells True Hush) := by
  refine Tells.bind (tells_of_unseen (Moves.gets _)) fun db => ?_
  refine Triple.ite (fun _ => tells_of_unseen (Moves.pure _)) fun _ => ?_
  refine Tells.bind (tells_of_unseen (Moves.attempt (onWorld_unseen (aside_unseen _)))) ?_
  rintro (_ | head)
  · exact tells_of_unseen (Moves.bind (copyMoves_unseen (observer opens) E).dropCopy fun _ => Moves.pure _)
  · dsimp only
    cases head.filter (usable db.remote db.pages) with
    | none => exact tells_of_unseen ((copyMoves_unseen _ E).calls mapKept_unseen).giveCopyUp
    | some head =>
        refine Triple.ite (fun _ => tells_of_unseen (Moves.fail _)) fun _ => ?_
        refine Triple.ite (fun _ => ?_) fun _ => tells_of_unseen ((copyMoves_unseen _ E).calls mapKept_unseen).useCopy
        refine Tells.bind (catchCopyUp_tells E opens head) fun caught => ?_
        exact Triple.ite (fun _ => tells_of_unseen ((copyMoves_unseen _ E).calls mapKept_unseen).useCopy)
          fun _ => tells_of_unseen ((copyMoves_unseen _ E).calls mapKept_unseen).giveCopyUp

theorem fill_tells : Triple Hush (Remote.fill ((observer opens).env E)) (Tells True Hush) := by
  have hroom : Triple Hush (do
      Prog.modify (Held.makeRoom 0)
      Prog.modify Held.count : Prog (Database (ω × Alarm)) ClientError Unit) (Tells True Hush) :=
    tells_of_unseen (Moves.bind (fun _ => rfl) fun _ => fun _ => rfl)
  refine Tells.bind (takeCopy_tells E opens) fun fromCopy => ?_
  refine Tells.bind (tells_of_unseen (Moves.gets _)) fun db => ?_
  dsimp only
  split_ifs
  · refine Tells.bind (load_tells E opens _ _) fun _ => ?_
    refine Tells.bind (tells_of_unseen (Moves.gets _)) fun db => ?_
    exact Tells.bind (tells_of_unseen ((copyMoves_unseen _ E).writeCopy _)) fun _ => hroom
  · exact hroom

theorem breakOn_fenced {α : Type} {err : ClientError} (h : err.isFenced = true) :
    Triple (fun _ => True) (breakOn err : Prog (Database (ω × Alarm)) Broken α)
      (Settles Hush Warned fun _ => Hush) := by
  have hreason : reasonOf err = .Fenced := by
    unfold reasonOf
    rw [if_pos h]
  rw [breakOn, hreason]
  exact breakWith_fenced

theorem heal_warns : Warns (heal ((observer opens).env E)) := by
  refine Warns.bind (handle_warned (resume_tells E opens) (fun _ => breakWith_warned _)
    fun _ _ hfenced => breakOn_fenced hfenced) fun opened => ?_
  refine Warns.bind (warned_of_unseen (Moves.gets _)) fun db => Warns.ite (breakWith_warned _) ?_
  refine Warns.bind (warned_of_unseen (count_unseen _)) fun _ => ?_
  refine Warns.bind (warned_of_unseen (Moves.gets _)) fun db => ?_
  refine Warns.bind (warned_of_unseen fun _ => rfl) fun _ => ?_
  refine Warns.bind (handle_warned (fill_tells E opens) (fun err => ?_) fun err _ hfenced => ?_) fun _ => ?_
  · exact Warns.bind (warned_of_unseen (mapPages_unseen _)) fun _ => breakWith_warned _
  · exact fun db _ => breakOn_fenced hfenced (db.mapPages fun _ => _) trivial
  · exact Warns.bind (warned_of_unseen fun _ => rfl) fun _ => warned_of_unseen (count_unseen _)

theorem unlessBroken_warned {α : Type} {body : Prog (Database (ω × Alarm)) Broken α} (h : Warns body) :
    Moves (Carries Warned) (unlessBroken body) := by
  intro db hwarned
  unfold unlessBroken
  rw [get_bind]
  cases hbroken : db.remote.broken with
  | some broken => exact hwarned
  | none => exact h.warned (hwarned.resolve_right (by simp [hbroken]))

theorem commit_warned (timeout : Nat) :
    Moves (Carries Warned) (Database.commit ((observer opens).env E) timeout) := by
  refine unlessBroken_warned (Warns.bind (warned_of_unseen (Moves.gets _)) fun db => ?_)
  refine Warns.ite (warned_of_unseen (Moves.pure _)) (Warns.ite (breakWith_warned _) ?_)
  exact commitChanges_warns E opens timeout

theorem source_warned : Pages.Respects (Carries Warned) (Fetch.source ((observer false).env E)) where
  pages a b hsource _ hwarned := by
    obtain ⟨pages, stats, source⟩ := b
    subst hsource
    exact hwarned
  fill db first count _ := fill_warned E first count db

theorem label_quiet (label : String) :
    Moves (Carries Quiet) (Client.withClient ((observer opens).env E)
      (Client.setSlotLabel ((observer opens).env E) label)) := by
  refine Moves.bind (quiet_of_unseen (isConnected_unseen _ E)) fun connected => ?_
  have hlabel : Moves (Carries Quiet) (Client.setSlotLabel ((observer opens).env E) label) := by
    refine Tells.carries (Tells.bind (Tells.mono (call_tells E opens (by simp)) fun h => ?_) fun answer => ?_)
    · cases h
    · cases answer <;> first | exact Tells.of_carries (Moves.pure _) | exact Tells.of_carries (Moves.fail _)
  cases connected with
  | true => exact hlabel
  | false => exact Moves.bind (reconnect_quiet E opens) fun _ => hlabel

end Databases

-- The answers that the operation recognises: a read or a write does not recognise the answer to
-- the Open that resumes its lease.
def recognised : Session.Op → Bool
  | .Read _ _ | .Write _ _ => false
  | _ => true

-- An operation of a session, its answers watched.
def step (E : Env ω) (db : Database (ω × Alarm)) (op : Session.Op) : Database (ω × Alarm) :=
  op.run ((observer (recognised op)).env E) db

theorem step_warned {db : Database (ω × Alarm)} (h : Warned db) (op : Session.Op) :
    Warned (step E db op) := by
  cases op with
  | Read offset length =>
      exact Database.unlessBroken_moves (Pages.read_respects (source_warned E) offset length) db h
  | Write offset data =>
      exact Database.unlessBroken_moves (Pages.write_respects (source_warned E) offset data) db h
  | Truncate size =>
      have htruncate : Moves (Carries Warned) (Prog.modify (Held.mapPages (·.truncate size)) :
          Prog (Database (ω × Alarm)) Broken Unit) := Moves.modify fun _ h => h
      exact Database.unlessBroken_moves htruncate db h
  | Commit timeout => exact commit_warned E true timeout db h
  | Heal =>
      simp only [step, Session.Op.run]
      by_cases hunreachable : db.isUnreachable = true
      · rw [if_pos hunreachable]
        refine (heal_warns E true).warned (h.resolve_right fun hbroken => ?_)
        simp [Database.isUnreachable, hbroken] at hunreachable
      · rw [if_neg hunreachable]
        exact h
  | Label label => exact h.imp_left fun hhush => label_quiet E true label db.source.link hhush

theorem run_warned {db : Database (ω × Alarm)} (h : Warned db) (ops : List Session.Op) :
    Warned (ops.foldl (step E) db) := by
  induction ops generalizing db with
  | nil => exact h
  | cons op rest ih => exact ih (step_warned E h op)

end Alarm

namespace Session

open Observer

variable {ω : Type} (E : Env ω)

-- Broken for good: a heal is tried only while the server may be reachable again.
def Final (reason : Broken) : Prop := ∀ text, reason ≠ .Uncertain text

-- What an operation changes in a database that is broken for good: the connection at most.
structure Frozen (before after : Database ω) : Prop where
  pages : after.pages = before.pages
  remote : after.remote = before.remote

theorem Frozen.step {reason : Broken} {start db : Database ω} (h : Frozen start db)
    (hbroken : start.remote.broken = some reason) (hfinal : Final reason) (op : Op) :
    Frozen start (op.run E db) := by
  have hreason : db.remote.broken = some reason := by rw [h.remote, hbroken]
  cases op with
  | Read offset length =>
      rw [Op.run, Database.read, Database.unlessBroken_broken hreason]
      exact h
  | Write offset data =>
      rw [Op.run, Database.write, Database.unlessBroken_broken hreason]
      exact h
  | Truncate size =>
      rw [Op.run, Database.truncate, Database.unlessBroken_broken hreason]
      exact h
  | Commit timeout =>
      rw [Op.run, Database.commit, Database.unlessBroken_broken hreason]
      exact h
  | Heal =>
      have hunreachable : db.isUnreachable = false := by
        unfold Database.isUnreachable
        rw [hreason]
        cases reason with
        | Uncertain text => exact absurd rfl (hfinal text)
        | _ => rfl
      rw [Op.run, hunreachable]
      exact h
  | Label label => exact ⟨h.pages, h.remote⟩

theorem Frozen.run {reason : Broken} {start db : Database ω} (h : Frozen start db)
    (hbroken : start.remote.broken = some reason) (hfinal : Final reason) (ops : List Op) :
    Frozen start (ops.foldl (Op.run E) db) := by
  induction ops generalizing db with
  | nil => exact h
  | cons op rest ih => exact ih (h.step E hbroken hfinal op)

-- An answer that fences the database breaks it, and nothing is done with a database that is
-- broken for good. The state that such a call leaves is the one before: it sends no frame.
theorem fencing_is_recognised_and_final :
    (∀ db : Database (ω × Alarm), Alarm.Hush db → ∀ ops : List Op,
      (seen (ops.foldl (Alarm.step E) db)).fenced = true →
        (ops.foldl (Alarm.step E) db).remote.broken = some .Fenced) ∧
    ∀ (db : Database ω) (reason : Broken), db.remote.broken = some reason → Final reason →
      ∀ ops : List Op, let after := ops.foldl (Op.run E) db
        after.pages = db.pages ∧ after.remote = db.remote ∧
        (∀ offset length, Database.read E offset length after = (.err reason, after)) ∧
        (∀ offset data, Database.write E offset data after = (.err reason, after)) ∧
        (∀ size, Database.truncate size after = (.err reason, after)) ∧
        ∀ timeout, Database.commit E timeout after = (.err reason, after) := by
  refine ⟨fun db hhush ops hfenced => ?_, fun db reason hbroken hfinal ops => ?_⟩
  · refine (Alarm.run_warned E (.inl hhush) ops).resolve_left fun h => ?_
    rw [Alarm.Hush, hfenced] at h
    cases h
  · have hfrozen := Frozen.run E ⟨rfl, rfl⟩ hbroken hfinal ops
    have hreason : (ops.foldl (Op.run E) db).remote.broken = some reason := by
      rw [hfrozen.remote, hbroken]
    exact ⟨hfrozen.pages, hfrozen.remote, fun _ _ => Database.unlessBroken_broken hreason _,
      fun _ _ => Database.unlessBroken_broken hreason _, fun _ => Database.unlessBroken_broken hreason _,
      fun _ => Database.unlessBroken_broken hreason _⟩

-- A database of one block that was opened at this login.
def leased {ω : Type} (login : Nat) (broken : Option Broken) (world : ω) : Database ω where
  pages := .new 512 1 (some ⟨1, 64⟩) none
  stats := {}
  source :=
    { remote := ⟨"db", "", 1, [], 1, [], none, .None, broken, login⟩
      link := ⟨(Client.listening []).client, world⟩ }

-- The answer to the first request.
def refused (code : Pb.ErrorCode) : Client.Inbox × Alarm :=
  ([.ok ⟨1, some (.Error ⟨code, "", 0, 0⟩)⟩], ⟨.Nothing, false⟩)

-- A fetch that is answered with SLOT_TAKEN, and a read after it.
theorem fencing_is_recognised_and_final_fetch :
    (([.Read 0 1] : List Op).foldl (Alarm.step (Client.scripted 2 Client.noStore))
      (leased 0 none (refused .SlotTaken))).remote.broken = some .Fenced ∧
    (Database.read (Client.scripted 2 Client.noStore) 0 1 (leased 0 (some .Fenced) [])).1 =
      .err .Fenced := by
  have h := fencing_is_recognised_and_final (Client.scripted 2 Client.noStore)
  refine ⟨h.1 (leased 0 none (refused .SlotTaken)) rfl [.Read 0 1] (by decide +kernel), ?_⟩
  have hread := (h.2 (leased 0 (some .Fenced) []) .Fenced rfl (fun _ h => by cases h) []).2.2.1 0 1
  exact congrArg Prod.fst hread

-- The answer to the Open of a read: the server says that the lease is lost, and the database
-- looks unreachable.
theorem fenced_resume_of_read_is_uncertain :
    (seen ((Op.Read 0 1).run ((Alarm.observer true).env (Client.scripted 2 Client.noStore))
      (leased 1 none (refused .Fenced)))).fenced = true ∧
    ((Op.Read 0 1).run ((Alarm.observer true).env (Client.scripted 2 Client.noStore))
      (leased 1 none (refused .Fenced))).isUnreachable = true := by
  decide +kernel

end Session

end RemoteVfs
