import RemoteVfs.Conduct.Login
import RemoteVfs.Pages.Moves
import RemoteVfs.Parts

namespace RemoteVfs.Conduct

open Base Base.Prog Observer Database Remote

variable {ω ε α : Type} {E : Env ω} {file : Option (String × Nat)} {dbId : String}

-- What holds between the operations on an open database, and while it may be asked for: it was
-- opened on the connection.
def Fit (dbId : String) (source : Fetch (ω × Conduct)) : Prop :=
  source.remote.dbId = dbId ∧ Ready (some (dbId, source.remote.login)) source.link

def Live (dbId : String) (source : Fetch (ω × Conduct)) : Prop :=
  Fit dbId source ∧ Has dbId source.link

theorem Fit.sound {source : Fetch (ω × Conduct)} (h : Fit dbId source) : Sound source.link := h.2.sound

-- What only depends on the traffic and on the login of the database.
def Bound (inv : Fetch (ω × Conduct) → Prop) : Prop :=
  ∀ a b : Fetch (ω × Conduct), b.remote.dbId = a.remote.dbId → b.remote.login = a.remote.login →
    heard b.link = heard a.link → b.link.client = a.link.client → inv a → inv b

theorem bound_fit : Bound (Fit (ω := ω) dbId) := by
  rintro a b hid hlogin hheard hclient ⟨hfit, hready⟩
  refine ⟨hid.trans hfit, ?_⟩
  rw [hlogin]
  exact hready.same hheard hclient

theorem bound_live : Bound (Live (ω := ω) dbId) := by
  rintro a b hid hlogin hheard hclient ⟨hfit, hhas⟩
  refine ⟨bound_fit a b hid hlogin hheard hclient hfit, ?_⟩
  rw [Has, hclient, hheard]
  exact hhas

section Bound

variable {inv : Fetch (ω × Conduct) → Prop} (hinv : Bound inv)
include hinv

theorem modify_bound {change : Database (ω × Conduct) → Database (ω × Conduct)}
    (hid : ∀ db, (change db).remote.dbId = db.remote.dbId)
    (hlogin : ∀ db, (change db).remote.login = db.remote.login)
    (hlink : ∀ db, (change db).source.link = db.source.link) :
    Moves (Carries fun db => inv db.source) (Prog.modify change : Prog (Database (ω × Conduct)) ε Unit) :=
  fun db => hinv db.source (change db).source (hid db) (hlogin db) (congrArg heard (hlink db))
    (congrArg Link.client (hlink db))

theorem onWorld_bound {body : Prog (ω × Conduct) ε α} (h : Moves (Same Prod.snd) body) :
    Moves (Carries fun db => inv db.source) (onWorld body) :=
  fun db => hinv db.source _ rfl rfl (h db.world) rfl

theorem copyMoves_bound :
    (observer.env E).CopyMoves (Same Prod.snd) (Carries fun db => inv db.source) where
  store := storeMoves_unseen observer E
  world := onWorld_bound hinv
  count _ := modify_bound hinv (fun _ => rfl) (fun _ => rfl) fun _ => rfl
  setCopy _ := modify_bound hinv (fun _ => rfl) (fun _ => rfl) fun _ => rfl

theorem mapPages_bound (change : Pages → Pages) :
    Moves (Carries fun db : Database (ω × Conduct) => inv db.source)
      (Prog.modify (Held.mapPages change) : Prog (Database (ω × Conduct)) ε Unit) :=
  modify_bound hinv (fun _ => rfl) (fun _ => rfl) fun _ => rfl

theorem now_bound :
    Moves (Carries fun db => inv db.source)
      (onLink (Client.now (observer.env E)) : Prog (Database (ω × Conduct)) ε Nat) :=
  onWorld_bound hinv fun _ => rfl

theorem breakWith_bound (broken : Broken) :
    Moves (Carries fun db => inv db.source) (breakWith broken : Prog (Database (ω × Conduct)) Broken α) :=
  Moves.bind (modify_bound hinv (fun _ => rfl) (fun _ => rfl) fun _ => rfl) fun _ => Moves.fail _

end Bound

-- Requests about the database, while it is open on the connection.
theorem onLink_live {body : Prog (Link (ω × Conduct)) ε α} (h : Moves (Talks (About dbId)) body) :
    Moves (Carries fun db => Live dbId db.source) (onLink body) :=
  fun db hlive => ⟨⟨hlive.1.1, hlive.1.2.about hlive.2 (h db.source.link)⟩, hlive.2.talks (h db.source.link)⟩

-- Other requests.
theorem onLink_fit {body : Prog (Link (ω × Conduct)) ε α} (h : Moves (Talks Plain) body) :
    Moves (Carries fun db => Fit dbId db.source) (onLink body) :=
  fun db hfit => ⟨hfit.1, hfit.2.plain (h db.source.link)⟩

section Loading

theorem changes_live (version : Nat) :
    Moves (Carries fun db => Live dbId db.source) (onLink (Client.changes (observer.env E) dbId version)) :=
  onLink_live (expect_talks E (about_changed ⟨dbId, version⟩) _ _)

theorem fetchRanges_live (version : Nat) (ranges : List (Nat × Nat)) (size : Nat) :
    Moves (Carries fun db => Live dbId db.source)
      (onLink (Client.fetchRanges (observer.env E) dbId version ranges size)) := by
  refine onLink_live (fetchRanges_talks E (fun fetch hfetch => ?_) version ranges size)
  subst hfetch
  exact about_fetch fetch

theorem takeCopy_live : Moves (Carries fun db => Live dbId db.source) (takeCopy (observer.env E)) := by
  have hcalls : (observer.env E).CopyCalls (Carries fun db => Live dbId db.source) :=
    (copyMoves_bound bound_live).calls fun _ => mapPages_bound bound_live _
  refine hcalls.takeCopy fun behind db hlive => ?_
  have hid : db.remote.dbId = dbId := hlive.1.1
  refine hcalls.catchCopyUp_from (fun _ => mapPages_bound bound_live _) (now_bound bound_live) ?_ ?_ behind hlive
  · rw [hid]
    exact changes_live
  · rw [hid]
    exact fetchRanges_live

theorem load_live (first blocks : Nat) :
    Moves (Carries fun db => Live dbId db.source) (load (observer.env E) first blocks) := by
  refine Moves.bind (now_bound bound_live) fun started db hlive => ?_
  have hid : db.remote.dbId = dbId := hlive.1.1
  rw [get_bind, hid]
  have hfetch : ∀ version, Moves (Carries fun db => Live dbId db.source)
      (onLink (Client.fetch (observer.env E) ⟨dbId, version, first, blocks, []⟩ db.pages.pageSize)) :=
    fun version => onLink_live (fetch_talks E (about_fetch ⟨dbId, version, first, blocks, []⟩) _)
  refine Moves.bind (hfetch _) (fun loaded => Moves.bind (now_bound bound_live) fun ended => ?_) db hlive
  refine Moves.bind ?_ fun _ => mapPages_bound bound_live _
  exact modify_bound bound_live (fun _ => rfl) (fun _ => rfl) fun _ => rfl

theorem fill_live : Moves (Carries fun db => Live dbId db.source) (Remote.fill (observer.env E)) := by
  have hrest : Moves (Carries fun db : Database (ω × Conduct) => Live dbId db.source) (do
      Prog.modify (Held.makeRoom 0)
      Prog.modify Held.count : Prog (Database (ω × Conduct)) ClientError Unit) := by
    refine Moves.bind ?_ fun _ => ?_
    · exact modify_bound bound_live (fun _ => rfl) (fun _ => rfl) fun _ => rfl
    · exact modify_bound bound_live (fun _ => rfl) (fun _ => rfl) fun _ => rfl
  refine Moves.bind takeCopy_live fun fromCopy => Moves.bind (Moves.gets _) fun db => Moves.ite ?_ hrest
  refine Moves.bind (load_live _ _) fun _ => Moves.bind (Moves.gets _) fun db => ?_
  exact Moves.bind ((copyMoves_bound bound_live).writeCopy _) fun _ => hrest

end Loading

section Resuming

-- An answered `Open` opens the database on the connection.
theorem open_ready (request : Pb.Open) :
    Triple (Ready file) (Client.call (observer.env E) (.Open request))
      (Settles Sound (Ready file) fun answer link => Ready file link ∧
        ∀ opened, answer = .Opened opened → request.dbId ∈ (heard link).connection.opened) := by
  intro link hlink
  have hready := hlink.plain (call_talks E (plain_open request) link)
  have hcall := call_heard E _ (.Open request) link rfl
  generalize Client.call (observer.env E) (.Open request) link = run at hready hcall ⊢
  rcases run with ⟨answer | reason | _, after⟩
  · refine ⟨hready, fun opened hopened => ?_⟩
    subst hopened
    rw [hcall]
    exact List.mem_cons_self ..
  · exact hready
  · exact hready.sound

-- A database that was opened just now.
theorem Ready.opened {link : Link (ω × Conduct)} (h : Ready file link)
    (hopened : dbId ∈ (heard link).connection.opened) {remote : Remote} (hid : remote.dbId = dbId)
    (hlogin : remote.login = link.client.logins) : Live dbId ⟨remote, link⟩ := by
  refine ⟨⟨hid, h.sound, h.login, ?_⟩, fun _ => .inr hopened⟩
  rintro _ _ ⟨⟩
  exact ⟨hlogin.le, fun _ _ => .inr hopened⟩

-- A part of an operation. However it ends, the database is as it may be between operations.
abbrev Steps (dbId : String) (body : Prog (Database (ω × Conduct)) ε α)
    (good : α → Database (ω × Conduct) → Prop) : Prop :=
  Triple (fun db => Fit dbId db.source) body
    (Settles (fun db => Sound db.source.link) (fun db => Fit dbId db.source) good)

theorem steps_of_fit {body : Prog (Database (ω × Conduct)) ε α}
    (h : Moves (Carries fun db => Fit dbId db.source) body) :
    Steps dbId body fun _ db => Fit dbId db.source :=
  Carries.guards h fun _ hfit => hfit.sound

theorem onLink_ready {body : Prog (Link (ω × Conduct)) ε α} {good : α → Link (ω × Conduct) → Prop}
    (h : ∀ file, Triple (Ready file) body (Settles Sound (Ready file) fun value link =>
      Ready file link ∧ good value link)) :
    Steps dbId (onLink body) fun value db => Fit dbId db.source ∧ good value db.source.link := by
  refine Triple.zoom fun db hfit => (h (some (dbId, db.remote.login))).mono ?_ fun o link ho => ?_
  · rintro link rfl
    exact hfit.2
  · exact ho.imp (fun h => h) (fun h => ⟨hfit.1, h⟩) fun _ h => ⟨⟨hfit.1, h.1⟩, h.2⟩

theorem onCurrentConnection_fit :
    Steps dbId (onCurrentConnection (observer.env E) : Prog (Database (ω × Conduct)) ε Bool)
      fun current db => Fit dbId db.source ∧ (current = true → Live dbId db.source) := by
  refine Settles.bind (steps_of_fit (onLink_fit (isConnected_talks E))) fun connected => ?_
  refine Triple.ite (fun _ => Triple.get fun db => Triple.pure ?_) fun _ => Triple.pure ?_
  · rintro _ ⟨hfit, rfl⟩
    refine ⟨hfit, fun hlogin => ⟨hfit, ?_⟩⟩
    exact (hfit.2.file dbId _ rfl).2 (of_decide_eq_true hlogin).symm
  · exact fun db hfit => ⟨hfit, fun h => nomatch h⟩

theorem reconnectIfDown_fit : Steps dbId (reconnectIfDown (observer.env E)) fun _ db => Fit dbId db.source := by
  have hreconnect : Steps dbId (onLink (Client.reconnect (observer.env E))) fun _ db => Fit dbId db.source := by
    have hready : ∀ file, Triple (Ready file) (Client.reconnect (observer.env E))
        (Settles Sound (Ready file) fun _ link => Ready file link ∧ True) :=
      fun file => Settles.weaken reconnect_ready fun _ _ h => ⟨h, trivial⟩
    exact Settles.weaken (onLink_ready hready) fun _ _ h => h.1
  refine Guards.bind (steps_of_fit (onLink_fit (isConnected_talks E))) fun connected => ?_
  refine Guards.ite (Guards.pure _) (Guards.bind hreconnect fun _ => steps_of_fit ?_)
  exact modify_bound bound_fit (fun _ => rfl) (fun _ => rfl) fun _ => rfl

theorem resume_fit : Steps dbId (resume (observer.env E)) fun _ db => Live dbId db.source := by
  refine Settles.bind reconnectIfDown_fit fun _ db hfit => ?_
  have hid : db.remote.dbId = dbId := hfit.1
  rw [get_bind, hid]
  refine Settles.bind (onLink_ready fun file => open_ready _) (fun answer => ?_) db hfit
  cases answer with
  | Opened opened =>
      dsimp only
      cases checked opened (some db.pages.pageSize) with
      | error err => exact Triple.fail fun _ h => h.1
      | ok value =>
          refine Settles.bind (Triple.modify fun after hafter => ?_) fun _ => Triple.pure fun _ h => h
          exact Ready.opened hafter.1.2 (hafter.2 opened rfl) hafter.1.1 rfl
  | _ => exact Triple.fail fun _ h => h.1

-- Breaking the database ends the operation.
theorem breakWith_steps (broken : Broken) (good : α → Database (ω × Conduct) → Prop) :
    Steps dbId (breakWith broken : Prog (Database (ω × Conduct)) Broken α) good :=
  fun db hfit => breakWith_bound bound_fit broken db hfit

theorem resumeStep_fit (deadline : Nat) :
    Steps dbId (resumeStep (observer.env E) deadline ())
      (orDone (fun _ db => Fit dbId db.source) fun _ db => Live dbId db.source) := by
  refine Settles.bind (Settles.attempt resume_fit) fun result => ?_
  cases result with
  | ok opened => exact Triple.pure fun _ h => h
  | error err =>
      refine Triple.ite (fun _ => breakWith_steps _ _) fun _ => ?_
      refine Triple.ite (fun _ => breakWith_steps _ _) fun _ => ?_
      refine Settles.bind (steps_of_fit (now_bound bound_fit)) fun time => ?_
      refine Triple.ite (fun _ => breakWith_steps _ _) fun _ => ?_
      refine Settles.bind (steps_of_fit (onWorld_bound bound_fit fun _ => rfl)) fun _ => ?_
      exact Triple.pure fun _ h => h

theorem resumeUntil_fit (deadline : Nat) :
    Steps dbId (resumeUntil (observer.env E) deadline) fun _ db => Live dbId db.source := by
  refine Settles.loop (fun _ (db : Database (ω × Conduct)) => Fit dbId db.source) (fun _ => ?_) ?_ _ _
  · exact resumeStep_fit deadline
  · exact fun _ _ h => h.sound

theorem reconnected_fit :
    Steps dbId (Fetch.reconnected (observer.env E)) fun _ db => Live dbId db.source := by
  refine Settles.bind onCurrentConnection_fit fun current => Triple.ite (fun hcurrent => ?_) fun _ => ?_
  · exact Triple.pure fun _ h => h.2 hcurrent
  · refine Triple.mono (Settles.bind (Settles.handle resume_fit fun err => ?_) fun _ => ?_) (fun _ h => h.1)
      fun _ _ h => h
    · exact Triple.ite (fun _ => breakWith_steps _ _) fun _ => breakWith_steps _ _
    · exact Triple.pure fun _ h => h

theorem diverged_steps (opened : Pb.Opened) (good : α → Database (ω × Conduct) → Prop) :
    Steps dbId (diverged opened : Prog (Database (ω × Conduct)) Broken α) good :=
  fun db hfit => breakWith_steps _ good db hfit

theorem commitReady_fit (deadline : Nat) :
    Steps dbId (commitReady (observer.env E) deadline) fun _ db => Live dbId db.source := by
  refine Settles.bind onCurrentConnection_fit fun current => Triple.ite (fun hcurrent => ?_) fun _ => ?_
  · exact Triple.pure fun _ h => h.2 hcurrent
  · refine Triple.mono (Settles.bind (resumeUntil_fit deadline) fun opened => Triple.get fun db => ?_)
      (fun _ h => h.1) fun _ _ h => h
    refine Triple.ite (fun _ => ?_) fun _ => Triple.pure fun _ h => h.1
    exact (diverged_steps opened _).mono (fun _ h => h.1.1) fun _ _ h => h

end Resuming

section Operations

-- What is done while the database is open on the connection.
theorem steps_of_live {body : Prog (Database (ω × Conduct)) ε α}
    (h : Moves (Carries fun db => Live dbId db.source) body) :
    Triple (fun db => Live dbId db.source) body
      (Settles (fun db => Sound db.source.link) (fun db => Fit dbId db.source) fun _ db =>
        Live dbId db.source) := by
  refine (Carries.guards h fun _ hlive => hlive.1.sound).mono (fun _ h => h) fun o db ho => ?_
  exact ho.imp (fun h => h) (fun h => h.1) fun _ h => h

theorem fill_steps (first blocks : Nat) :
    Steps dbId (Fetch.fill (observer.env E) first blocks) fun _ db => Fit dbId db.source := by
  refine Guards.bind (Guards.gets _) fun db => ?_
  cases db.remote.broken with
  | some broken => exact Guards.fail _
  | none =>
      have htake : Moves (Carries fun db => Fit dbId db.source)
          (takeFromCopy (observer.env E) first blocks : Prog (Database (ω × Conduct)) Broken Bool) :=
        (copyMoves_bound bound_fit).takeFromCopy (fun _ => mapPages_bound bound_fit _) first blocks
      refine Guards.bind (steps_of_fit htake) fun taken => Guards.ite (Guards.pure _) ?_
      refine Settles.bind reconnected_fit fun _ => ?_
      refine Settles.bind (Settles.handle (steps_of_live (load_live first blocks)) fun err => ?_) fun _ => ?_
      · exact Triple.ite (fun _ => breakWith_steps _ _) fun _ => Triple.fail fun _ h => h
      · exact Settles.weaken (steps_of_live ((copyMoves_bound bound_live).writeCopy _)) fun _ _ h => h.1

theorem unlessBroken_steps {body : Prog (Database (ω × Conduct)) Broken α}
    (h : Steps dbId body fun _ db => Fit dbId db.source) :
    Steps dbId (unlessBroken body) fun _ db => Fit dbId db.source := by
  refine Guards.bind (Guards.gets _) fun db => ?_
  cases db.remote.broken with
  | some broken => exact Guards.fail _
  | none => exact h

theorem read_steps (offset length : Nat) :
    Steps dbId (Database.read (observer.env E) offset length) fun _ db => Fit dbId db.source := by
  have hlost : ∀ source : Fetch (ω × Conduct), Fit dbId source → Sound source.link := fun _ h => h.sound
  refine unlessBroken_steps (Pages.read_guards hlost ?_ offset length)
  exact fill_steps

theorem write_steps (offset : Nat) (data : Bytes) :
    Steps dbId (Database.write (observer.env E) offset data) fun _ db => Fit dbId db.source := by
  have hlost : ∀ source : Fetch (ω × Conduct), Fit dbId source → Sound source.link := fun _ h => h.sound
  refine unlessBroken_steps (Pages.write_guards hlost ?_ offset data)
  exact fill_steps

theorem truncate_steps (size : Nat) :
    Steps dbId (Database.truncate size : Prog (Database (ω × Conduct)) Broken Unit) fun _ db =>
      Fit dbId db.source :=
  unlessBroken_steps (steps_of_fit (mapPages_bound bound_fit _))

theorem count_steps (change : Stats → Stats) :
    Steps dbId (Database.count change : Prog (Database (ω × Conduct)) ε Unit) fun _ db =>
      Fit dbId db.source :=
  steps_of_fit (modify_bound bound_fit (fun _ => rfl) (fun _ => rfl) fun _ => rfl)

theorem commitUnknown_steps (commitId : Bytes) (deadline : Nat) :
    Steps dbId (commitUnknown (observer.env E) commitId deadline) fun _ db => Fit dbId db.source := by
  refine Settles.bind (resumeUntil_fit deadline) fun opened => ?_
  refine Triple.mono (Guards.bind (Guards.gets _) fun db => ?_) (fun _ h => h.1) fun _ _ h => h
  refine Guards.ite (Guards.bind (count_steps _) fun _ => Guards.pure _) ?_
  exact Guards.ite (diverged_steps opened _) (Guards.bind (count_steps _) fun _ => Guards.pure _)

theorem commitFailed_steps (commitId : Bytes) (deadline : Nat) (err : ClientError) :
    Steps dbId (commitFailed (observer.env E) commitId deadline err) fun _ db => Fit dbId db.source := by
  refine Guards.ite (breakWith_steps _ _) (Guards.ite ?_ ?_)
  · refine Guards.bind (steps_of_fit (now_bound bound_fit)) fun time => Guards.ite (breakWith_steps _ _) ?_
    refine Guards.bind (steps_of_fit (onWorld_bound bound_fit fun _ => rfl)) fun _ => ?_
    exact Guards.bind (count_steps _) fun _ => Guards.pure _
  · cases err with
    | Server e => exact breakWith_steps _ _
    | _ => exact commitUnknown_steps commitId deadline

theorem commitRound_steps {parts : List Pb.Commit} (hparts : ∀ part ∈ parts, part.dbId = dbId)
    (commitId : Bytes) (deadline : Nat) :
    Steps dbId (commitRound (observer.env E) parts commitId deadline ()) fun _ db => Fit dbId db.source := by
  have habout : ∀ part ∈ parts, About dbId (.Commit part) := by
    intro part hpart
    rw [← hparts part hpart]
    exact about_commit part
  refine Settles.bind (commitReady_fit deadline) fun _ => ?_
  refine Settles.bind (Settles.attempt (steps_of_live (onLink_live (commit_talks E habout)))) fun result => ?_
  cases result with
  | ok version => exact Triple.pure fun _ h => h.1
  | error err => exact commitFailed_steps commitId deadline err

theorem commitDone_fit (parts commitTime : Nat) (commitId : Bytes) (version : Nat) :
    Moves (Carries fun db => Fit dbId db.source)
      (commitDone (observer.env E) parts commitTime commitId version) := by
  have hmodify : ∀ change : Database (ω × Conduct) → Database (ω × Conduct),
      (∀ db, (change db).remote.dbId = db.remote.dbId ∧ (change db).remote.login = db.remote.login ∧
        (change db).source.link = db.source.link) →
      Moves (Carries fun db => Fit dbId db.source) (Prog.modify change : Prog _ Broken Unit) :=
    fun change h => modify_bound bound_fit (fun db => (h db).1) (fun db => (h db).2.1) fun db => (h db).2.2
  refine Moves.bind (Moves.gets _) fun db => Moves.bind (hmodify _ fun _ => ⟨rfl, rfl, rfl⟩) fun _ => ?_
  refine Moves.bind (hmodify _ fun _ => ⟨rfl, rfl, rfl⟩) fun _ => Moves.bind (Moves.gets _) fun written => ?_
  refine Moves.bind (hmodify _ fun _ => ⟨rfl, rfl, rfl⟩) fun _ => ?_
  refine Moves.bind ((copyMoves_bound bound_fit).writeCopy _) fun _ => ?_
  exact Moves.bind (hmodify _ fun _ => ⟨rfl, rfl, rfl⟩) fun _ => hmodify _ fun _ => ⟨rfl, rfl, rfl⟩

theorem commitBegin_steps :
    Steps dbId (commitBegin (observer.env E)) fun begun db =>
      Fit dbId db.source ∧ ∀ part ∈ begun.2, part.dbId = dbId := by
  refine Settles.bind (steps_of_fit (onWorld_bound bound_fit fun _ => rfl)) fun commitId db hfit => ?_
  refine ⟨bound_fit db.source _ rfl rfl rfl rfl hfit, fun part hpart => ?_⟩
  exact (mem_parts_blocks hpart).1.trans hfit.1

theorem commit_steps (reconnectTimeout : Nat) :
    Steps dbId (Database.commit (observer.env E) reconnectTimeout) fun _ db => Fit dbId db.source := by
  refine unlessBroken_steps (Guards.bind (Guards.gets _) fun db => Guards.ite (Guards.pure _) ?_)
  refine Guards.ite (breakWith_steps _ _) (Settles.bind commitBegin_steps ?_)
  rintro ⟨commitId, parts⟩ db ⟨hfit, hparts⟩
  refine Guards.bind (steps_of_fit (now_bound bound_fit)) (fun started => ?_) db hfit
  refine Guards.bind (Guards.loop (fun _ => commitRound_steps hparts commitId _) ?_ _ _) fun version => ?_
  · exact fun _ h => h.sound
  · refine Guards.bind (steps_of_fit (now_bound bound_fit)) fun ended => ?_
    exact steps_of_fit (commitDone_fit _ _ _ _)

theorem reload_live (opened : Pb.Opened) :
    Triple (fun db => Live dbId db.source) (reload (observer.env E) opened)
      (Settles (fun db => Sound db.source.link) (fun db => Fit dbId db.source) fun _ db =>
        Live dbId db.source) := by
  refine steps_of_live (Moves.bind (Moves.gets _) fun db => ?_)
  refine Moves.bind (modify_bound bound_live (fun _ => rfl) (fun _ => rfl) fun _ => rfl) fun _ => ?_
  refine Moves.bind (Moves.handle fill_live fun err => ?_) fun _ => ?_
  · exact Moves.bind (mapPages_bound bound_live _) fun _ => breakWith_bound bound_live _
  · refine Moves.bind (modify_bound bound_live (fun _ => rfl) (fun _ => rfl) fun _ => rfl) fun _ => ?_
    exact modify_bound bound_live (fun _ => rfl) (fun _ => rfl) fun _ => rfl

theorem heal_steps :
    Steps dbId (Database.heal (observer.env E)) fun _ db => Fit dbId db.source := by
  refine Settles.bind (Settles.handle resume_fit fun err => breakWith_steps _ _) fun opened => ?_
  refine Triple.get fun db => Triple.ite (fun _ => ?_) fun _ => ?_
  · exact (breakWith_steps _ _).mono (fun _ h => h.1.1) fun _ _ h => h
  · refine Triple.mono (Settles.bind ?_ fun _ => Settles.weaken (reload_live opened) fun _ _ h => h.1)
      (fun _ h => h.1) fun _ _ h => h
    exact steps_of_live (modify_bound bound_live (fun _ => rfl) (fun _ => rfl) fun _ => rfl)

theorem close_steps :
    Steps dbId (Database.close (observer.env E) : Prog (Database (ω × Conduct)) ε Unit) fun _ db =>
      Fit dbId db.source := by
  intro db hfit
  have hid : db.remote.dbId = dbId := hfit.1
  unfold Database.close
  rw [get_bind, hid]
  refine (?_ : Steps dbId _ fun _ db => Fit dbId db.source) db hfit
  refine Triple.ite (fun _ => ?_) fun _ => ?_
  · exact steps_of_fit (onLink_fit fun link => disconnect_talks)
  · refine Settles.bind onCurrentConnection_fit fun current => Triple.ite (fun hcurrent => ?_) fun _ => ?_
    · have hclose := steps_of_live (onLink_live (call_talks E (about_closeDb ⟨dbId, db.remote.leaseEpoch⟩)))
      refine Triple.mono (Settles.bind (Settles.attempt hclose) fun result => ?_) (fun _ h => h.2 hcurrent)
        fun _ _ h => h
      cases result with
      | ok answer => exact Triple.pure fun _ h => h.1
      | error err => exact Triple.pure fun _ h => h
    · exact Triple.pure fun _ h => h.1

end Operations

end RemoteVfs.Conduct
