import RemoteVfs.Conduct.Session
import RemoteVfs.Inner
import RemoteVfs.MainFile.Calls

namespace RemoteVfs.Conduct

open Base Base.Prog Observer Database

variable {ω τ ε α : Type} {E : Env ω} {file : Option (String × Nat)} {dbId : String}

theorem Ready.closed {link : Link (ω × Conduct)} (h : Ready file link) : Ready none link :=
  ⟨h.sound, h.login, fun _ _ hfile => by cases hfile⟩

section Opening

theorem opening_ready (pages : Pages) (remote : Remote) :
    Triple (fun desk => Live dbId ⟨remote, desk.link⟩) (opening (observer.env E) pages remote)
      (Settles (fun desk => Sound desk.link) (fun desk => Ready none desk.link) fun opened desk =>
        Live dbId ⟨opened.2, desk.link⟩) := by
  have hfill : Triple (fun db => Live dbId db.source) (do
      Remote.fill (observer.env E)
      let db ← Prog.get
      return (db.pages, db.remote) : Prog (Database (ω × Conduct)) ClientError (Pages × Remote))
      (Settles (fun db => Sound db.source.link) (fun db => Fit dbId db.source) fun opened db =>
        Live dbId ⟨opened.2, db.source.link⟩) :=
    Settles.bind (steps_of_live fill_live) fun _ => fun _ h => h
  refine Triple.zoom fun desk hlive => hfill.mono ?_ fun o db ho => ?_
  · rintro db rfl
    exact hlive
  · exact ho.imp (fun h => h) (fun h => h.2.closed) fun _ h => h

theorem openOn_ready (options : OpenOptions) :
    Triple (fun desk => Ready none desk.link) (openOn (observer.env E) dbId options)
      (Settles (fun desk => Sound desk.link) (fun desk => Ready none desk.link) fun opened desk =>
        Live dbId ⟨opened.2, desk.link⟩) := by
  have hcall : ∀ request : Pb.Open, request.dbId = dbId → Triple (fun desk => Ready none desk.link)
      (onDesk (Client.call (observer.env E) (.Open request)))
      (Settles (fun desk => Sound desk.link) (fun desk => Ready none desk.link) fun answer desk =>
        Ready none desk.link ∧ ∀ opened, answer = .Opened opened → dbId ∈ (heard desk.link).connection.opened) := by
    rintro request rfl
    exact Settles.zoom (fun _ _ => rfl) (open_ready request)
  refine Settles.bind (hcall _ rfl) fun answer => ?_
  cases answer with
  | Opened opened =>
      dsimp only
      cases checked opened none with
      | error err => exact Triple.fail fun _ h => h.1
      | ok value =>
          intro desk hdesk
          exact opening_ready _ _ desk (Ready.opened hdesk.1 (hdesk.2 opened rfl) rfl rfl)
  | _ => exact Triple.fail fun _ h => h.1

end Opening

section Backend

-- A request of the VFS on its connection, whatever database is open.
def Keeps (body : Prog (ServerBackend (ω × Conduct)) ε α) : Prop :=
  ∀ file, Guards (fun server => Sound server.link) (fun server => Ready file server.link) body

theorem keeps_onLink {body : Prog (Link (ω × Conduct)) ε α} (h : ∀ file, Guards Sound (Ready file) body) :
    Keeps (ServerBackend.onLink body) :=
  fun file => Settles.zoom (fun _ _ => rfl) (h file)

theorem keeps_plain {body : Prog (Link (ω × Conduct)) ε α} (h : Moves (Talks Plain) body) :
    Keeps (ServerBackend.onLink body) := by
  refine keeps_onLink fun file => Carries.guards (fun link hready => ?_) fun _ h => h.sound
  exact hready.plain (h link)

theorem keeps_connected : Keeps (ServerBackend.connected (observer.env E)) := by
  refine fun file => Guards.bind (keeps_plain (isConnected_talks E) file) fun connected => ?_
  refine Guards.ite (Guards.pure _) (Guards.handle ?_ fun _ => Guards.fail _)
  exact keeps_onLink (fun _ => reconnect_ready) file

theorem keeps_request (what : String) {call : Prog (Link (ω × Conduct)) ClientError α}
    (h : Moves (Talks Plain) call) : Keeps (ServerBackend.request what call) :=
  fun file => Guards.handle (keeps_plain h file) fun _ => Guards.fail _

theorem keeps_cacheStore (config : Config) (name : String) :
    Keeps (ServerBackend.cacheStore (observer.env E) config name :
      Prog (ServerBackend (ω × Conduct)) ε Bool) := by
  intro file
  refine Guards.bind (Guards.gets _) fun server => Guards.ite (Guards.pure _) ?_
  refine Guards.bind (Guards.attempt (keeps_plain (outside_talks (aside_unseen _)) file)) fun result => ?_
  cases result with
  | error err => exact Guards.pure _
  | ok _ => exact Guards.bind (fun _ h => h) fun _ => Guards.pure _

theorem clearCache_unseen (config : Config) (name : String) :
    Moves (Same Prod.snd) (ServerBackend.clearCache (observer.env E) config name) := by
  refine Moves.bind (aside_unseen _) fun head => ?_
  cases head with
  | none => exact Moves.pure _
  | some head => exact Moves.ite (aside_unseen _) (Moves.pure _)

theorem keeps_deleteOnServer (config : Config) (name : String) :
    Keeps (ServerBackend.deleteOnServer (observer.env E) config name) := by
  intro file
  refine Guards.bind (keeps_connected file) fun _ => ?_
  refine Guards.bind (keeps_request _ (expect_talks E (fun _ h => h) _ _) file) fun _ => ?_
  refine Guards.bind (keeps_cacheStore config name file) fun cached => Guards.ite ?_ (Guards.pure _)
  have hclear := keeps_plain (outside_talks (clearCache_unseen (E := E) config name)) file
  refine Guards.bind (Guards.attempt hclear) fun result => Guards.bind (fun _ h => h) fun _ => ?_
  cases result with
  | ok _ => exact Guards.pure _
  | error err => exact Guards.fail _

theorem ping_talks (time : Nat) :
    Moves (Talks Plain) (ServerBackend.ping (observer.env E) time : Prog (Link (ω × Conduct)) ε Unit) := by
  refine Moves.bind (Moves.gets _) fun client => Moves.ite ?_ (Moves.pure _)
  refine Moves.bind (now_talks E) fun now => Moves.ite ?_ (Moves.pure _)
  exact Moves.bind (Moves.attempt (call_talks E fun _ h => h)) fun _ => Moves.pure _

theorem openOnServer_ready (config : Config) (dbId : String) (create : Bool) :
    Triple (fun front => Ready none front.server.link)
      (ServerBackend.openOnServer (observer.env E) config dbId create)
      (Settles (fun front => Sound front.server.link) (fun front => Ready none front.server.link)
        fun opened front => Live dbId ⟨opened.2, front.server.link⟩) := by
  have hserver : ∀ {ε α : Type} {body : Prog (ServerBackend (ω × Conduct)) ε α}, Keeps body →
      Guards (fun front : ServerBackend.Front (ω × Conduct) => Sound front.server.link)
        (fun front => Ready none front.server.link) (ServerBackend.onServer body) :=
    fun h => Settles.zoom (fun _ _ => rfl) (h none)
  have hreconnect : Guards (fun front : ServerBackend.Front (ω × Conduct) => Sound front.server.link)
      (fun front => Ready none front.server.link) (ServerBackend.reconnectToOpen (observer.env E)) := by
    refine Guards.bind (hserver (keeps_plain (isConnected_talks E))) fun connected => ?_
    refine Guards.ite (Guards.pure _) (Guards.handle ?_ fun _ => Guards.fail _)
    exact hserver (keeps_onLink fun _ => reconnect_ready)
  have hopen : ∀ options : OpenOptions,
      Triple (fun front : ServerBackend.Front (ω × Conduct) => Ready none front.server.link)
        (ServerBackend.onDesk (openOn (observer.env E) dbId options))
        (Settles (fun front => Sound front.server.link) (fun front => Ready none front.server.link)
          fun opened front => Live dbId ⟨opened.2, front.server.link⟩) := by
    intro options
    refine Triple.zoom fun front hready => (openOn_ready options).mono ?_ fun o desk ho => ?_
    · rintro desk rfl
      exact hready
    · exact ho.imp (fun h => h) (fun h => h) fun _ h => h
  refine Settles.bind hreconnect fun _ => Settles.bind (hserver (keeps_cacheStore config dbId)) fun cached => ?_
  exact Settles.handle (hopen _) fun _ => Triple.fail fun _ h => h

end Backend

section File

-- The server side of an open file.
def MainFit (dbId : String) (main : MainFile (ω × Conduct) τ) : Prop :=
  ∀ db, main.db = .Server db → Fit dbId db.source

def MainSound (main : MainFile (ω × Conduct) τ) : Prop := ∀ db, main.db = .Server db → Sound db.source.link

theorem onDb_fit {server : Prog (Database (ω × Conduct)) ε α} {stored : Prog (LocalDatabase τ) ε α}
    (h : Steps dbId server fun _ db => Fit dbId db.source) :
    Guards MainSound (MainFit dbId) (MainFile.onDb server stored) := by
  rintro ⟨db, failure, refuses, timeout⟩ hfit
  cases db with
  | Server db =>
      have honly : ∀ {p : Database (ω × Conduct) → Prop} {after : Database (ω × Conduct)}, p after →
          ∀ other, (Db.Server after : Db (ω × Conduct) τ) = .Server other → p other := by
        rintro p after hp _ ⟨⟩
        exact hp
      exact (h db (hfit db rfl)).imp (fun h => honly h) (fun h => honly h) fun _ h => honly h
  | Local db =>
      have hnone : ∀ after : LocalDatabase τ, MainFit dbId
          (⟨.Local after, failure, refuses, timeout⟩ : MainFile (ω × Conduct) τ) :=
        fun after other hother => by cases hother
      exact (settles_same.mpr (hnone _)).imp (fun h db hdb => (h db hdb).sound) (fun h => h) fun _ h => h

theorem reachable_talks :
    Moves (Talks Plain) (Client.reachable (observer.env E) : Prog (Link (ω × Conduct)) ε Bool) :=
  Moves.bind (Moves.gets _) fun _ => Moves.ite (outside_talks fun _ => rfl) (Moves.pure _)

theorem calls_fit (bridge : LocalBridge τ) : MainFile.Calls (observer.env E) bridge MainSound (MainFit dbId) where
  setFailure _ := fun _ h => h
  heal := by
    refine onDb_fit (Guards.bind (Guards.gets _) fun db => Guards.ite ?_ (Guards.pure _))
    refine Guards.bind (steps_of_fit (onLink_fit reachable_talks)) fun reached => Guards.ite ?_ (Guards.pure _)
    refine Guards.bind (Guards.attempt heal_steps) fun result => ?_
    cases result with
    | ok _ => exact Guards.pure _
    | error broken => exact Guards.pure _
  read _ _ := onDb_fit (read_steps _ _)
  write _ _ := onDb_fit (write_steps _ _)
  truncate _ := onDb_fit (truncate_steps _)
  commit _ := onDb_fit (commit_steps _)

end File

end RemoteVfs.Conduct

namespace RemoteVfs.Inner

open Base Base.Prog Observer Conduct

section Link

variable {ω τ : Type}

-- The connection of a VFS with a server.
def link (inner : Inner ω τ) : Option (Link ω) :=
  match inner.files with
  | .Closed (.Server link) _ _ => some link
  | .Closed (.Local _) _ _ => none
  | .Open _ main =>
    match main.db with
    | .Server db => some db.source.link
    | .Local _ => none

-- The open database, with the number of the login that it was opened after.
def file (inner : Inner ω τ) : Option (String × Nat) :=
  match inner.files with
  | .Closed _ _ _ => none
  | .Open _ main =>
    match main.db with
    | .Server db => some (db.remote.dbId, db.remote.login)
    | .Local _ => none

end Link

variable {ω τ ε α : Type} {E : Env ω} {bridge : LocalBridge τ}
  {deleteLocal : String → Bool → Prog τ Refusal Unit}

-- All frames that were sent, each with its connection as it was then.
def frames (inner : Inner (ω × Conduct) τ) : List (Connection × Pb.ClientBody) :=
  match inner.link with
  | some link => (heard link).frames
  | none => []

def Orderly (inner : Inner (ω × Conduct) τ) : Prop := ∀ link, inner.link = some link → (heard link).Orderly

def Fits (inner : Inner (ω × Conduct) τ) : Prop := ∀ link, inner.link = some link → Ready inner.file link

-- A VFS of local databases has no connection.
theorem of_local {inner : Inner (ω × Conduct) τ} (h : inner.link = none) (o : Outcome ε α) :
    Settles Orderly Fits (fun _ => Fits) o inner := by
  have hfits : Fits inner := by
    intro link hlink
    rw [h] at hlink
    cases hlink
  exact (settles_same.mpr hfits).imp (fun h link hlink => (h link hlink).sound) (fun h => h) fun _ h => h

-- One of a server has one.
theorem of_server {inner : Inner (ω × Conduct) τ} {link : Link (ω × Conduct)} (hlink : inner.link = some link)
    {o : Outcome ε α} (h : Settles Sound (Ready inner.file) (fun _ => Ready inner.file) o link) :
    Settles Orderly Fits (fun _ => Fits) o inner := by
  have honly : ∀ {p : Link (ω × Conduct) → Prop}, p link → ∀ other, inner.link = some other → p other := by
    intro p hp other hother
    rw [hlink] at hother
    cases hother
    exact hp
  exact h.imp (fun h => honly h) (fun h => honly h) fun _ h => honly h

theorem onBackend_fits {server : Prog (ServerBackend (ω × Conduct)) ε α} (h : Keeps server)
    (stored : Prog τ ε α) : Guards Orderly Fits (onBackend server stored) := by
  rintro ⟨config, cache, files⟩ hfits
  rcases files with ⟨link | world, stats, failure⟩ | ⟨name, db, failure, refuses, timeout⟩
  · have hafter := h none ⟨link, cache⟩ (hfits link rfl)
    exact of_server rfl (hafter.imp (fun h => h) (fun h => h) fun _ h => h)
  · exact of_local rfl _
  · cases db with
    | Server db =>
        have hafter := h _ ⟨db.source.link, cache⟩ (hfits _ rfl)
        exact of_server rfl (hafter.imp (fun h => h) (fun h => h) fun _ h => h)
    | Local db => exact of_local rfl _

theorem fits_main {config : Config} {cache : Bool} {name dbId : String} {main : MainFile (ω × Conduct) τ}
    (h : MainFit dbId main) : Fits ⟨config, cache, .Open name main⟩ := by
  obtain ⟨db, failure, refuses, timeout⟩ := main
  cases db with
  | Local db => exact fun link hlink => by cases hlink
  | Server db =>
      obtain ⟨hid, hready⟩ := h db rfl
      rintro link ⟨⟩
      show Ready (some (db.source.remote.dbId, db.source.remote.login)) db.source.link
      rw [hid]
      exact hready

theorem orderly_main {config : Config} {cache : Bool} {name : String} {main : MainFile (ω × Conduct) τ}
    (h : MainSound main) : Orderly ⟨config, cache, .Open name main⟩ := by
  obtain ⟨db, failure, refuses, timeout⟩ := main
  cases db with
  | Local db => exact fun link hlink => by cases hlink
  | Server db =>
      rintro link ⟨⟩
      exact h db rfl

theorem Fits.main {config : Config} {cache : Bool} {name : String} {main : MainFile (ω × Conduct) τ}
    (h : Fits ⟨config, cache, .Open name main⟩) : ∃ dbId, MainFit dbId main := by
  obtain ⟨db, failure, refuses, timeout⟩ := main
  cases db with
  | Local db => exact ⟨"", fun db hdb => by cases hdb⟩
  | Server db =>
      refine ⟨db.remote.dbId, ?_⟩
      rintro _ ⟨⟩
      exact ⟨rfl, h _ rfl⟩

theorem onFile_fits {body : Prog (MainFile (ω × Conduct) τ) Broken α}
    (h : ∀ dbId, Guards MainSound (MainFit dbId) body) : Guards Orderly Fits (onFile body) := by
  rintro ⟨config, cache, files⟩ hfits
  cases files with
  | Closed backend stats failure => exact hfits
  | Open name main =>
      obtain ⟨dbId, hmain⟩ := hfits.main
      have hafter := h dbId main hmain
      unfold onFile
      dsimp only
      generalize body main = run at hafter ⊢
      rcases run with ⟨value | reason | _, after⟩
      · exact fits_main hafter
      · exact fits_main hafter
      · exact orderly_main hafter

theorem openDatabase_fits (name : String) (create : Bool) :
    Guards Orderly Fits (openDatabase (observer.env E) bridge name create) := by
  rintro ⟨config, cache, files⟩ hfits
  rcases files with ⟨link | world, stats, failure⟩ | ⟨other, main⟩
  · have hopened := openOnServer_ready (E := E) config name create ⟨stats, link, cache⟩ (hfits link rfl)
    unfold openDatabase
    dsimp only
    generalize ServerBackend.openOnServer (observer.env E) config name create ⟨stats, link, cache⟩ = run
      at hopened ⊢
    rcases run with ⟨⟨pages, remote⟩ | err | _, front⟩
    · refine fits_main (?_ : MainFit name _)
      rintro _ ⟨⟩
      exact hopened.1
    · rintro _ ⟨⟩
      exact hopened
    · rintro _ ⟨⟩
      exact hopened
  · unfold openDatabase
    dsimp only
    generalize openLocally bridge config name create ⟨stats, world⟩ = run
    rcases run with ⟨db | err | _, desk⟩
    · exact fun link hlink => by cases hlink
    · exact fun link hlink => by cases hlink
    · exact fun link hlink => by cases hlink
  · exact hfits

theorem closeOnServer_steps {dbId : String} :
    Steps dbId (ServerBackend.closeOnServer (observer.env E) : Prog (Database (ω × Conduct)) ε Bool)
      fun _ db => Fit dbId db.source := by
  refine Guards.bind close_steps fun _ => Guards.ite (Guards.pure _) (Guards.bind (Guards.gets _) fun db => ?_)
  cases db.remote.copy with
  | Ready =>
      refine Guards.bind (Guards.attempt (steps_of_fit ?_)) fun _ => Guards.pure _
      exact onWorld_bound bound_fit (aside_unseen _)
  | None => exact Guards.pure _
  | Writing writer => exact Guards.pure _

theorem closeFile_fits :
    Guards Orderly Fits (closeFile (observer.env E) bridge : Prog (Inner (ω × Conduct) τ) ε Unit) := by
  rintro ⟨config, cache, files⟩ hfits
  rcases files with ⟨backend, stats, failure⟩ | ⟨name, db, failure, refuses, timeout⟩
  · exact hfits
  cases db with
  | Local db => exact fun link hlink => by cases hlink
  | Server db =>
      have hclosed := closeOnServer_steps (E := E) (ε := ε) db ⟨rfl, hfits _ rfl⟩
      unfold closeFile
      dsimp only
      generalize ServerBackend.closeOnServer (observer.env E) db = run at hclosed ⊢
      rcases run with ⟨back | reason | _, after⟩
      · rintro _ ⟨⟩
        exact hclosed.2.closed
      · rintro _ ⟨⟩
        exact hclosed.2.closed
      · rintro _ ⟨⟩
        exact hclosed

theorem reportTakeovers_fits :
    Guards Orderly Fits (reportTakeovers : Prog (Inner (ω × Conduct) τ) ε Unit) := by
  refine Guards.bind (onBackend_fits (keeps_plain fun link => ?_) _) fun revoked => Triple.modify ?_
  · exact Talks.of_same rfl (fun h => h) rfl
  rintro ⟨config, cache, files⟩ hfits
  cases files with
  | Closed backend stats failure => exact hfits
  | Open name main =>
      dsimp only
      split_ifs
      · exact hfits
      · exact hfits

theorem settled_fits {body : Prog (Inner (ω × Conduct) τ) ε α} (h : Guards Orderly Fits body) :
    Guards Orderly Fits (settled body) :=
  Guards.bind (Guards.attempt h) fun _ => Guards.pure _

theorem withClient_fits (what : String) {call : Prog (Link (ω × Conduct)) ClientError α}
    (h : Moves (Talks Plain) call) :
    Guards Orderly Fits (withClient (observer.env E) what call : Prog (Inner (ω × Conduct) τ) Error α) := by
  refine onBackend_fits (fun file => ?_) _
  exact Guards.bind (keeps_connected file) fun _ => keeps_request what h file

theorem deleteSlot_fits :
    Guards Orderly Fits (deleteSlot (observer.env E) : Prog (Inner (ω × Conduct) τ) Error Unit) := by
  refine Guards.bind (Guards.gets _) fun inner => ?_
  cases inner.database with
  | some name => exact Guards.fail _
  | none => exact withClient_fits _ (expect_talks E (fun _ h => h) _ _)

theorem deleteDatabase_fits (name : String) :
    Guards Orderly Fits (deleteDatabase (observer.env E) deleteLocal name) := by
  refine Guards.bind (Guards.gets _) fun inner => Guards.ite (Guards.fail _) ?_
  exact onBackend_fits (keeps_deleteOnServer _ _) _

theorem run_fits (op : Op) : Guards Orderly Fits (op.run (observer.env E) bridge deleteLocal) := by
  cases op with
  | Open name create => exact settled_fits (openDatabase_fits name create)
  | Close => exact closeFile_fits
  | File op =>
      cases op with
      | Read offset length => exact settled_fits (onFile_fits fun _ => (calls_fit bridge).reads _ _)
      | Write offset data => exact settled_fits (onFile_fits fun _ => (calls_fit bridge).writes _ _)
      | Truncate size => exact settled_fits (onFile_fits fun _ => (calls_fit bridge).truncates _)
      | Commit => exact settled_fits (onFile_fits fun _ => (calls_fit bridge).commits)
  | Delete name => exact settled_fits (deleteDatabase_fits name)
  | ClaimSlot => exact settled_fits (withClient_fits _ (expect_talks E (fun _ h => h) _ _))
  | SetSlotLabel label => exact settled_fits (withClient_fits _ (expect_talks E (fun _ h => h) _ _))
  | DeleteSlot => exact settled_fits deleteSlot_fits
  | DropConnection => exact onBackend_fits (keeps_plain fun _ => disconnect_talks) _
  | Ping time =>
      exact Guards.bind (onBackend_fits (keeps_plain (ping_talks time)) _) fun _ => reportTakeovers_fits
  | Push revoked =>
      exact Guards.bind (onBackend_fits (keeps_plain (noteRevoked_talks revoked)) _) fun _ => reportTakeovers_fits

-- A VFS after registration. That of a server has logged in, on a connection of its own or on one
-- that was opened elsewhere.
inductive LoggedIn (E : Env ω) : Inner (ω × Conduct) τ → Prop where
  | Connect {config : Config} {cache : Bool} {client : ClientConfig} {started : Nat} {world : ω}
      {link : Link (ω × Conduct)}
      (h : Client.connect (observer.env E) ⟨Client.fresh client false started, world, .new⟩ = (.ok (), link)) :
      LoggedIn E (register config cache (.Server link))
  | WithTransport {config : Config} {cache : Bool} {client : ClientConfig} {started : Nat} {world : ω}
      {link : Link (ω × Conduct)}
      (h : Client.withTransport (observer.env E) ⟨Client.fresh client true started, world, .new⟩ = (.ok (), link)) :
      LoggedIn E (register config cache (.Server link))
  | Local {config : Config} {cache : Bool} {world : τ} : LoggedIn E (register config cache (.Local world))

-- Calls that return.
def Returning (E : Env ω) (bridge : LocalBridge τ) (deleteLocal : String → Bool → Prog τ Refusal Unit)
    (inner : Inner ω τ) (op : Op) : Prop := (op.run E bridge deleteLocal inner).1 ≠ .hang

theorem loggedIn_fits {inner : Inner (ω × Conduct) τ} (h : LoggedIn E inner) : Fits inner := by
  have hnew : (Conduct.new).Orderly := fun entry hentry => by cases hentry
  cases h with
  | Local => exact fun link hlink => by cases hlink
  | @Connect config cache client started world link h =>
      have hstart : Ready none (⟨Client.fresh client false started, world, .new⟩ : Link (ω × Conduct)) :=
        ⟨hnew, fun hopen => (nomatch hopen), fun _ _ hfile => (nomatch hfile)⟩
      have hready := reconnect_ready (E := E) _ hstart
      change Client.reconnect (observer.env E) _ = _ at h
      rw [h] at hready
      rintro _ ⟨⟩
      exact hready
  | @WithTransport config cache client started world link h =>
      have hstart : Unproven 0 (⟨Client.fresh client true started, world, .new⟩ : Link (ω × Conduct)) :=
        ⟨hnew, rfl, rfl⟩
      have hdone := logIn_unproven (E := E) _ hstart
      change Client.logIn (observer.env E) _ = _ at h
      rw [h] at hdone
      rintro _ ⟨⟩
      exact Done.ready (fun _ _ hfile => by cases hfile) hdone

theorem reached_fits {inner : Inner (ω × Conduct) τ}
    (h : Reached (observer.env E) bridge deleteLocal (LoggedIn E)
      (Returning (observer.env E) bridge deleteLocal) inner) : Fits inner := by
  induction h with
  | Registered h => exact loggedIn_fits h
  | @Step inner op _ hop ih =>
      have hrun : Settles Orderly Fits (fun _ => Fits) (op.run (observer.env E) bridge deleteLocal inner).1
        (op.run (observer.env E) bridge deleteLocal inner).2 := run_fits op inner ih
      rw [Returning] at hop
      cases hout : (op.run (observer.env E) bridge deleteLocal inner).1 with
      | ok _ =>
          rw [hout] at hrun
          exact hrun
      | err never => exact never.elim
      | hang => exact absurd hout hop

theorem Orderly.frames {inner : Inner (ω × Conduct) τ} (h : Orderly inner) :
    ∀ entry ∈ inner.frames, entry.1.refused = false → entry.1.allows entry.2 = true := by
  intro entry hentry
  unfold Inner.frames at hentry
  cases hlink : inner.link with
  | none =>
      rw [hlink] at hentry
      cases hentry
  | some link =>
      rw [hlink] at hentry
      exact h link hlink entry hentry

-- The frames of a run, up to the end of its last call or as far as that gets: on a connection on
-- which the login was not refused, only `Hello` and `Proof` are sent before it is complete, and
-- requests about a database only after it was opened there.
theorem frames_follow_the_login (inner : Inner (ω × Conduct) τ) (op : Op)
    (h : Reached (observer.env E) bridge deleteLocal (LoggedIn E)
      (Returning (observer.env E) bridge deleteLocal) inner) :
    ∀ entry ∈ (op.run (observer.env E) bridge deleteLocal inner).2.frames,
      entry.1.refused = false → entry.1.allows entry.2 = true := by
  have hrun : Settles Orderly Fits (fun _ => Fits) (op.run (observer.env E) bridge deleteLocal inner).1
    (op.run (observer.env E) bridge deleteLocal inner).2 := run_fits op inner (reached_fits h)
  refine Orderly.frames ?_
  cases hout : (op.run (observer.env E) bridge deleteLocal inner).1 with
  | ok _ =>
      rw [hout] at hrun
      exact fun link hlink => (hrun link hlink).sound
  | err never => exact never.elim
  | hang =>
      rw [hout] at hrun
      exact hrun

end RemoteVfs.Inner

namespace RemoteVfs.Site

open Base Observer Conduct

-- The site with a record of the traffic. It refuses the third request of a client.
def forgetful : Env Site :=
  { env serve with
    receive := fun site =>
      if site.asked.map Pb.ClientFrame.requestId = some 3 then
        (.ok (.ok ⟨3, some (.Error ⟨.RateLimited, "", 0, 0⟩)⟩), { site with asked := none })
      else (env serve).receive site }

def watched (E : Env Site) : Inner (Site × Conduct) Unit :=
  .register config false
    (.Server (Client.connect (observer.env E) ⟨Client.fresh clientConfig false 0, ⟨none, 0⟩, .new⟩).2)

end RemoteVfs.Site

namespace RemoteVfs.Inner

open Base Observer Conduct

theorem watched_loggedIn {E : Env Site} (h : (Client.connect (observer.env E)
    ⟨Client.fresh Site.clientConfig false 0, ⟨none, 0⟩, .new⟩).1 = .ok ()) : LoggedIn E (Site.watched E) :=
  .Connect (Prod.ext h rfl)

theorem frames_follow_the_login_slot_label :
    let after := ((Op.SetSlotLabel "a").run (observer.env (Site.env Site.serve)) Site.noBridge Site.noDelete
      (Site.watched (Site.env Site.serve))).2
    after.frames.length = 4 ∧ ∀ entry ∈ after.frames, entry.1.refused = false → entry.1.allows entry.2 = true := by
  have hstart : LoggedIn (Site.env Site.serve) (Site.watched (Site.env Site.serve)) :=
    watched_loggedIn (by decide +kernel)
  exact ⟨by decide +kernel, frames_follow_the_login _ _ (.Registered hstart)⟩

-- The connection breaks, and the server refuses the next login. The request after that is sent on
-- the connection without a login.
theorem request_after_a_refused_login :
    ∃ inner, Reached (observer.env Site.forgetful) Site.noBridge Site.noDelete (LoggedIn Site.forgetful)
        (Returning (observer.env Site.forgetful) Site.noBridge Site.noDelete) inner ∧
      ∃ entry ∈ ((Op.SetSlotLabel "a").run (observer.env Site.forgetful) Site.noBridge Site.noDelete inner).2.frames,
        entry.1.loggedIn = false ∧ entry.2 = .SetSlotLabel ⟨"a"⟩ := by
  have hstart : LoggedIn Site.forgetful (Site.watched Site.forgetful) := watched_loggedIn (by decide +kernel)
  refine ⟨_, .Step (.SetSlotLabel "a") (.Step .DropConnection (.Registered hstart) ?_) ?_, ?_⟩
  · unfold Returning
    decide +kernel
  · unfold Returning
    decide +kernel
  · decide +kernel

end RemoteVfs.Inner
