import RemoteVfs.Instance.Open
import RemoteVfs.Session.Run

namespace RemoteVfs

open Base

def ClientError.isTransport : ClientError → Bool
  | Transport _ => true
  | _ => false

namespace Client

variable {ω : Type} (E : Env ω)

def Up (link : Link ω) : Prop := link.client.isOpen = true

-- The connection is lost exactly with an error of the transport.
abbrev Tracked {α : Type} (body : Prog (Link ω) ClientError α) : Prop :=
  Prog.Shuts Up (ClientError.isTransport · = true) body

theorem disconnects {α : Type} {body : Prog ω String α} :
    Tracked (Prog.handle (Link.outside body) fun err => do
      Prog.modify (Link.mapClient disconnect)
      Prog.fail (.Transport err)) := by
  intro link hup
  unfold Prog.handle Link.outside Prog.zoom
  generalize body link.world = run
  rcases run with ⟨_ | _ | _, world⟩
  · exact hup
  · exact iff_of_false (fun h => by cases h) fun h => h rfl
  · trivial

-- An error of another kind leaves the connection as it is.
theorem fail_tracked {α : Type} {err : ClientError} (h : err.isTransport = false) :
    Tracked (Prog.fail err : Prog (Link ω) ClientError α) :=
  Prog.Shuts.fail (by rw [h]; exact Bool.false_ne_true)

theorem now_tracked : Tracked (now E) := fun _ h => h

-- Both directions look first whether there is a connection.
theorem connected_tracked {α : Type} {body : Client → Prog (Link ω) ClientError α}
    (h : ∀ client, Tracked (body client)) :
    Tracked (do
      let client ← Prog.gets Link.client
      if !client.connected || !client.socket then
        Prog.fail (.Transport "not connected")
      else
        body client) := by
  intro link hup
  have hopen : ¬(!link.client.connected || !link.client.socket) = true := by
    rw [Up, isOpen, Bool.and_eq_true] at hup
    rw [hup.1, hup.2]
    decide
  rw [Prog.gets_bind, if_neg hopen]
  exact h _ link hup

theorem send_tracked (body : Pb.ClientBody) : Tracked (send E body) := by
  refine connected_tracked fun client => ?_
  refine Prog.Shuts.bind (Prog.Shuts.modify fun _ h => h) fun _ => Prog.Shuts.bind disconnects fun _ => ?_
  refine Prog.Shuts.bind (now_tracked E) fun time => ?_
  exact Prog.Shuts.bind (Prog.Shuts.modify fun _ h => h) fun _ => Prog.Shuts.pure _

theorem unprompted_tracked (frame : Pb.ServerFrame) :
    Tracked (unprompted frame : Prog (Link ω) ClientError Unit) := by
  unfold unprompted
  split
  · refine Prog.Shuts.modify fun link hup => ?_
    unfold Link.mapClient noteRevoked Up isOpen
    dsimp only
    split_ifs
    · exact hup
    · exact hup
    · exact hup
  · exact Prog.Shuts.pure _

theorem receive_tracked : Tracked (receive E) := by
  refine Prog.Shuts.loop (fun _ => ?_) _ _
  refine connected_tracked fun client => Prog.Shuts.bind disconnects fun polled => ?_
  cases polled with
  | error err => exact fail_tracked rfl
  | ok frame =>
      exact Prog.Shuts.ite (Prog.Shuts.bind (unprompted_tracked frame) fun _ => Prog.Shuts.pure _)
        (Prog.Shuts.pure _)

theorem call_tracked (body : Pb.ClientBody) : Tracked (call E body) := by
  refine Prog.Shuts.bind (send_tracked E body) fun id => Prog.Shuts.loop (fun _ => ?_) _ _
  refine Prog.Shuts.bind (receive_tracked E) fun frame => Prog.Shuts.ite (Prog.Shuts.pure _) ?_
  split
  · exact fail_tracked rfl
  · exact Prog.Shuts.pure _
  · exact fail_tracked rfl

-- Only an open connection answers.
theorem up_of_call {body : Pb.ClientBody} {answer : Pb.ServerBody} {link after : Link ω}
    (h : call E body link = (.ok answer, after)) : Up after := by
  by_cases hup : Up link
  · have htracked := call_tracked E body link hup
    rw [h] at htracked
    exact htracked
  · have hclosed : (!link.client.connected || !link.client.socket) = true := by
      rw [Up, isOpen, Bool.and_eq_true, not_and_or] at hup
      simpa using hup
    have hsend : send E body link = (.err (.Transport "not connected"), link) := by
      rw [send, Prog.gets_bind, if_pos hclosed]
      rfl
    rw [call, Prog.bind_err _ hsend] at h
    cases h

theorem changes_tracked (dbId : String) (fromVersion : Nat) : Tracked (changes E dbId fromVersion) := by
  refine Prog.Shuts.bind (call_tracked E _) fun answer => ?_
  dsimp only
  split
  · exact Prog.Shuts.pure _
  · exact fail_tracked rfl

theorem fetchFrames_tracked (request : Pb.Fetch) (expected blockSize : Nat) :
    Tracked (fetchFrames E request expected blockSize) := by
  refine Prog.Shuts.bind (send_tracked E _) fun id => Prog.Shuts.loop (fun blocks => ?_) _ _
  refine Prog.Shuts.bind (receive_tracked E) fun frame => Prog.Shuts.ite (Prog.Shuts.pure _) ?_
  split
  · split
    · exact fail_tracked rfl
    · exact Prog.Shuts.ite (Prog.Shuts.ite (fail_tracked rfl) (Prog.Shuts.pure _)) (Prog.Shuts.pure _)
  · exact fail_tracked rfl
  · exact fail_tracked rfl

theorem fetch_tracked (request : Pb.Fetch) (blockSize : Nat) : Tracked (fetch E request blockSize) :=
  Prog.Shuts.bind (Prog.Shuts.modify fun _ h => h) fun _ =>
    Prog.Shuts.bind (fetchFrames_tracked E _ _ _) fun _ => Prog.Shuts.pure _

theorem fetchRanges_tracked (dbId : String) (version : Nat) (ranges : List (Nat × Nat)) (blockSize : Nat) :
    Tracked (fetchRanges E dbId version ranges blockSize) :=
  Prog.Shuts.bind (Prog.Shuts.modify fun _ h => h) fun _ => fetchFrames_tracked E _ _ _

end Client

namespace Database

variable {ω ε : Type} {E : Env ω} {fatal : ε → Prop}

def Up (db : Database ω) : Prop := Client.Up db.source.link

theorem onLink_tracked {α : Type} {body : Prog (Link ω) ClientError α} (h : Client.Tracked body) :
    Prog.Shuts Up (ClientError.isTransport · = true) (onLink body) :=
  Prog.Shuts.zoom h (fun _ h => h) fun _ _ => Iff.rfl

theorem modify_up {change : Database ω → Database ω} (h : ∀ db, (change db).client = db.client) :
    Prog.Shuts Up fatal (Prog.modify change : Prog (Database ω) ε Unit) :=
  Prog.Shuts.modify fun db hup => (congrArg Client.isOpen (h db)).trans hup

end Database

namespace Remote

open Database

variable {ω ε : Type} {E : Env ω} {fatal : ε → Prop}

-- What is done with the copy has nothing to do with the connection.
theorem copyCalls_up : E.CopyCalls (Prog.Carries (Up (ω := ω))) :=
  Env.CopyMoves.calls (W := Prog.Same fun _ => ())
    (fun _ => Prog.Moves.modify fun _ h => h)
    { store := ⟨fun _ => rfl, fun _ _ _ => rfl, fun _ _ _ => rfl, fun _ _ _ => rfl, fun _ => rfl,
        fun _ => rfl, fun _ => rfl⟩
      world := fun _ _ h => h
      count := fun _ _ h => h
      setCopy := fun _ _ h => h }

theorem writeCopy_up (indexes : List Nat) :
    Prog.Shuts Up fatal (writeCopy E indexes : Prog (Database ω) ε Unit) :=
  Prog.Shuts.of_moves (copyCalls_up.writeCopy indexes) (writeCopy_raises E indexes)

theorem dropCopy_up : Prog.Shuts Up fatal (dropCopy : Prog (Database ω) ε Unit) :=
  Prog.Shuts.bind (modify_up fun _ => rfl) fun _ => modify_up fun _ => rfl

theorem attempt_up {δ α : Type} {body : Prog (Database ω) δ α} (h : Prog.Moves (Prog.Carries Up) body) :
    Prog.Shuts Up fatal (Prog.attempt body : Prog (Database ω) ε (Except δ α)) :=
  Prog.Shuts.of_moves (Prog.Moves.attempt h) (Prog.Raises.attempt _)

theorem giveCopyUp_up : Prog.Shuts Up fatal (giveCopyUp E : Prog (Database ω) ε Bool) := by
  refine Prog.Shuts.bind (Prog.Shuts.bind (Prog.Shuts.gets id) fun db => ?_) fun _ => Prog.Shuts.pure _
  split
  · refine Prog.Shuts.bind (attempt_up copyCalls_up.clear) fun result => ?_
    cases result with
    | ok _ => exact Prog.Shuts.pure _
    | error _ => exact dropCopy_up
  · exact Prog.Shuts.pure _

theorem preloadStep_up (first : Nat) :
    Prog.Shuts Up fatal (preloadStep E first : Prog (Database ω) ε (Nat ⊕ Bool)) := by
  refine Prog.Shuts.of_moves (copyCalls_up.preloadStep first) ?_
  refine Prog.Raises.bind (Prog.Raises.gets id) fun db => Prog.Raises.ite (Prog.Raises.pure _) ?_
  refine Prog.Raises.bind (Prog.Raises.attempt _) fun result => ?_
  cases result with
  | error _ =>
      exact Prog.Raises.bind (Prog.Raises.bind (Prog.Raises.modify _) fun _ => Prog.Raises.modify _)
        fun _ => Prog.Raises.pure _
  | ok read =>
      refine Prog.Raises.bind (Prog.Raises.modify _) fun _ => Prog.Raises.ite ?_ ?_
      · exact Prog.Raises.bind (Prog.Raises.modify _) fun _ => Prog.Raises.pure _
      · refine Prog.Raises.bind (Prog.Raises.modify _) fun _ => ?_
        exact Prog.Raises.bind (Prog.Raises.modify _) fun _ => Prog.Raises.pure _

theorem useCopy_up : Prog.Shuts Up fatal (useCopy E : Prog (Database ω) ε Bool) := by
  refine Prog.Shuts.bind (Prog.Shuts.gets id) fun db => Prog.Shuts.ite (Prog.Shuts.pure _) ?_
  refine Prog.Shuts.bind (Prog.Shuts.gets id) fun db => ?_
  refine Prog.Shuts.bind (Prog.Shuts.loop preloadStep_up _ _) fun loaded => ?_
  exact Prog.Shuts.ite (Prog.Shuts.bind (modify_up fun _ => rfl) fun _ => Prog.Shuts.pure _)
    (Prog.Shuts.pure _)

theorem now_up : Prog.Shuts Up fatal (onLink (Client.now E) : Prog (Database ω) ε Nat) := fun _ h => h

theorem catchCopyUp_tracked (behind : Head) :
    Prog.Shuts Up (ClientError.isTransport · = true) (catchCopyUp E behind) := by
  refine Prog.Shuts.bind (Prog.Shuts.gets id) fun db => ?_
  refine Prog.Shuts.bind (onLink_tracked (Client.changes_tracked E _ _)) fun changes => ?_
  refine Prog.Shuts.ite (Prog.Shuts.pure _) (Prog.Shuts.ite (Prog.Shuts.pure _) ?_)
  refine Prog.Shuts.bind (attempt_up (copyCalls_up.catchUp _ _ _)) fun result => ?_
  cases result with
  | error _ => exact Prog.Shuts.bind dropCopy_up fun _ => Prog.Shuts.pure _
  | ok _ =>
      refine Prog.Shuts.bind (modify_up fun _ => rfl) fun _ => Prog.Shuts.ite ?_ (Prog.Shuts.pure _)
      refine Prog.Shuts.bind now_up fun _ => ?_
      refine Prog.Shuts.bind (onLink_tracked (Client.fetchRanges_tracked E _ _ _ _)) fun _ => ?_
      refine Prog.Shuts.bind now_up fun _ => Prog.Shuts.bind (modify_up fun _ => rfl) fun _ => ?_
      refine Prog.Shuts.bind (modify_up fun _ => rfl) fun _ => ?_
      exact Prog.Shuts.bind (writeCopy_up _) fun _ => Prog.Shuts.pure _

theorem takeCopy_tracked : Prog.Shuts Up (ClientError.isTransport · = true) (takeCopy E) := by
  refine Prog.Shuts.bind (Prog.Shuts.gets id) fun db => Prog.Shuts.ite (Prog.Shuts.pure _) ?_
  refine Prog.Shuts.bind (attempt_up copyCalls_up.head) fun result => ?_
  cases result with
  | error _ => exact Prog.Shuts.bind dropCopy_up fun _ => Prog.Shuts.pure _
  | ok head =>
      dsimp only
      cases head.filter (usable db.remote db.pages) with
      | none => exact giveCopyUp_up
      | some head =>
          refine Prog.Shuts.ite (Prog.Shuts.fail Bool.false_ne_true) (Prog.Shuts.ite ?_ useCopy_up)
          exact Prog.Shuts.bind (catchCopyUp_tracked head) fun _ => Prog.Shuts.ite useCopy_up giveCopyUp_up

theorem load_tracked (first blocks : Nat) :
    Prog.Shuts Up (ClientError.isTransport · = true) (load E first blocks) := by
  refine Prog.Shuts.bind now_up fun _ => Prog.Shuts.bind (Prog.Shuts.gets id) fun db => ?_
  refine Prog.Shuts.bind (onLink_tracked (Client.fetch_tracked E _ _)) fun _ => ?_
  refine Prog.Shuts.bind now_up fun _ => ?_
  exact Prog.Shuts.bind (modify_up fun _ => rfl) fun _ => modify_up fun _ => rfl

theorem fill_tracked : Prog.Shuts Up (ClientError.isTransport · = true) (fill E) := by
  refine Prog.Shuts.bind takeCopy_tracked fun fromCopy => ?_
  refine Prog.Shuts.bind (Prog.Shuts.gets id) fun db => Prog.Shuts.ite ?_ ?_
  · refine Prog.Shuts.bind (load_tracked _ _) fun _ => Prog.Shuts.bind (Prog.Shuts.gets id) fun db => ?_
    refine Prog.Shuts.bind (writeCopy_up _) fun _ => ?_
    exact Prog.Shuts.bind (modify_up fun _ => rfl) fun _ => modify_up fun _ => rfl
  · exact Prog.Shuts.bind (modify_up fun _ => rfl) fun _ => modify_up fun _ => rfl

end Remote

namespace Client

variable {ω : Type} {E : Env ω}

-- After a broken connection, the next request opens a new one first.
theorem withClient_reconnects {α : Type} {link : Link ω} (h : link.client.isOpen = false)
    (request : Prog (Link ω) ClientError α) :
    withClient E request link = (reconnect E >>= fun _ => request) link := by
  have hconnected : isConnected E link = ((.ok false, link) : Outcome ClientError Bool × Link ω) := by
    rw [isConnected, Prog.gets_bind, h]
    rfl
  rw [withClient, Prog.bind_ok _ hconnected]
  rfl

end Client

namespace Opening

open Database

variable {ω : Type} {E : Env ω}

-- The request that opens a database.
def request (dbId : String) (options : OpenOptions) : Pb.ClientBody :=
  .Open ⟨dbId, options.pageSize, options.create, options.takeover, none⟩

-- The transport is the only one to take the connection away.
abbrev Tracked {α : Type} (body : Prog (Desk ω) ClientError α) : Prop :=
  Prog.Shuts (fun desk => Client.Up desk.link) (ClientError.isTransport · = true) body

theorem checked_error {opened : Pb.Opened} {inUse : Option Nat} {err : ClientError}
    (h : checked opened inUse = .error err) : err.isTransport = false := by
  unfold checked at h
  split_ifs at h <;> cases h <;> rfl

theorem opening_tracked (pages : Pages) (remote : Remote) : Tracked (opening E pages remote) :=
  Prog.Shuts.zoom (Prog.Shuts.bind Remote.fill_tracked fun _ =>
    Prog.Shuts.bind (Prog.Shuts.gets id) fun _ => Prog.Shuts.pure _) (fun _ h => h) fun _ _ => Iff.rfl

-- What follows the answer of the server.
theorem answered_tracked (dbId : String) (options : OpenOptions) (opened : Pb.Opened) :
    Tracked (match checked opened none with
      | .error err => Prog.fail err
      | .ok opened => do
        let login := (← Prog.gets Desk.link).client.logins
        opening E (.new opened.pageSize opened.pageCount options.blocksPerFetch options.cap)
          (openedRemote dbId options opened login) : Prog (Desk ω) ClientError (Pages × Remote)) := by
  cases hchecked : checked opened none with
  | error err => exact Prog.Shuts.fail (by rw [checked_error hchecked]; exact Bool.false_ne_true)
  | ok opened => exact Prog.Shuts.bind (Prog.Shuts.gets _) fun _ => opening_tracked _ _

-- After an opening on a server that was answered and fails, the connection is lost exactly if the
-- error is one of the transport. The other errors are about what was answered: sizes that no
-- database has, a copy that is ahead, another answer to the requests for changes and blocks.
theorem openOn_tracked {dbId : String} {options : OpenOptions} {desk after : Desk ω} {opened : Pb.Opened}
    {link : Link ω} {err : ClientError}
    (hcall : Client.call E (request dbId options) desk.link = (.ok (.Opened opened), link))
    (h : openOn E dbId options desk = (.err err, after)) :
    after.link.client.isOpen = true ↔ ¬err.isTransport = true := by
  have hzoom : onDesk (Client.call E (request dbId options)) desk =
      (.ok (.Opened opened), { desk with link := link }) := by
    rw [onDesk, Prog.zoom, hcall]
  unfold request at hzoom
  unfold openOn at h
  rw [Prog.bind_ok _ hzoom] at h
  exact (answered_tracked dbId options opened).failed (Client.up_of_call E hcall) h

theorem failed_open_on_server {dbId : String} {options : OpenOptions} {desk after : Desk ω}
    {opened : Pb.Opened} {link : Link ω} {err : ClientError}
    (hcall : Client.call E (request dbId options) desk.link = (.ok (.Opened opened), link))
    (h : openOn E dbId options desk = (.err err, after)) :
    (after.link.client.isOpen = false ↔ err.isTransport = true) ∧
      (err.isTransport = true → ∀ (α : Type) (next : Prog (Link ω) ClientError α),
        Client.withClient E next after.link = (Client.reconnect E >>= fun _ => next) after.link) := by
  have htracked := openOn_tracked hcall h
  rw [← not_iff_not, not_not, Bool.not_eq_true] at htracked
  exact ⟨htracked, fun htransport _ next => Client.withClient_reconnects (htracked.mpr htransport) next⟩

-- A stored database with a block that is cut off.
def damaged : Instance 1 where
  self := 0
  browser := ⟨"db", 0, some ⟨some ⟨2, 1, 1⟩, fun _ => some [0]⟩, none, 0, fun _ => Worker.new⟩
  schedule := [.Take 0, .Resume 0 none, .Resume 0 none, .Resume 0 none, .Resume 0 none,
    .Take 0, .Resume 0 none, .Take 0].map some
  answer := none
  clock := 0
  late := false

theorem damaged_ready : damaged.Ready :=
  ⟨rfl, ⟨rfl, rfl⟩, Browser.Fresh.locked ⟨fun _ => rfl⟩ rfl⟩

-- The server answers the opening and sends one of two blocks. Then the connection breaks.
def lost : Desk Client.Inbox := ⟨{}, Client.listening [.ok ⟨1, some (.Opened ⟨[], 1, 0, 512, 2, []⟩)⟩,
  .ok ⟨2, some (.Pages ⟨0, [zeros 512], false⟩)⟩]⟩

def broken : Outcome ClientError (Pages × Remote) × Desk Client.Inbox :=
  openOn (Client.scripted 3 Client.noStore) "db" Session.sampleOptions lost

-- The server fails the requests after the opening.
def failing (turn : Nat) : Turn :=
  { moves := [.Serve 0 { error := if turn < 12 then none else some (Server.error .Internal) }] }

-- A database of one block.
def oneBlock : Net :=
  { Session.emptyNet failing with server := ⟨512, [.Other [1] 1 [⟨0, zeros 512⟩]], 0, none⟩ }

-- An instance that creates the database with the page size 0.
def unsized : Instance 1 where
  self := 0
  browser := ⟨"db", 0, none, none, 0, fun _ => Worker.new⟩
  schedule := [.Take 0, .Resume 0 none, .Resume 0 none, .Resume 0 none, .Resume 0 none].map some
  answer := none
  clock := 0
  late := false

-- The connection after the login.
def loggedIn : Link Net :=
  (Client.connect (Net.env Session.sampleSetup) ⟨Client.fresh Session.sampleConfig false 0, oneBlock⟩).2

-- The lease and the lock stay with an opening that has failed.
def isCloseDb : Pb.ClientBody → Bool
  | .CloseDb _ => true
  | _ => false

def failedOpen : Outcome ClientError (Pages × Remote) × Desk Net :=
  openOn (Net.env Session.sampleSetup) "db" Session.sampleOptions ⟨{}, loggedIn⟩

end Opening

end RemoteVfs
