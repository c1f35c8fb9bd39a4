import RemoteVfs.Session.Heal

namespace RemoteVfs

open Base Base.Prog Link

-- A network in which the client has done nothing yet.
structure Net.Fresh (net : Net) : Prop where
  distinct : net.Distinct
  conns : net.conns = []
  asked : ∀ id, net.asked id = none
  log : ∀ (j : Nat) (parts : List Pb.Commit), net.server.log[j]? ≠ some (Entry.Commit parts)
  others : ∀ j commitId pageCount blocks,
    net.server.log[j]? = some (.Other commitId pageCount blocks) →
      BlocksFit (net.server.imageAt j).pageSize pageCount blocks ∧ ∀ k, net.ids k ≠ commitId

theorem Net.Fresh.wf {net : Net} (h : net.Fresh) (n : Nat) : net.Wf n where
  distinct := h.distinct
  conns conn hconn := by rw [h.conns] at hconn; cases hconn
  bound id hid := absurd (h.asked id) hid
  log j parts hj := absurd hj (h.log j parts)
  others := h.others
  drawn part hpart := by
    obtain ⟨id, stamp, hasked⟩ := hpart
    rw [h.asked id] at hasked
    cases hasked

namespace Session

-- What is done with an open database. The VFS heals only a database that is unreachable.
-- `Label` stands for the requests that do not concern the database: they may log in again.
inductive Op where
  | Read (offset length : Nat)
  | Write (offset : Nat) (data : Bytes)
  | Truncate (size : Nat)
  | Commit (reconnectTimeout : Nat)
  | Heal
  | Label (label : String)
  deriving DecidableEq, Repr

namespace Op

variable {ω : Type} (E : Env ω)

-- The database after the operation, however it ended.
def run (db : Database ω) : Op → Database ω
  | Read offset length => (Database.read E offset length db).2
  | Write offset data => (Database.write E offset data db).2
  | Truncate size => (Database.truncate size db).2
  | Commit reconnectTimeout => (Database.commit E reconnectTimeout db).2
  | Heal => if db.isUnreachable then (Database.heal E db).2 else db
  | Label label =>
    (Database.onLink (Client.withClient E (Client.setSlotLabel E label)) db).2

end Op

-- Connects a new client and opens a database.
def opened {ω : Type} (E : Env ω) (config : ClientConfig) (started : Nat) (dbId : String)
    (options : OpenOptions) (world : ω) : Option (Database ω) :=
  match Client.connect E ⟨Client.fresh config false started, world⟩ with
  | (.ok _, link) =>
    match Database.openOn E dbId options ⟨{}, link⟩ with
    | (.ok (pages, remote), desk) => some ⟨pages, desk.stats, ⟨remote, desk.link⟩⟩
    | _ => none
  | _ => none

structure Opened (setup : Net.Setup) (options : OpenOptions) (db : Database Net) : Prop where
  fresh : ∃ config started dbId net, net.Fresh ∧
    opened (Net.env setup) config started dbId options net = some db

-- The states of an open database, after operations that were all admitted where they
-- were called.
inductive Reached (setup : Net.Setup) (start : Database Net → Prop)
    (admitted : Database Net → Op → Prop) : Database Net → Prop where
  | Open {db : Database Net} (h : start db) : Reached setup start admitted db
  | Step {db : Database Net} (op : Op) (h : Reached setup start admitted db)
      (hop : admitted db op) : Reached setup start admitted (op.run (Net.env setup) db)

theorem Reached.mono {setup : Net.Setup} {start start' : Database Net → Prop}
    {admitted admitted' : Database Net → Op → Prop} {db : Database Net}
    (h : Reached setup start admitted db) (hstart : ∀ db, start db → start' db)
    (hop : ∀ db op, admitted db op → admitted' db op) : Reached setup start' admitted' db := by
  induction h with
  | Open h => exact .Open (hstart _ h)
  | Step op _ h ih => exact .Step op ih (hop _ op h)

def anyOp (_ : Database Net) (_ : Op) : Prop := True

-- The pending commit and what was sent of it.
def PendingAt (db : Database Net) (commitId : Bytes) : Prop :=
  ∃ k parts, k < db.world.drawn ∧ commitId = db.world.ids k ∧ Own commitId parts db.world ∧
    Database.PartsOf db.remote.version commitId parts ∧ Numbered parts

-- What holds in every state of an open database, also of a broken one.
structure Live (db : Database Net) : Prop where
  ready : db.source.link.Ready NoCommit
  version : db.remote.version ≤ db.world.server.version
  pending : ∀ commitId, db.remote.pendingCommit = some commitId → PendingAt db commitId

theorem Live.kept {before after : Database Net} (h : Live before) {D : Disk → Disk → Prop}
    (hkept : Kept NoCommit D before.source.link after.source.link)
    (hremote : ∃ login broken copy,
      after.remote = { before.remote with login := login, broken := broken, copy := copy }) :
    Live after := by
  obtain ⟨login, broken, copy, hremote⟩ := hremote
  have hversion : after.remote.version = before.remote.version := by rw [hremote]
  refine ⟨hkept.ready, ?_, ?_⟩
  · rw [hversion]
    exact h.version.trans hkept.later.ext.version_le
  · intro commitId hpending
    rw [hremote] at hpending
    obtain ⟨k, parts, hk, hid, hown, hparts, hnumbered⟩ := h.pending commitId hpending
    refine ⟨k, parts, Nat.lt_of_lt_of_le hk hkept.later.drawn, ?_, ?_, hversion ▸ hparts, hnumbered⟩
    · rw [hid]
      exact (congrFun hkept.later.ids k).symm
    · intro part hsent hpart
      exact hown part ((hkept.sent part hsent).resolve_right id) hpart

theorem Live.loads {before after : Database Net} (h : Live before)
    (hloads : Database.Loads NoCommit before after) : Live after :=
  h.kept hloads.link hloads.remote

theorem Live.waits {before after : Database Net} (h : Live before)
    (hwaits : Database.Waits NoCommit Eq before after) : Live after := by
  obtain ⟨login, broken, hremote⟩ := hwaits.remote
  exact h.kept hwaits.link ⟨login, broken, before.remote.copy, hremote⟩

-- Only the connection, the login, the copy and the blocks in memory change.
theorem Live.moves {ε α : Type} {body : Prog (Database Net) ε α}
    (hbody : Moves (Database.Loaded NoCommit) body) {db : Database Net} (h : Live db) :
    Live (body db).2 :=
  h.loads (hbody db h.ready)

theorem Live.begun {before begun after : Database Net} {commitId : Bytes} {parts : List Pb.Commit}
    (h : Live before) (hbegun : before.Begun commitId parts begun)
    (hwaits : Database.Waits (· ∈ parts) Eq begun after) : Live after := by
  obtain ⟨login, broken, hremote⟩ := hwaits.remote
  have hversion : after.remote.version = before.remote.version := by rw [hremote, hbegun.remote]
  refine ⟨hwaits.link.ready.noCommit, ?_, ?_⟩
  · rw [hversion]
    exact h.version.trans (hbegun.kept.later.trans hwaits.link.later).ext.version_le
  · intro other hpending
    rw [hremote, hbegun.remote] at hpending
    obtain rfl : commitId = other := by simpa using hpending
    obtain ⟨k, -, hk, hid⟩ := hbegun.drawn
    refine ⟨k, parts, Nat.lt_of_lt_of_le hk hwaits.link.later.drawn, ?_, hbegun.own hwaits,
      hversion ▸ hbegun.partsOf, hbegun.numbered⟩
    rw [hid]
    exact (congrFun hwaits.link.later.ids k).symm

theorem Live.published {mid : Database Net} {P : Pb.Commit → Prop} (hready : mid.source.link.Ready P)
    {base version : Nat} {commitId : Bytes}
    (happlied : Database.Applied base commitId version mid.source.link) (parts time : Nat) :
    Live (Database.published parts time commitId version mid) := by
  obtain ⟨rfl, entry, hentry, -⟩ := happlied
  exact ⟨hready.noCommit, (List.getElem?_eq_some_iff.mp hentry).1, fun _ h => by cases h⟩

variable (setup : Net.Setup)

theorem Live.commitChanges {db : Database Net} (h : Live db) (timeout : Nat) :
    Live (Database.commitChanges (Net.env setup) timeout db).2 := by
  obtain ⟨commitId, parts, begun, hbegun, ⟨-, hwaits⟩ | ⟨version, time, mid, hwaits, happlied, heq⟩⟩ :=
    Database.commitChanges_cases setup timeout h.ready
  · exact h.begun hbegun hwaits
  · rw [heq]
    exact (Live.published hwaits.link.ready happlied _ _).loads
      (Database.commitDone_loads setup _ _ _ _ hwaits.link.ready.noCommit)

theorem Live.commit {db : Database Net} (h : Live db) (timeout : Nat) :
    Live (Database.commit (Net.env setup) timeout db).2 := by
  unfold Database.commit Database.unlessBroken
  rw [get_bind]
  cases db.remote.broken with
  | some broken => exact h
  | none =>
      dsimp only
      rw [get_bind]
      split_ifs
      · exact h
      · exact h.moves (Database.breakWith_loaded (α := Unit) (by simp))
      · exact h.commitChanges setup timeout

theorem Live.heal {db : Database Net} (h : Live db) :
    Live (Database.heal (Net.env setup) db).2 := by
  rcases Database.heal_cases setup h.ready with
    ⟨-, -, -, hwaits⟩ | ⟨opened, mid, hmid, hresumed, ⟨-, -, -, -, -, hwaits⟩ | ⟨-, -, heq⟩⟩
  · exact h.waits hwaits
  · exact h.waits hwaits
  · rw [heq, Database.reload_eq]
    have hrestarted : Live (Database.restarted opened mid) :=
      ⟨hmid.link.ready, hresumed.1.reached, fun _ h => by cases h⟩
    have hfill := Remote.fill_loaded setup (Database.restarted opened mid) hrestarted.ready
    generalize Remote.fill (Net.env setup) (Database.restarted opened mid) = run at hfill ⊢
    have hlive := hrestarted.loads hfill
    rcases run with ⟨_ | err | _, db'⟩
    · exact hlive.kept (D := Eq) (Kept.refl hlive.ready) ⟨db'.remote.login, none, db'.remote.copy, rfl⟩
    · exact hlive.kept (D := Eq) (Kept.refl hlive.ready) ⟨db'.remote.login, _, db'.remote.copy, rfl⟩
    · exact hlive

theorem label_moved {P : Pb.Commit → Prop} {D : Disk → Disk → Prop} [IsPreorder Disk D]
    (label : String) :
    Moves (Moved P D) (Client.withClient (Net.env setup) (Client.setSlotLabel (Net.env setup) label)) :=
  withClient_moved setup (expect_moved setup (by simp) _ _)

theorem Live.step {db : Database Net} (h : Live db) (op : Op) : Live (op.run (Net.env setup) db) := by
  cases op with
  | Read offset length => exact h.moves (Database.read_loaded setup offset length)
  | Write offset data => exact h.moves (Database.write_loaded setup offset data)
  | Truncate size => exact h.moves (Database.truncate_loaded size)
  | Commit timeout => exact h.commit setup timeout
  | Heal =>
      simp only [Op.run]
      split_ifs
      · exact h.heal setup
      · exact h
  | Label label =>
      exact h.moves (Database.onLink_loaded (label_moved setup label))

-- What `open` does when it succeeds.
theorem openOn_ok {dbId : String} {options : OpenOptions} {stats : Stats} {link : Link Net}
    (hready : link.Ready NoCommit) {pages : Pages} {remote : Remote} {desk : Database.Desk Net}
    (h : Database.openOn (Net.env setup) dbId options ⟨stats, link⟩ = (.ok (pages, remote), desk)) :
    ∃ opened link', Kept NoCommit Eq link link' ∧
      link'.world.server.OpenedAt link.world.server.version opened ∧
      checked opened none = .ok opened ∧
      Remote.fill (Net.env setup)
          ⟨.new opened.pageSize opened.pageCount options.blocksPerFetch options.cap, stats,
            ⟨Database.openedRemote dbId options opened link'.client.logins, link'⟩⟩ =
        (.ok (), ⟨pages, desk.stats, ⟨remote, desk.link⟩⟩) := by
  obtain ⟨opened, link', hcall, hchecked, hfill⟩ := Database.openOn_returns _ h
  have hbody : ∀ part, Pb.ClientBody.Open ⟨dbId, options.pageSize, options.create, options.takeover, none⟩ =
      .Commit part → NoCommit part := by simp
  have hstart : Kept NoCommit Eq link link := Kept.refl hready
  have htold := call_spec setup hbody link lasting_true link ⟨hstart, trivial⟩
  rw [hcall] at htold
  obtain ⟨hkept, -, htold, -⟩ := htold
  exact ⟨opened, link', hkept, htold.opened, hchecked, hfill⟩

-- What `opened` does when it succeeds.
theorem opened_ok {config : ClientConfig} {started : Nat} {dbId : String} {options : OpenOptions}
    {net : Net} {db : Database Net} (hfresh : net.Fresh)
    (h : opened (Net.env setup) config started dbId options net = some db) :
    ∃ opened link, Kept NoCommit Eq ⟨Client.fresh config false started, net⟩ link ∧
      link.world.server.OpenedAt 0 opened ∧ checked opened none = .ok opened ∧
      Remote.fill (Net.env setup)
          ⟨.new opened.pageSize opened.pageCount options.blocksPerFetch options.cap, {},
            ⟨Database.openedRemote dbId options opened link.client.logins, link⟩⟩ = (.ok (), db) := by
  unfold opened at h
  have hstart : Link.Ready NoCommit ⟨Client.fresh config false started, net⟩ :=
    ⟨hfresh.wf _, fun _ h => h.elim⟩
  have hconnect := (reconnect_moved setup : Moves (Moved NoCommit Eq) _) _ hstart
  unfold Client.connect at h
  generalize Client.reconnect (Net.env setup) ⟨Client.fresh config false started, net⟩ = run
    at hconnect h
  rcases run with ⟨_ | _ | _, link⟩
  · dsimp only at h hconnect
    cases hopen : Database.openOn (Net.env setup) dbId options ⟨{}, link⟩ with
    | mk result desk =>
        rw [hopen] at h
        rcases result with ⟨pages, remote⟩ | _ | _
        · obtain ⟨opened, link', hkept, hat, hchecked, hfill⟩ := openOn_ok setup hconnect.ready hopen
          refine ⟨opened, link', hconnect.trans hkept, ⟨Nat.zero_le _, hat.reached, hat.commitId,
            hat.pageSize, hat.pageCount⟩, hchecked, ?_⟩
          rw [hfill]
          cases h
          rfl
        · cases h
        · cases h
  · cases h
  · cases h

theorem Opened.cases {options : OpenOptions} {db : Database Net} (h : Opened setup options db) :
    ∃ dbId opened link, Link.Ready NoCommit link ∧
      link.world.server.OpenedAt 0 opened ∧ checked opened none = .ok opened ∧
      Remote.fill (Net.env setup)
          ⟨.new opened.pageSize opened.pageCount options.blocksPerFetch options.cap, {},
            ⟨Database.openedRemote dbId options opened link.client.logins, link⟩⟩ = (.ok (), db) := by
  obtain ⟨config, started, dbId, net, hfresh, hopened⟩ := h.fresh
  obtain ⟨opened, link, hkept, hat, hchecked, hfill⟩ := opened_ok setup hfresh hopened
  exact ⟨dbId, opened, link, hkept.ready, hat, hchecked, hfill⟩

theorem Opened.live {options : OpenOptions} {db : Database Net} (h : Opened setup options db) :
    Live db := by
  obtain ⟨dbId, opened, link, hready, hat, -, hfill⟩ := h.cases
  have hlive : Live ⟨.new opened.pageSize opened.pageCount options.blocksPerFetch options.cap, {},
      ⟨Database.openedRemote dbId options opened link.client.logins, link⟩⟩ :=
    ⟨hready, hat.reached, fun _ h => by cases h⟩
  have hafter := hlive.moves (Remote.fill_loaded setup)
  rw [hfill] at hafter
  exact hafter

theorem Reached.live {options : OpenOptions} {admitted : Database Net → Op → Prop}
    {db : Database Net} (h : Reached setup (Opened setup options) admitted db) : Live db := by
  induction h with
  | Open h => exact h.live setup
  | Step op _ _ ih => exact ih.step setup op

-- An empty database with this schedule. The commit ids are runs of zeros.
def emptyNet (turns : Nat → Turn) : Net where
  server := ⟨512, [], 0, none⟩
  conns := []
  disk := .empty
  ids k := List.replicate (k + 1) 0
  drawn := 0
  turns := turns
  turn := 0
  asked _ := none

theorem emptyNet_fresh {turns : Nat → Turn}
    (h : ∀ n, ∀ move ∈ (turns n).moves, ∀ commitId pageCount blocks,
      move = .Commit commitId pageCount blocks → ∃ byte ∈ commitId, byte ≠ 0) :
    (emptyNet turns).Fresh where
  distinct :=
    { injective := fun a b hab => by simpa [emptyNet] using congrArg List.length hab
      nonempty := fun k => by simp [emptyNet]
      others := fun n move hmove commitId pageCount blocks heq k hid => by
        obtain ⟨byte, hbyte, hne⟩ := h n move hmove commitId pageCount blocks heq
        rw [← hid] at hbyte
        exact hne (List.eq_of_mem_replicate hbyte) }
  conns := rfl
  asked _ := rfl
  log j parts := by simp [emptyNet]
  others j commitId pageCount blocks hj := by simp [emptyNet] at hj

theorem serving_fresh {turns : Nat → Turn}
    (h : ∀ n, ∀ move ∈ (turns n).moves, ∃ conn fate, move = .Serve conn fate) :
    (emptyNet turns).Fresh :=
  emptyNet_fresh fun n move hmove commitId pageCount blocks heq => by
    obtain ⟨conn, fate, rfl⟩ := h n move hmove
    cases heq

-- The server handles every frame at once.
def calm (_ : Nat) : Turn := { moves := [.Serve 0 {}] }

def sampleSetup : Net.Setup := ⟨8, true, id, fun _ => "", fun _ => ""⟩

def sampleConfig : ClientConfig := ⟨.Ed25519, [], false, [], false⟩

def sampleOptions : OpenOptions := ⟨512, true, false, none, none, "", false⟩

-- The database after opening it in the empty network and some operations.
def sample (turns : Nat → Turn) (options : OpenOptions) (ops : List Op) : Option (Database Net) :=
  (opened (Net.env sampleSetup) sampleConfig 0 "db" options (emptyNet turns)).map fun db =>
    ops.foldl (Op.run (Net.env sampleSetup)) db

theorem sample_run {turns : Nat → Turn} {options : OpenOptions} {ops : List Op}
    {start : Database Net → Prop} {admitted : Database Net → Op → Prop} {db : Database Net}
    (hstart : ∀ first, opened (Net.env sampleSetup) sampleConfig 0 "db" options (emptyNet turns) =
      some first → start first)
    (hops : ∀ db, ∀ op ∈ ops, admitted db op) (h : sample turns options ops = some db) :
    Reached sampleSetup start admitted db := by
  obtain ⟨first, hfirst, rfl⟩ := Option.map_eq_some_iff.mp h
  have hopen : Reached sampleSetup start admitted first := .Open (hstart first hfirst)
  clear h hfirst
  induction ops generalizing first with
  | nil => exact hopen
  | cons op rest ih =>
      exact ih (fun db op hop => hops db op (List.mem_cons_of_mem _ hop)) _
        (.Step op hopen (hops _ _ List.mem_cons_self))

theorem sample_reached {turns : Nat → Turn} {options : OpenOptions} {ops : List Op}
    {admitted : Database Net → Op → Prop} {db : Database Net} (hnet : (emptyNet turns).Fresh)
    (hops : ∀ db, ∀ op ∈ ops, admitted db op)
    (h : sample turns options ops = some db) :
    Reached sampleSetup (Opened sampleSetup options) admitted db :=
  sample_run (fun _ hfirst => ⟨⟨sampleConfig, 0, "db", _, hnet, hfirst⟩⟩) hops h

theorem calm_fresh : (emptyNet calm).Fresh :=
  serving_fresh fun _ _ hmove => ⟨0, {}, List.mem_singleton.mp hmove⟩

end Session

end RemoteVfs
