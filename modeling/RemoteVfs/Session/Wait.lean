import RemoteVfs.Network.Commit
import RemoteVfs.Session.Broken

namespace RemoteVfs.Database

open Base Base.Prog Link

-- What waiting for the server changes in a database: its connection, the number of the
-- login, the counters, and whether it is broken.
structure Waits (P : Pb.Commit → Prop) (D : Disk → Disk → Prop) (before after : Database Net) :
    Prop where
  link : Kept P D before.source.link after.source.link
  pages : after.pages = before.pages
  remote : ∃ login broken, after.remote = { before.remote with login := login, broken := broken }

namespace Waits

variable {P : Pb.Commit → Prop} {D : Disk → Disk → Prop}

theorem version {a b : Database Net} (h : Waits P D a b) : b.remote.version = a.remote.version := by
  obtain ⟨login, broken, hremote⟩ := h.remote
  rw [hremote]

variable [IsPreorder Disk D]

theorem refl {db : Database Net} (h : db.source.link.Ready P) : Waits P D db db :=
  ⟨Kept.refl h, rfl, db.remote.login, db.remote.broken, rfl⟩

end Waits

variable {P : Pb.Commit → Prop} {D : Disk → Disk → Prop} {ε α : Type} {start : Database Net}
  {fact : Link Net → Prop}

theorem onLink_spec {body : Prog (Link Net) ε α} {good : α → Link Net → Prop}
    (h : Triple (fun link => Kept P D start.source.link link ∧ fact link) body
      (Ends (Kept P D start.source.link) good)) :
    Triple (fun db => Waits P D start db ∧ fact db.source.link) (onLink body)
      (Ends (Waits P D start) fun value db => good value db.source.link) := by
  rintro db ⟨hwaits, hlink⟩
  obtain ⟨hkept, hmeets⟩ := h db.source.link ⟨hwaits.link, hlink⟩
  exact ⟨⟨hkept, hwaits.pages, hwaits.remote⟩, hmeets⟩

theorem onLink_moved [IsPreorder Disk D] {body : Prog (Link Net) ε α} (h : Moves (Moved P D) body)
    (hfact : Lasting fact) :
    Triple (fun db => Waits P D start db ∧ fact db.source.link) (onLink body)
      (Ends (Waits P D start) fun _ db => fact db.source.link) :=
  onLink_spec (Kept.triple h _ hfact)

theorem count_spec (change : Stats → Stats) :
    Triple (fun db => Waits P D start db ∧ fact db.source.link)
      (count change : Prog (Database Net) ε Unit)
      (Ends (Waits P D start) fun _ db => fact db.source.link) :=
  fun _ h => ⟨⟨h.1.link, h.1.pages, h.1.remote⟩, h.2⟩

theorem Waits.broken {db : Database Net} (h : Waits P D start db) (broken : Option Broken) :
    Waits P D start (db.mapRemote fun remote => { remote with broken := broken }) := by
  obtain ⟨login, _, hremote⟩ := h.remote
  have hbroken : ({ db.remote with broken := broken } : Remote) =
      { start.remote with login := login, broken := broken } := by
    rw [hremote]
  exact ⟨h.link, h.pages, login, broken, hbroken⟩

theorem breakWith_spec {good : α → Database Net → Prop} (broken : Broken) :
    Triple (Waits P D start) (breakWith broken : Prog (Database Net) Broken α)
      (Ends (Waits P D start) good) :=
  fun _ h => ⟨h.broken (some broken), trivial⟩

end RemoteVfs.Database

namespace RemoteVfs.Remote

open Base Base.Prog Link Database

variable {P : Pb.Commit → Prop} {D : Disk → Disk → Prop} [IsPreorder Disk D] {ε α : Type}
  {start : Database Net} {fact : Link Net → Prop} (setup : Net.Setup)

-- The server was at the version of the answer at some moment since the start.
def Resumed (start : Database Net) (opened : Pb.Opened) (link : Link Net) : Prop :=
  link.world.server.OpenedAt start.world.server.version opened ∧
    checked opened (some start.pages.pageSize) = .ok opened

theorem onCurrentConnection_spec (hfact : Lasting fact) :
    Triple (fun db => Waits P D start db ∧ fact db.source.link)
      (onCurrentConnection (Net.env setup) : Prog (Database Net) ε Bool)
      (Ends (Waits P D start) fun _ db => fact db.source.link) := by
  refine Ends.bind (onLink_moved (isConnected_moved setup) hfact) fun connected => ?_
  exact Triple.ite (fun _ => fun _ h => h) fun _ => Ends.pure fun _ h => h

theorem reconnectIfDown_spec (hfact : Lasting fact) :
    Triple (fun db => Waits P D start db ∧ fact db.source.link) (reconnectIfDown (Net.env setup))
      (Ends (Waits P D start) fun _ db => fact db.source.link) := by
  refine Ends.bind (onLink_moved (isConnected_moved setup) hfact) fun connected => ?_
  refine Triple.ite (fun _ => Ends.pure fun _ h => h) fun _ => ?_
  exact Ends.bind (onLink_moved (reconnect_moved setup) hfact) fun _ => count_spec _

theorem resume_spec (hfact : Lasting fact) :
    Triple (fun db => Waits P D start db ∧ fact db.source.link) (resume (Net.env setup))
      (Ends (Waits P D start) fun opened db => fact db.source.link ∧ Resumed start opened db.source.link) := by
  refine Ends.bind (reconnectIfDown_spec setup hfact) fun _ => ?_
  intro db hdb
  rw [get_bind]
  refine Ends.bind (onLink_spec (call_spec setup (by simp) _ hfact)) (fun answer => ?_) db hdb
  cases answer with
  | Opened opened =>
      dsimp only
      cases hchecked : checked opened (some db.pages.pageSize) with
      | error err => exact Ends.fail fun _ h => h.1
      | ok value =>
          obtain rfl := checked_ok hchecked
          rintro after ⟨hwaits, hlink, htold, -⟩
          obtain ⟨_, broken, hremote⟩ := hwaits.remote
          have hlogin : ({ after.remote with login := after.client.logins } : Remote) =
              { start.remote with login := after.client.logins, broken := broken } := by
            rw [hremote]
          exact ⟨⟨hwaits.link, hwaits.pages, _, broken, hlogin⟩, hlink, htold.opened,
            hdb.1.pages ▸ hchecked⟩
  | _ => exact Ends.fail fun _ h => h.1

theorem resumeUntil_spec (deadline : Nat) :
    Triple (Waits P D start) (resumeUntil (Net.env setup) deadline)
      (Ends (Waits P D start) fun opened db => Resumed start opened db.source.link) := by
  refine Triple.mono (Ends.loop (fun _ _ => True) (fun _ => ?_) _ ()) (fun _ h => ⟨h, trivial⟩)
    fun _ _ h => h
  refine Ends.bind (Ends.attempt (resume_spec setup lasting_true)) ?_
  rintro (err | opened)
  · refine Triple.ite (fun _ => (breakWith_spec _).mono (fun _ h => h.1) fun _ _ h => h) fun _ => ?_
    refine Triple.ite (fun _ => (breakWith_spec _).mono (fun _ h => h.1) fun _ _ h => h) fun _ => ?_
    refine Ends.bind (Ends.mono (onLink_moved (now_moved setup) lasting_true)
      (fun _ h => ⟨h.1, trivial⟩) fun _ _ _ h => h) fun _ => ?_
    refine Triple.ite (fun _ => (breakWith_spec _).mono (fun _ h => h.1) fun _ _ h => h) fun _ => ?_
    exact Ends.bind (onLink_moved (pause_moved setup _) lasting_true) fun _ => Ends.pure fun _ h => h
  · exact Ends.pure fun _ h => ⟨h.1, (h.2 opened rfl).2⟩

end RemoteVfs.Remote
