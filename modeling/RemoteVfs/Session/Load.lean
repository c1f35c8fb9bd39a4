import RemoteVfs.Session.Wait
import RemoteVfs.Local.Calls
import RemoteVfs.Network.Fetch
import RemoteVfs.Pages.Moves

namespace RemoteVfs

open Base Base.Prog Link

-- No bound on how the cache file changes.
def AnyDisk (_ _ : Disk) : Prop := True

instance : IsPreorder Disk AnyDisk where
  refl _ := trivial
  trans _ _ _ _ _ := trivial

namespace Database

-- What loading blocks changes in a database, next to the blocks in memory: the connection,
-- the number of the login, whether it is broken, and the state of the local copy. No block
-- that is loaded tells of a divergence.
structure Loads (P : Pb.Commit → Prop) (before after : Database Net) : Prop where
  link : Kept P AnyDisk before.source.link after.source.link
  remote : ∃ login broken copy,
    after.remote = { before.remote with login := login, broken := broken, copy := copy }
  broken : ∀ reason, after.remote.broken = some (.Diverged reason) →
    before.remote.broken = some (.Diverged reason)
  shape : Pages.SameShape before.pages after.pages

def Loaded (P : Pb.Commit → Prop) (before after : Database Net) : Prop :=
  before.source.link.Ready P → Loads P before after

variable {P : Pb.Commit → Prop} {ε α : Type}

theorem Loads.of_remote {before after : Database Net}
    (h : Kept P AnyDisk before.source.link after.source.link) (hremote : after.remote = before.remote)
    (hshape : Pages.SameShape before.pages after.pages) : Loads P before after :=
  ⟨h, ⟨before.remote.login, before.remote.broken, before.remote.copy, hremote⟩,
    fun _ hb => hremote ▸ hb, hshape⟩

theorem Loads.trans {a b c : Database Net} (hab : Loads P a b) (hbc : Loads P b c) : Loads P a c := by
  obtain ⟨_, _, _, hb⟩ := hab.remote
  obtain ⟨login, broken, copy, hc⟩ := hbc.remote
  exact ⟨hab.link.trans hbc.link, ⟨login, broken, copy, by rw [hc, hb]⟩,
    fun reason h => hab.broken reason (hbc.broken reason h), hab.shape.trans hbc.shape⟩

instance : IsPreorder (Database Net) (Loaded P) where
  refl db h := .of_remote (Kept.refl h) rfl (Pages.SameShape.refl db.pages)
  trans _ _ _ hab hbc h := (hab h).trans (hbc (hab h).link.ready)

theorem onLink_loaded {body : Prog (Link Net) ε α} (h : Moves (Moved P AnyDisk) body) :
    Moves (Loaded P) (onLink body) :=
  fun db hready => .of_remote (h db.source.link hready) rfl (Pages.SameShape.refl db.pages)

-- A change of the blocks or the counters.
theorem source_loaded {change : Database Net → Database Net}
    (h : ∀ db, (change db).source = db.source)
    (hshape : ∀ db, Pages.SameShape db.pages (change db).pages) :
    Moves (Loaded P) (Prog.modify change : Prog (Database Net) ε Unit) := by
  intro db hready
  refine .of_remote ?_ (congrArg Fetch.remote (h db)) (hshape db)
  rw [modify_apply, h db]
  exact Kept.refl hready

theorem setCopy_loaded (copy : LocalCopy) :
    Moves (Loaded P) (setCopy copy : Prog (Database Net) ε Unit) :=
  fun db hready => ⟨Kept.refl hready, ⟨db.remote.login, db.remote.broken, copy, rfl⟩, fun _ h => h,
    Pages.SameShape.refl db.pages⟩

theorem count_loaded (change : Stats → Stats) :
    Moves (Loaded P) (count change : Prog (Database Net) ε Unit) :=
  source_loaded (fun _ => rfl) fun db => Pages.SameShape.refl db.pages

theorem breakWith_loaded {broken : Broken} (hbroken : ∀ reason, broken ≠ .Diverged reason) :
    Moves (Loaded P) (breakWith broken : Prog (Database Net) Broken α) :=
  fun db hready => ⟨Kept.refl hready, ⟨db.remote.login, some broken, db.remote.copy, rfl⟩,
    fun reason h => absurd (Option.some.inj h) (hbroken reason), Pages.SameShape.refl db.pages⟩

theorem keepAll_loaded (blocks : List (Nat × Bytes)) :
    Moves (Loaded P) (Prog.modify (Held.mapPages (Pages.keepAll · blocks)) :
      Prog (Database Net) ε Unit) :=
  source_loaded (fun _ => rfl) fun db => Pages.shape_keepAll db.pages blocks

-- A program that only waits for the server.
theorem loaded_of_waits {body : Prog (Database Net) ε α} {good : Database Net → α → Database Net → Prop}
    (h : ∀ start, Triple (Waits P AnyDisk start) body (Ends (Waits P AnyDisk start) (good start)))
    (hbroken : Moves (Same fun db => db.remote.broken) body) : Moves (Loaded P) body := by
  intro db hready
  have hwaits := (h db db (Waits.refl hready)).1
  obtain ⟨login, broken, hremote⟩ := hwaits.remote
  exact ⟨hwaits.link, ⟨login, broken, db.remote.copy, hremote⟩, fun _ h => (hbroken db).symm.trans h,
    hwaits.pages ▸ Pages.SameShape.refl _⟩

end Database

-- The store of the local copy does not touch the network.
theorem Net.quiet_change (head : Head) (next : Disk → Except String Disk) :
    Quiet AnyDisk (change head next) := by
  intro net n h
  obtain ⟨hwf, hlater⟩ := tick_wf h
  have hsame := tick_same net
  have hdisk : ∀ disk, ({ net.tick.2 with disk := disk } : Net).Wf n ∧
      net.Later { net.tick.2 with disk := disk } :=
    fun disk => ⟨⟨⟨hwf.distinct.injective, hwf.distinct.nonempty, hwf.distinct.others⟩, hwf.conns,
      hwf.bound, hwf.log, hwf.others, hwf.drawn⟩,
      ⟨hlater.ext, hlater.asked, hlater.ids, hlater.turns, hlater.drawn⟩⟩
  unfold change
  dsimp only
  split
  · exact ⟨hwf, hlater, hsame.asked, trivial⟩
  · exact ⟨(hdisk _).1, (hdisk _).2, hsame.asked, trivial⟩
  · exact ⟨(hdisk _).1, (hdisk _).2, hsame.asked, trivial⟩
  · split_ifs
    · exact ⟨hwf, hlater, hsame.asked, trivial⟩
    · exact ⟨(hdisk _).1, (hdisk _).2, hsame.asked, trivial⟩

theorem Net.quiet_clear : Quiet AnyDisk store.clear := by
  refine quiet_attempt fun _ net n h => ⟨?_, ⟨Server.Extends.refl _, fun _ _ h => h, rfl, rfl, le_refl _⟩,
    rfl, trivial⟩
  exact ⟨⟨h.distinct.injective, h.distinct.nonempty, h.distinct.others⟩, h.conns, h.bound, h.log,
    h.others, h.drawn⟩

theorem Net.quiet_read (first blocks : Nat) : Quiet AnyDisk (store.read first blocks) :=
  quiet_attempt fun _ => quiet_stay fun net => .ok (net.disk.read first blocks)

theorem Net.quiet_forget (head : Head) (blocks : List Nat) :
    Quiet AnyDisk (store.forget head blocks) := quiet_change _ _

theorem Net.quiet_write (head : Head) (blocks : List (Nat × Bytes)) :
    Quiet AnyDisk (store.write head blocks) := quiet_change _ _

theorem Net.quiet_head : Quiet AnyDisk store.head :=
  quiet_attempt fun _ => quiet_stay fun net => .ok net.disk.head

theorem Net.storeMoves (setup : Net.Setup) : (Net.env setup).StoreMoves (Net.Quietly AnyDisk) where
  head := quiet_head
  read := quiet_read
  write := quiet_write
  forget := quiet_forget
  clear := quiet_clear
  spawn := quiet_tick (ε := String) fun turn => .ok turn.yes
  progress := quiet_tick (ε := String) fun turn => .ok turn.amount

namespace Remote

open Database

variable {P : Pb.Commit → Prop} {ε : Type} (setup : Net.Setup)

theorem onWorld_loaded {α : Type} {op : Prog Net ε α} (h : Net.Quiet AnyDisk op) :
    Moves (Loaded P) (onWorld op) := onLink_loaded (outside_moved h)

theorem copyMoves_loaded : (Net.env setup).CopyMoves (Net.Quietly AnyDisk) (Loaded P) where
  store := Net.storeMoves setup
  world := onWorld_loaded
  count := count_loaded
  setCopy := setCopy_loaded

theorem onCurrentConnection_loaded :
    Moves (Loaded P) (onCurrentConnection (Net.env setup) : Prog (Database Net) ε Bool) :=
  loaded_of_waits (fun _ => (onCurrentConnection_spec setup lasting_true).mono
    (fun _ h => ⟨h, trivial⟩) fun _ _ h => h) (onCurrentConnection_same _)

theorem resume_loaded : Moves (Loaded P) (resume (Net.env setup)) :=
  loaded_of_waits (fun _ => (resume_spec setup lasting_true).mono
    (fun _ h => ⟨h, trivial⟩) fun _ _ h => h) (resume_same _)

theorem load_loaded (first blocks : Nat) : Moves (Loaded P) (load (Net.env setup) first blocks) := by
  refine Moves.bind (onLink_loaded (now_moved setup)) fun _ => Moves.bind (Moves.gets _) fun db => ?_
  refine Moves.bind (onLink_loaded (fetch_moved setup _ _)) fun loaded => ?_
  refine Moves.bind (onLink_loaded (now_moved setup)) fun _ => ?_
  exact Moves.bind (count_loaded _) fun _ => keepAll_loaded _

theorem writeCopy_loaded (indexes : List Nat) :
    Moves (Loaded P) (writeCopy (Net.env setup) indexes : Prog (Database Net) ε Unit) :=
  (copyMoves_loaded setup).writeCopy indexes

theorem dropCopy_loaded : Moves (Loaded P) (dropCopy : Prog (Database Net) ε Unit) :=
  Moves.bind (count_loaded _) fun _ => setCopy_loaded _

theorem takeFromCopy_loaded (first blocks : Nat) :
    Moves (Loaded P) (takeFromCopy (Net.env setup) first blocks : Prog (Database Net) ε Bool) :=
  (copyMoves_loaded setup).takeFromCopy keepAll_loaded first blocks

theorem takeCopy_loaded : Moves (Loaded P) (takeCopy (Net.env setup)) := by
  have hcalls := (copyMoves_loaded setup (P := P)).calls keepAll_loaded
  refine hcalls.takeCopy ?_
  exact hcalls.catchCopyUp keepAll_loaded (onLink_loaded (now_moved setup))
    (fun _ _ => onLink_loaded (expect_moved setup (by simp) _ _))
    fun _ _ _ _ => onLink_loaded (fetchRanges_moved setup _ _ _ _)

theorem fill_loaded : Moves (Loaded P) (fill (Net.env setup)) := by
  have hend : Moves (Loaded P) (do
      Prog.modify (Held.makeRoom 0)
      Prog.modify Held.count : Prog (Database Net) ClientError Unit) :=
    Moves.bind (source_loaded (fun _ => rfl) fun db => Pages.shape_makeRoom db.pages 0 db.stats) fun _ =>
      source_loaded (fun _ => rfl) fun db => Pages.SameShape.refl db.pages
  refine Moves.bind (takeCopy_loaded setup) fun fromCopy => Moves.bind (Moves.gets _) fun pages => ?_
  refine Moves.ite (Moves.bind (load_loaded setup _ _) fun _ => ?_) hend
  exact Moves.bind (Moves.gets _) fun _ => Moves.bind (writeCopy_loaded setup _) fun _ => hend

end Remote

namespace Fetch

open Database Remote

variable {P : Pb.Commit → Prop} (setup : Net.Setup)

theorem fill_loaded (first blocks : Nat) : Moves (Loaded P) (fill (Net.env setup) first blocks) := by
  refine Moves.bind (Moves.gets _) fun db => ?_
  cases db.remote.broken with
  | some broken => exact Moves.fail _
  | none =>
      refine Moves.bind (takeFromCopy_loaded setup _ _) fun taken => Moves.ite (Moves.pure _) ?_
      refine Moves.bind ?_ fun _ => Moves.bind ?_ fun _ => writeCopy_loaded setup _
      · refine Moves.bind (onCurrentConnection_loaded setup) fun _ => Moves.ite (Moves.pure _) ?_
        refine Moves.bind (Moves.handle (resume_loaded setup) fun err => ?_) fun _ => Moves.pure _
        exact Moves.ite (breakWith_loaded (by simp)) (breakWith_loaded (by simp))
      · refine Moves.handle (load_loaded setup _ _) fun err => ?_
        exact Moves.ite (breakWith_loaded (by simp)) (Moves.fail _)

theorem respects_loaded : Pages.Respects (Loaded P) (source (Net.env setup)) where
  pages _ _ hsource hshape hready :=
    .of_remote (by rw [hsource]; exact Kept.refl hready) (congrArg Fetch.remote hsource) hshape
  fill db first count _ := fill_loaded setup first count db

end Fetch

namespace Database

variable {P : Pb.Commit → Prop} (setup : Net.Setup) {α : Type}

theorem read_loaded (offset length : Nat) : Moves (Loaded P) (read (Net.env setup) offset length) :=
  unlessBroken_moves (Pages.read_respects (Fetch.respects_loaded setup) offset length)

theorem write_loaded (offset : Nat) (data : Bytes) :
    Moves (Loaded P) (write (Net.env setup) offset data) :=
  unlessBroken_moves (Pages.write_respects (Fetch.respects_loaded setup) offset data)

theorem truncate_loaded (size : Nat) : Moves (Loaded P) (truncate size : Prog (Database Net) Broken Unit) :=
  unlessBroken_moves (source_loaded (fun _ => rfl) fun db => Pages.shape_truncate db.pages size)

end Database

end RemoteVfs
