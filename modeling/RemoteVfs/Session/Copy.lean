import RemoteVfs.Session.Disk
import RemoteVfs.Session.Snapshot

namespace RemoteVfs

open Base Base.Prog Link Pages

namespace Database

-- The blocks and the server side of the database are these, and the disk meets `I`.
structure OnDisk (pages : Pages) (remote : Remote) (I : Disk → Prop) (db : Database Net) : Prop where
  pages : db.pages = pages
  remote : db.remote = remote
  disk : I db.world.disk

variable {pages : Pages} {remote : Remote} {K F I : Disk → Prop} {ε α : Type}

theorem onWorld_onDisk {op : Prog Net ε α} {good : α → Disk → Prop}
    (h : Triple (fun net => I net.disk) op (Stops (fun net => K net.disk) fun value net =>
      good value net.disk)) :
    Triple (OnDisk pages remote I) (onWorld op)
      (Stops (OnDisk pages remote K) fun value => OnDisk pages remote (good value)) := by
  intro db hdb
  have hop := h db.world hdb.disk
  change Stops _ _ (op db.world).1
    { db with source := { db.source with link := { db.source.link with world := (op db.world).2 } } }
  generalize op db.world = run at hop ⊢
  rcases run with ⟨value | reason | _, net⟩
  · exact ⟨hdb.pages, hdb.remote, hop⟩
  · exact ⟨hdb.pages, hdb.remote, hop⟩
  · exact hop

theorem onWorld_returns {op : Prog Net ε α} {good : α → Disk → Prop}
    (h : Triple (fun net => I net.disk) op (Returns fun value net => good value net.disk)) :
    Triple (OnDisk pages remote I) (onWorld op)
      (Returns fun value => OnDisk pages remote (good value)) :=
  Stops.mono (onWorld_onDisk (K := fun _ => False) h) (fun _ h => h.disk) fun _ _ h => h

end Database

namespace Remote

open Database

variable (setup : Net.Setup) {pages : Pages} {remote : Remote} {K F G : Disk → Prop} {ε : Type}

-- The state of the local copy and the disk fit together.
abbrev CopyHolds (K F : Disk → Prop) (db : Database Net) : Prop :=
  db.remote.copy.Holds setup.native K F db.world.disk

theorem writer_spec :
    Triple (OnDisk pages remote (remote.copy.Holds setup.native K F))
      (writer (Net.env setup) : Prog (Database Net) ε (Option Background))
      (Returns fun writer => OnDisk pages remote fun disk =>
        match writer with
        | none => remote.copy = .None ∧ K disk
        | some writer => writer.Holds K F writer.queue disk) := by
  rintro db ⟨hpages, rfl, hdisk⟩
  unfold writer
  rw [get_bind]
  generalize hcopy : db.remote.copy = copy at hdisk ⊢
  cases copy with
  | None => exact ⟨hpages, rfl, rfl, hdisk⟩
  | Ready =>
      refine Stops.bind (onWorld_returns (Net.ask_spec (I := F) Turn.yes)) (fun running => ?_) db
        ⟨hpages, rfl, hdisk⟩
      exact fun _ h => ⟨h.pages, h.remote, h.disk⟩
  | Writing writer => exact ⟨hpages, rfl, hdisk.2⟩

theorem writeCopyNative_spec (hF : Disk.Allows K F) (hnative : setup.native = true) {head : Head}
    {blocks : List (Nat × Bytes)} (hwrite : ∀ disk, F disk → G (disk.write head blocks))
    (hempty : G .empty) :
    Triple (OnDisk pages remote (remote.copy.Holds setup.native K F))
      (writeCopyNative (Net.env setup) head blocks : Prog (Database Net) ε Unit)
      (Returns fun _ db => db.pages = pages ∧ CopyHolds setup K G db) := by
  refine Stops.bind (writer_spec setup) ?_
  rintro (_ | writer)
  · rintro db ⟨hpages, rfl, hcopy, hdisk⟩
    have hholds : CopyHolds setup K G db := by
      rw [CopyHolds, hcopy]
      exact hdisk
    exact ⟨hpages, hholds⟩
  dsimp only
  refine Stops.bind (onWorld_returns
    (Net.ask_spec (I := fun disk => writer.Holds K F writer.queue disk) Turn.amount)) fun progress => ?_
  refine Stops.bind (onWorld_returns (Stops.mono (Background.advance_spec setup hF progress writer)
    (fun _ h => h) fun _ _ h => h.2)) fun writer => ?_
  rintro db ⟨hpages, hremote, hdisk⟩
  unfold Database.count
  rw [modify_bind]
  unfold Background.write
  by_cases hrunning : writer.running
  · rw [if_pos hrunning]
    refine ⟨hpages, hnative, ?_⟩
    change Background.Holds K G (writer.queue ++ [(head, blocks)]) _ db.world.disk
    unfold Background.Holds at hdisk ⊢
    dsimp only
    split_ifs at hdisk ⊢
    · exact hdisk
    · exact hdisk.append (fun disk h => ⟨hF.always disk h, hwrite disk h⟩) hempty
  · rw [if_neg hrunning]
    exact ⟨hpages, hdisk.always hF⟩

theorem writeCopyBrowser_spec (hF : Disk.Allows K F) (hF' : Disk.Allows K G)
    (hnative : setup.native = false) {head : Head} {blocks : List (Nat × Bytes)}
    (hwrite : ∀ disk, F disk → G (disk.write head blocks)) :
    Triple (OnDisk pages remote (remote.copy.Holds setup.native K F))
      (writeCopyBrowser (Net.env setup) head blocks : Prog (Database Net) ε Unit)
      (Returns fun _ db => db.pages = pages ∧ CopyHolds setup K G db) := by
  rintro db ⟨hpages, rfl, hdisk⟩
  unfold writeCopyBrowser
  rw [get_bind]
  cases hcopy : db.remote.copy with
  | None =>
      refine ⟨hpages, ?_⟩
      change db.remote.copy.Holds _ K G db.world.disk
      rw [hcopy] at hdisk ⊢
      exact hdisk
  | Ready =>
      rw [hcopy] at hdisk
      refine Stops.bind (Stops.attempt (onWorld_onDisk (Net.write_spec hF' hF.always hwrite))) ?_ db
        ⟨hpages, rfl, hdisk⟩
      rintro (_ | _)
      · exact fun after h => ⟨h.pages, h.disk⟩
      · rintro after ⟨hpages', hremote, hafter⟩
        refine ⟨hpages', ?_⟩
        change after.remote.copy.Holds _ K G after.world.disk
        rw [hremote, hcopy]
        exact hafter
  | Writing writer =>
      rw [hcopy] at hdisk
      exact absurd hdisk.1 (by simp [hnative])

-- The copy gets blocks of the last commit, or it is not written any more.
theorem writeCopy_spec (hF : Disk.Allows K F) (hF' : Disk.Allows K G) (hempty : G .empty)
    (indexes : List Nat) (hskip : indexes = [] → ∀ disk, F disk → G disk)
    (hwrite : ∀ disk, F disk → G (disk.write (remote.copyHead pages)
      (indexes.filterMap fun index => (pages.block index).map (index, ·)))) :
    Triple (OnDisk pages remote (remote.copy.Holds setup.native K F))
      (writeCopy (Net.env setup) indexes : Prog (Database Net) ε Unit)
      (Returns fun _ db => db.pages = pages ∧ CopyHolds setup K G db) := by
  rintro db ⟨rfl, rfl, hdisk⟩
  unfold writeCopy
  rw [get_bind]
  split_ifs with hnone hnative
  · refine ⟨rfl, ?_⟩
    change db.remote.copy.Holds _ K G db.world.disk
    cases hcopy : db.remote.copy with
    | None => rw [hcopy] at hdisk; exact hdisk
    | _ =>
        have hindexes : indexes = [] := by simpa [hcopy, LocalCopy.isNone] using hnone
        rw [← hcopy]
        exact hdisk.imp (fun _ h => h) (hskip hindexes)
  · exact writeCopyNative_spec setup hF hnative hwrite hempty db ⟨rfl, rfl, hdisk⟩
  · exact writeCopyBrowser_spec setup hF hF' (eq_false_of_ne_true hnative) hwrite db ⟨rfl, rfl, hdisk⟩

theorem readCopy_spec (hF : Disk.Allows K F) (first blocks : Nat) :
    Triple (OnDisk pages remote (remote.copy.Holds setup.native K F))
      (onWorld (remote.copy.read (Net.env setup) first blocks))
      (Stops (OnDisk pages remote K) fun result => OnDisk pages remote fun disk =>
        result.2.Holds setup.native K F disk ∧ result.1.length ≤ blocks ∧
          Disk.Shown F first result.1) :=
  onWorld_onDisk (LocalCopy.read_spec setup hF first blocks _)

theorem clearCopy_spec {I : Disk → Prop} :
    Triple (OnDisk pages remote I) (onWorld Net.store.clear)
      (Stops (OnDisk pages remote I) fun _ => OnDisk pages remote (· = .empty)) :=
  onWorld_onDisk Net.clear_spec

theorem headCopy_spec {I : Disk → Prop} :
    Triple (OnDisk pages remote I) (onWorld Net.store.head)
      (Stops (OnDisk pages remote I) fun head =>
        OnDisk pages remote fun disk => I disk ∧ disk.head = head) :=
  onWorld_onDisk Net.head_spec

theorem forgetBlocks_spec {I : Disk → Prop} {head : Head} {blocks : List Nat} (hF : Disk.Allows K F)
    (hI : ∀ disk, I disk → K disk) (hforget : ∀ disk, I disk → F (disk.forget head blocks)) :
    Triple (OnDisk pages remote I) (onWorld (LocalCopy.Ready.catchUp (Net.env setup) head blocks))
      (Stops (OnDisk pages remote K) fun _ => OnDisk pages remote F) :=
  onWorld_onDisk (Net.forget_spec hF hI hforget)

theorem mem_held {indexes : List Nat} {entry : Nat × Bytes}
    (h : entry ∈ indexes.filterMap fun index => (pages.block index).map (index, ·)) :
    entry.1 ∈ indexes ∧ pages.block entry.1 = some entry.2 := by
  obtain ⟨index, hindex, hentry⟩ := List.mem_filterMap.mp h
  obtain ⟨data, hdata, rfl⟩ := Option.map_eq_some_iff.mp hentry
  exact ⟨hindex, hdata⟩

-- What a read of the copy puts into memory.
def Taken (F : Disk → Prop) (first blocks : Nat) (before after : Pages) (taken : Bool) : Prop :=
  if taken then ∃ read : List Bytes, read ≠ [] ∧ read.length ≤ blocks ∧ Disk.Shown F first read ∧
    after = before.keepAll (read.mapIdx fun offset data => (first + offset, data))
  else after = before

theorem takeFromCopy_spec (hF : Disk.Allows K F) (first blocks : Nat) :
    Triple (OnDisk pages remote (remote.copy.Holds setup.native K F))
      (takeFromCopy (Net.env setup) first blocks : Prog (Database Net) ε Bool)
      (Returns fun taken db => CopyHolds setup K F db ∧ Taken F first blocks pages db.pages taken) := by
  rintro db ⟨rfl, rfl, hdisk⟩
  unfold takeFromCopy
  rw [get_bind]
  split_ifs with hnone
  · exact ⟨hdisk, rfl⟩
  unfold Database.count
  rw [modify_bind]
  refine Stops.bind (Stops.attempt (readCopy_spec setup hF first _)) ?_ _ ⟨rfl, rfl, hdisk⟩
  rintro (_ | ⟨read, copy⟩)
  · exact fun after h => ⟨h.disk, h.pages⟩
  rintro after ⟨hpages, hremote, hholds, hlength, hshown⟩
  dsimp only
  unfold setCopy
  rw [modify_bind]
  split_ifs with hread
  · exact ⟨hholds, hpages⟩
  · refine ⟨hholds, read, ?_, hlength.trans (Nat.min_le_left _ _), hshown, ?_⟩
    · rintro rfl
      simp at hread
    · change after.pages = db.pages at hpages
      change after.pages.keepAll _ = _
      rw [hpages]

end Remote

namespace Database

-- The local copy of the database at the client's version. Before the last queued write it
-- may also be at an earlier version.
def trusted (db : Database Net) (disk : Disk) : Prop :=
  disk.Trusted db.world.server db.remote.subject db.remote.dbId

def coherent (db : Database Net) (disk : Disk) : Prop :=
  db.trusted disk ∧ disk.Coherent db.image

variable {db : Database Net} {disk : Disk}

theorem allows_coherent (db : Database Net) : Disk.Allows db.trusted db.coherent :=
  ⟨fun _ h => h.1, fun disk head left => disk.trusted_interrupted _ _ _ head left⟩

theorem coherent_empty (db : Database Net) : db.coherent .empty :=
  ⟨Disk.trusted_empty _ _ _, (Disk.exact_empty _).coherent⟩

theorem coherent_of_exact {head : Head} (hversion : db.remote.version ≤ db.world.server.version)
    (hhead : disk.head = some head) (hat : head.version = db.remote.version)
    (h : disk.Exact db.image) : db.coherent disk :=
  ⟨Disk.trusted_of_exact hhead (hat ▸ hversion) (by rw [hat]; exact h), h.coherent⟩

-- Blocks of the image are written over a copy whose other blocks are the image's.
theorem coherent_write (hversion : db.remote.version ≤ db.world.server.version) {pages : Pages}
    {blocks : List (Nat × Bytes)}
    (hblocks : ∀ entry ∈ blocks, entry.1 < pages.stablePageCount → entry.2 = db.image.block entry.1)
    (hrest : ∀ i data, i < pages.stablePageCount → i ∉ blocks.map Prod.fst →
      disk.holds i = some data → data = db.image.block i) :
    db.coherent (disk.write (db.remote.copyHead pages) blocks) :=
  coherent_of_exact hversion rfl rfl (Disk.exact_write hblocks hrest)

-- Blocks of the image that are in memory are written to the copy.
theorem writeCopy_coherent (setup : Net.Setup) {ε : Type} {now : Database Net}
    (hversion : db.remote.version ≤ db.world.server.version)
    (hhead : ∀ pages, now.remote.copyHead pages = db.remote.copyHead pages)
    (hstable : now.pages.stablePageCount ≤ db.image.pageCount) (indexes : List Nat)
    (hblocks : ∀ i ∈ indexes, ∀ data, now.pages.block i = some data → data = db.image.block i)
    (hcopy : Remote.CopyHolds setup db.trusted db.coherent now) :
    ∃ last, (Remote.writeCopy (Net.env setup) indexes : Prog (Database Net) ε Unit) now = (.ok (), last) ∧
      last.pages = now.pages ∧ Remote.CopyHolds setup db.trusted db.coherent last := by
  have hwrite := Remote.writeCopy_spec (ε := ε) (G := db.coherent) setup (allows_coherent db)
    (allows_coherent db) (coherent_empty db) indexes (fun _ _ h => h) (fun disk hdisk => ?_) now
    ⟨rfl, rfl, hcopy⟩
  · generalize Remote.writeCopy (Net.env setup) indexes now = run at hwrite ⊢
    rcases run with ⟨_ | _ | _, last⟩
    · exact ⟨last, rfl, hwrite⟩
    · exact hwrite.elim
    · exact hwrite.elim
  · rw [hhead]
    refine coherent_write hversion (fun entry hentry _ => ?_) fun i data hi _ hheld => ?_
    · obtain ⟨hindex, hdata⟩ := Remote.mem_held hentry
      exact hblocks entry.1 hindex entry.2 hdata
    · exact hdisk.2 i data (by omega) hheld

-- What holds of a database with a local copy while it is open.
structure Cached (setup : Net.Setup) (db : Database Net) : Prop where
  ready : db.source.link.Ready NoCommit
  version : db.remote.version ≤ db.world.server.version
  stable : db.pages.stablePageCount = db.image.pageCount
  copy : Remote.CopyHolds setup db.trusted db.coherent db

variable {setup : Net.Setup} {before after : Database Net}

-- The database and the version stay the same.
structure SameVersion (before after : Database Net) : Prop where
  version : after.remote.version = before.remote.version
  subject : after.remote.subject = before.remote.subject
  dbId : after.remote.dbId = before.remote.dbId

theorem Loads.sameVersion {P : Pb.Commit → Prop} (h : Loads P before after) :
    SameVersion before after := by
  obtain ⟨login, broken, copy, hremote⟩ := h.remote
  constructor <;> rw [hremote]

-- A copy of a version that the server has had stays what it is.
theorem Cached.later (hversion : before.remote.version ≤ before.world.server.version)
    (hstable : after.pages.stablePageCount = before.image.pageCount)
    (hready : after.source.link.Ready NoCommit) (hlater : before.world.Later after.world)
    (hsame : SameVersion before after)
    (hcopy : Remote.CopyHolds setup before.trusted before.coherent after) : Cached setup after := by
  have himage : after.image = before.image := image_later hversion hlater.ext hsame.version
  have htrusted : ∀ disk, before.trusted disk → after.trusted disk := by
    intro disk hdisk
    unfold trusted
    rw [hsame.subject, hsame.dbId]
    exact hdisk.extend hlater.ext
  refine ⟨hready, ?_, by rw [hstable, himage], ?_⟩
  · rw [hsame.version]
    exact hversion.trans hlater.ext.version_le
  · exact hcopy.imp htrusted fun disk hdisk => ⟨htrusted disk hdisk.1, by rw [himage]; exact hdisk.2⟩

theorem Cached.loads (h : Cached setup before) (hloads : Loads NoCommit before after)
    (hstable : after.pages.stablePageCount = before.pages.stablePageCount)
    (hcopy : Remote.CopyHolds setup before.trusted before.coherent after) : Cached setup after :=
  Cached.later h.version (hstable.trans h.stable) hloads.link.ready hloads.link.later
    hloads.sameVersion hcopy

-- Waiting for the server leaves the copy alone.
theorem copyHolds_waits {K F : Disk → Prop} (h : Remote.CopyHolds setup K F before)
    (hwaits : Waits NoCommit Eq before after) : Remote.CopyHolds setup K F after := by
  obtain ⟨login, broken, hremote⟩ := hwaits.remote
  have hdisk : before.world.disk = after.world.disk := hwaits.link.disk
  unfold Remote.CopyHolds at h ⊢
  rw [hremote, ← hdisk]
  exact h

end Database

namespace Fetch

open Database Remote

variable (setup : Net.Setup) {db : Database Net}

-- What loading missing blocks leaves behind.
structure Refilled (db : Database Net) (first count : Nat) (o : Outcome Broken Unit)
    (after : Database Net) : Prop where
  copy : CopyHolds setup db.trusted db.coherent after
  stable : after.pages.stablePageCount = db.pages.stablePageCount
  -- Below the committed page count the copy and the server agree.
  reloads : first + count ≤ db.image.pageCount → Reloads db.image.block db.pages after.pages ∧
    o.Meets (fun _ => True) fun _ => after.pages.block first ≠ none

theorem mem_mapIdx_offset {first : Nat} {blocks : List Bytes} {entry : Nat × Bytes}
    (h : entry ∈ blocks.mapIdx fun offset data => (first + offset, data)) :
    ∃ k, blocks[k]? = some entry.2 ∧ entry.1 = first + k ∧ k < blocks.length := by
  obtain ⟨k, hk, rfl⟩ := List.mem_mapIdx.mp h
  exact ⟨k, List.getElem?_eq_getElem hk, rfl, hk⟩

-- Blocks that the copy shows below the committed page count are the server's.
theorem shown_block {first : Nat} {blocks : List Bytes} {entry : Nat × Bytes}
    (hshown : Disk.Shown db.coherent first blocks)
    (h : entry ∈ blocks.mapIdx fun offset data => (first + offset, data))
    (hbelow : entry.1 < db.image.pageCount) : entry.2 = db.image.block entry.1 := by
  obtain ⟨k, hk, hindex, -⟩ := mem_mapIdx_offset h
  obtain ⟨disk, hdisk, hholds⟩ := hshown k entry.2 hk
  exact hdisk.2 entry.1 entry.2 hbelow (hindex ▸ hholds)

theorem Taken.reloads {first count : Nat} {after : Pages} (hasks : db.pages.Asks first count)
    (hbelow : first + count ≤ db.image.pageCount)
    (h : Taken db.coherent first count db.pages after true) :
    Reloads db.image.block db.pages after ∧ after.block first ≠ none := by
  obtain ⟨read, hne, hlength, hshown, rfl⟩ := h
  have hend := hasks.below
  refine ⟨Reloads.keepAll hasks.limited _ fun entry hentry => ?_, ?_⟩
  · obtain ⟨k, -, hindex, hk⟩ := mem_mapIdx_offset hentry
    refine ⟨shown_block hshown hentry (by omega), ?_, by omega⟩
    exact (hasks.absent entry.1 (by omega) (by omega)).2
  · obtain ⟨data, rest, rfl⟩ := List.exists_cons_of_ne_nil hne
    exact (block_keepAll_ne_none _ _ _).mpr (Or.inr ⟨data, by simp⟩)

-- The missing blocks come from the server, and the copy gets them too.
theorem fetched_refilled {mid : Database Net} (h : Cached setup db) (hloads : Loads NoCommit db mid)
    (hcopy : CopyHolds setup db.trusted db.coherent mid) (hpages : mid.pages = db.pages)
    {first count : Nat} (hasks : db.pages.Asks first count) :
    Triple (Waits NoCommit Eq mid) (do
      reconnected (Net.env setup)
      Prog.handle (load (Net.env setup) first count) fun err =>
        if err.isFenced then breakWith .Fenced else Prog.fail (.Refused err.display)
      writeCopy (Net.env setup) (List.range' first count)) (Refilled setup db first count) := by
  have hstop : ∀ (o : Outcome Broken Unit) (after : Database Net), Waits NoCommit Eq mid after →
      (∀ value, o ≠ .ok value) → Refilled setup db first count o after := by
    intro o after hwaits hne
    have hafter : after.pages = db.pages := hwaits.pages.trans hpages
    refine ⟨copyHolds_waits hcopy hwaits, by rw [hafter], fun _ => ⟨hafter ▸ Reloads.refl _, ?_⟩⟩
    cases o with
    | ok value => exact absurd rfl (hne value)
    | err reason => trivial
    | hang => trivial
  refine Ends.followed (reconnected_spec setup) hstop fun _ => ?_
  rintro now ⟨hnow, -⟩
  obtain ⟨login, broken, copy, hmidRemote⟩ := hloads.remote
  have hversionMid : now.remote.version = db.remote.version := by rw [hnow.version, hmidRemote]
  have hlater := hloads.link.later.trans hnow.link.later
  have hversion : now.remote.version ≤ now.world.server.version := by
    rw [hversionMid]
    exact h.version.trans hlater.ext.version_le
  have himage : now.image = db.image := image_later h.version hlater.ext hversionMid
  have hload := load_spec (P := NoCommit) (D := Eq) setup hversion first count now
    ⟨Waits.refl hnow.link.ready, rfl⟩
  rw [bind_apply]
  unfold Prog.handle
  generalize load (Net.env setup) first count now = run at hload ⊢
  rcases run with ⟨_ | err | _, after⟩
  · obtain ⟨⟨hlink, hremote⟩, hafter⟩ := hload
    change after.pages = _ at hafter
    rw [himage, hnow.pages, hpages] at hafter
    have hreloads : Reloads db.image.block db.pages after.pages := hafter ▸ hasks.loaded.1
    have hhead : ∀ pages, after.remote.copyHead pages = db.remote.copyHead pages := by
      obtain ⟨login', broken', hnowRemote⟩ := hnow.remote
      intro pages
      rw [hremote, hnowRemote, hmidRemote]
      rfl
    have hholds : CopyHolds setup db.trusted db.coherent after := by
      have hwaits := copyHolds_waits hcopy hnow
      have hdisk : now.world.disk = after.world.disk := hlink.disk
      unfold CopyHolds at hwaits ⊢
      rw [hremote, ← hdisk]
      exact hwaits
    have hblocks : ∀ i ∈ List.range' first count, ∀ data, after.pages.block i = some data →
        data = db.image.block i := by
      intro i hi data hdata
      obtain ⟨hlow, hhigh⟩ := List.mem_range'_1.mp hi
      exact hreloads.block_of_absent (hasks.absent i hlow hhigh).1 hdata
    have hstable : after.pages.stablePageCount ≤ db.image.pageCount := by
      rw [hreloads.stable, h.stable]
    obtain ⟨last, hwrite, hlast, hlastCopy⟩ :=
      writeCopy_coherent setup (ε := Broken) h.version hhead hstable _ hblocks hholds
    dsimp only
    rw [hwrite]
    refine ⟨hlastCopy, by rw [hlast, hreloads.stable], fun _ => ?_⟩
    rw [hlast]
    exact ⟨hreloads, hafter ▸ hasks.loaded.2⟩
  · obtain ⟨⟨hlink, hremote⟩, hafter⟩ := hload
    have hwaits : Waits NoCommit Eq mid after :=
      ⟨hnow.link.trans hlink, hafter.trans hnow.pages, hremote ▸ hnow.remote⟩
    dsimp only
    split_ifs
    · exact hstop _ _ (hwaits.broken _) fun _ h => by cases h
    · exact hstop _ _ hwaits (by simp)
  · obtain ⟨⟨hlink, hremote⟩, hafter⟩ := hload
    exact hstop _ _ ⟨hnow.link.trans hlink, hafter.trans hnow.pages, hremote ▸ hnow.remote⟩ (by simp)

theorem fill_refilled (h : Cached setup db) {first count : Nat} (hasks : db.pages.Asks first count) :
    Refilled setup db first count (fill (Net.env setup) first count db).1
      (fill (Net.env setup) first count db).2 := by
  unfold fill
  rw [get_bind]
  cases hbroken : db.remote.broken with
  | some broken => exact ⟨h.copy, rfl, fun _ => ⟨Reloads.refl _, trivial⟩⟩
  | none =>
      dsimp only
      have htake := takeFromCopy_spec (ε := Broken) setup (allows_coherent db) first count db
        ⟨rfl, rfl, h.copy⟩
      have hloads := takeFromCopy_loaded (P := NoCommit) (ε := Broken) setup first count db h.ready
      rw [bind_apply]
      generalize takeFromCopy (Net.env setup) first count db = run at htake hloads ⊢
      rcases run with ⟨taken | _ | _, mid⟩
      · obtain ⟨hcopy, htaken⟩ := htake
        cases taken with
        | true =>
            refine ⟨hcopy, ?_, fun hbelow => Taken.reloads hasks hbelow htaken⟩
            obtain ⟨read, -, -, -, hpages⟩ := htaken
            change mid.pages = _ at hpages
            change mid.pages.stablePageCount = _
            rw [hpages]
            exact (shape_keepAll _ _).stable
        | false =>
            exact fetched_refilled setup h hloads hcopy htaken hasks mid (Waits.refl hloads.link.ready)
      · exact htake.elim
      · exact htake.elim

end Fetch

end RemoteVfs
