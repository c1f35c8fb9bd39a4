import RemoteVfs.Session.Once

namespace RemoteVfs

open Base Base.Prog Link Pages

namespace Database

-- The content of the database at the client's version.
def image (db : Database Net) : Image := db.world.server.imageAt db.remote.version

theorem image_later {before after : Database Net} (hversion : before.remote.version ≤ before.world.server.version)
    (hext : before.world.server.Extends after.world.server)
    (hremote : after.remote.version = before.remote.version) : after.image = before.image := by
  unfold image
  rw [hremote, hext.imageAt hversion]

end Database

namespace Remote

open Database

variable {P : Pb.Commit → Prop} {D : Disk → Disk → Prop}

-- Waiting with nothing changed but the connection.
def Stays (P : Pb.Commit → Prop) (D : Disk → Disk → Prop) (start db : Database Net) : Prop :=
  Waits P D start db ∧ db.remote = start.remote

theorem onLink_stays {ε α : Type} {start : Database Net} {body : Prog (Link Net) ε α}
    {good : α → Link Net → Prop} {fact : Link Net → Prop}
    (h : Triple (fun link => Kept P D start.source.link link ∧ fact link) body
      (Ends (Kept P D start.source.link) good)) :
    Triple (fun db => Stays P D start db ∧ fact db.source.link) (onLink body)
      (Ends (Stays P D start) fun value db => good value db.source.link) := by
  rintro db ⟨⟨hwaits, hremote⟩, hfact⟩
  obtain ⟨hafter, hgood⟩ := onLink_spec h db ⟨hwaits, hfact⟩
  exact ⟨⟨hafter, hremote⟩, hgood⟩

-- What filling the memory without a local copy changes.
structure Filled (P : Pb.Commit → Prop) (D : Disk → Disk → Prop) (before after : Database Net) :
    Prop where
  link : Kept P D before.source.link after.source.link
  remote : after.remote = before.remote
  shape : SameShape before.pages after.pages
  sound : Sound before.image.block after.pages

theorem Filled.makeRoom {before after : Database Net} (h : Filled P D before after) :
    Filled P D before (Held.count (Held.makeRoom 0 after)) := by
  have hroom : Reloads before.image.block after.pages (after.pages.makeRoom 0 after.stats).1 :=
    Reloads.makeRoom _ _ _
  exact ⟨h.link, h.remote, h.shape.trans hroom.shape, h.sound.reloads hroom⟩

variable [IsPreorder Disk D] (setup : Net.Setup)

theorem now_stays {ε : Type} {start : Database Net} :
    Triple (Stays P D start) (onLink (Client.now (Net.env setup)) : Prog (Database Net) ε Nat)
      (Ends (Stays P D start) fun _ _ => True) :=
  (onLink_stays (Kept.triple (now_moved setup) _ lasting_true)).mono (fun _ h => ⟨h, trivial⟩)
    fun _ _ h => h

-- A load brings the blocks of the client's version into memory, or none.
theorem load_spec {start : Database Net} (hversion : start.remote.version ≤ start.world.server.version)
    (first blocks : Nat) :
    Triple (Stays P D start) (load (Net.env setup) first blocks) fun o db =>
      (Kept P D start.source.link db.source.link ∧ db.remote = start.remote) ∧
        o.Meets (fun _ => db.pages = start.pages)
          fun _ => db.pages = start.pages.keepAll (loadRun start.image.block first blocks) := by
  have hstop : ∀ (o : Outcome ClientError Unit) (db : Database Net), Stays P D start db →
      (∀ value, o ≠ .ok value) → (Kept P D start.source.link db.source.link ∧ db.remote = start.remote) ∧
        o.Meets (fun _ => db.pages = start.pages)
          fun _ => db.pages = start.pages.keepAll (loadRun start.image.block first blocks) := by
    rintro o db ⟨hwaits, hremote⟩ hne
    refine ⟨⟨hwaits.link, hremote⟩, ?_⟩
    cases o with
    | ok value => exact absurd rfl (hne value)
    | err reason => exact hwaits.pages
    | hang => exact hwaits.pages
  refine Ends.followed (now_stays setup) hstop fun _ => ?_
  rintro db ⟨hdb, -⟩
  rw [get_bind]
  refine Ends.followed (onLink_stays (fetch_spec setup _ lasting_true _ rfl _)) hstop
    (fun loaded => ?_) db ⟨hdb, trivial⟩
  rintro mid ⟨hmid, -, -, hloaded⟩
  -- The version is one that the server had before, so its content has not changed since.
  have hblocks : loaded = (List.range' first blocks).map start.image.block := by
    rw [hloaded, hdb.2, hmid.1.link.later.ext.imageAt hversion]
    rfl
  have hrun : loaded.mapIdx (fun offset data => (first + offset, data)) =
      loadRun start.image.block first blocks := by
    rw [hblocks]
    apply List.ext_getElem
    · simp [loadRun]
    · intro i hi _
      simp [loadRun]
  refine Ends.followed (now_stays setup) hstop (fun _ => ?_) mid hmid
  rintro after ⟨⟨hwaits, hremote⟩, -⟩
  refine ⟨⟨hwaits.link, hremote⟩, ?_⟩
  show after.pages.keepAll _ = _
  rw [hrun, hwaits.pages]

theorem takeFromCopy_none {ε : Type} (first blocks : Nat) {db : Database Net}
    (h : db.remote.copy = .None) :
    (takeFromCopy (Net.env setup) first blocks : Prog (Database Net) ε Bool) db = (.ok false, db) := by
  rw [takeFromCopy, get_bind, h]
  rfl

theorem writeCopy_none {ε : Type} (indexes : List Nat) {db : Database Net}
    (h : db.remote.copy = .None) :
    (writeCopy (Net.env setup) indexes : Prog (Database Net) ε Unit) db = (.ok (), db) := by
  rw [writeCopy, get_bind, h]
  rfl

theorem takeCopy_none {db : Database Net} (h : db.remote.copy = .None) :
    takeCopy (Net.env setup) db = (.ok false, db) := by
  rw [takeCopy, get_bind, h]
  rfl

theorem fill_none {db : Database Net} (hready : db.source.link.Ready P)
    (hversion : db.remote.version ≤ db.world.server.version) (hcopy : db.remote.copy = .None)
    (hs : Sound db.image.block db.pages) : Filled P D db (fill (Net.env setup) db).2 := by
  rw [fill, bind_ok _ (takeCopy_none setup hcopy)]
  dsimp only
  rw [get_bind]
  split_ifs with hload
  · have hspec := load_spec (P := P) (D := D) setup hversion 0 db.pages.pageCount db
      ⟨Waits.refl hready, rfl⟩
    rw [bind_apply]
    generalize load (Net.env setup) 0 db.pages.pageCount db = run at hspec ⊢
    rcases run with ⟨_ | err | _, after⟩
    · obtain ⟨⟨hlink, hremote⟩, hpages⟩ := hspec
      change after.pages = _ at hpages
      dsimp only
      rw [get_bind, bind_ok _ (writeCopy_none setup _ (by rw [hremote]; exact hcopy))]
      have hfilled : Filled P D db after := by
        refine ⟨hlink, hremote, hpages ▸ shape_keepAll _ _, hpages ▸ hs.keepAll fun entry hentry => ?_⟩
        obtain ⟨hdata, -, hhi⟩ := mem_loadRun.mp hentry
        exact ⟨hdata, by omega⟩
      exact hfilled.makeRoom
    · obtain ⟨⟨hlink, hremote⟩, hpages⟩ := hspec
      change after.pages = _ at hpages
      exact ⟨hlink, hremote, hpages ▸ SameShape.refl _, hpages ▸ hs⟩
    · obtain ⟨⟨hlink, hremote⟩, hpages⟩ := hspec
      change after.pages = _ at hpages
      exact ⟨hlink, hremote, hpages ▸ SameShape.refl _, hpages ▸ hs⟩
  · exact Filled.makeRoom ⟨Kept.refl hready, rfl, SameShape.refl _, hs⟩

end Remote

namespace Fetch

open Database Remote

variable (setup : Net.Setup)

theorem reconnected_spec {P : Pb.Commit → Prop} {D : Disk → Disk → Prop} [IsPreorder Disk D]
    {start : Database Net} :
    Triple (Waits P D start) (reconnected (Net.env setup)) (Ends (Waits P D start) fun _ _ => True) := by
  refine Ends.bind (Ends.mono (onCurrentConnection_spec setup lasting_true) (fun _ h => ⟨h, trivial⟩)
    fun _ _ _ h => h) fun _ => Triple.ite (fun _ => Ends.pure fun _ h => h) fun _ => ?_
  refine Ends.bind (Ends.handle (resume_spec setup lasting_true) fun err => ?_) fun _ =>
    Ends.pure fun _ h => ⟨h.1, trivial⟩
  exact Triple.ite (fun _ => breakWith_spec _) fun _ => breakWith_spec _

-- What loading without a local copy changes: the connection, the login, and whether the
-- database is broken.
structure Rests (start now : Fetch Net) : Prop where
  link : Kept NoCommit AnyDisk start.link now.link
  remote : ∃ login broken, now.remote = { start.remote with login := login, broken := broken }

theorem Rests.waits {start : Fetch Net} {before after : Database Net} (h : Rests start before.source)
    (hwaits : Waits NoCommit AnyDisk before after) : Rests start after.source := by
  obtain ⟨_, _, hbefore⟩ := h.remote
  obtain ⟨login, broken, hafter⟩ := hwaits.remote
  refine ⟨h.link.trans hwaits.link, login, broken, ?_⟩
  change after.remote = _
  rw [hafter]
  change ({ before.source.remote with login := login, broken := broken } : Remote) = _
  rw [hbefore]

-- Without a local copy, a missing block is the server's block at the client's version.
theorem serves {start : Fetch Net} (hversion : start.remote.version ≤ start.link.world.server.version)
    (hcopy : start.remote.copy = .None) (stable : Nat) :
    (source (Net.env setup)).Serves (start.link.world.server.imageAt start.remote.version).block stable
      (Rests start) fun _ => True := by
  rintro before first count hs - hasks (db : Database Net) ⟨hrests, rfl⟩
  have hkept : ∀ {after : Database Net}, Waits NoCommit AnyDisk db after →
      after.remote.copy = .None ∧ after.remote.version ≤ after.world.server.version ∧
        after.image = start.link.world.server.imageAt start.remote.version := by
    intro after hwaits
    obtain ⟨hlink, login, broken, hremote⟩ := hrests.waits hwaits
    change after.remote = _ at hremote
    unfold Database.image
    rw [hremote]
    exact ⟨hcopy, hversion.trans hlink.later.ext.version_le, hlink.later.ext.imageAt hversion⟩
  have hstop : ∀ (o : Outcome Broken Unit) (after : Database Net), Waits NoCommit AnyDisk db after →
      (∀ value, o ≠ .ok value) → Rests start after.source ∧
        Reloads (start.link.world.server.imageAt start.remote.version).block db.pages after.pages ∧
        o.Meets (fun _ => True) fun _ => after.pages.block first ≠ none ∨
          (start.link.world.server.imageAt start.remote.version).block first = zeros db.pages.pageSize := by
    intro o after hwaits hne
    refine ⟨hrests.waits hwaits, hwaits.pages ▸ Reloads.refl _, ?_⟩
    cases o with
    | ok value => exact absurd rfl (hne value)
    | err reason => trivial
    | hang => trivial
  have hrefl : Waits NoCommit AnyDisk db db := Waits.refl hrests.link.ready
  simp only [source, fill, get_bind]
  cases hbroken : db.remote.broken with
  | some broken => exact hstop _ _ hrefl (by simp)
  | none =>
      dsimp only
      rw [bind_ok _ (takeFromCopy_none setup first count (hkept hrefl).1)]
      simp only [Bool.false_eq_true, if_false]
      refine Ends.followed (reconnected_spec setup) hstop (fun _ => ?_) db hrefl
      rintro mid ⟨hmid, -⟩
      obtain ⟨hcopyMid, hversionMid, himage⟩ := hkept hmid
      have hload := load_spec (P := NoCommit) (D := AnyDisk) setup hversionMid first count mid
        ⟨Waits.refl hmid.link.ready, rfl⟩
      rw [bind_apply]
      unfold Prog.handle
      generalize load (Net.env setup) first count mid = run at hload ⊢
      rcases run with ⟨_ | err | _, after⟩
      · obtain ⟨⟨hlink, hremote⟩, hpages⟩ := hload
        dsimp only
        rw [writeCopy_none setup _ (by rw [hremote]; exact hcopyMid)]
        have hafter : after.pages = db.pages.keepAll
            (loadRun (start.link.world.server.imageAt start.remote.version).block first count) := by
          rw [← himage, ← hmid.pages]
          exact hpages
        obtain ⟨hlinkMid, hremoteMid⟩ := hrests.waits hmid
        refine ⟨⟨hlinkMid.trans hlink, ?_⟩, ?_⟩
        · obtain ⟨login, broken, hmidRemote⟩ := hremoteMid
          exact ⟨login, broken, Eq.trans hremote hmidRemote⟩
        · rw [hafter]
          exact ⟨hasks.loaded.1, Or.inl hasks.loaded.2⟩
      · obtain ⟨⟨hlink, hremote⟩, hpages⟩ := hload
        have hafter : Waits NoCommit AnyDisk db after :=
          ⟨hmid.link.trans hlink, hpages.trans hmid.pages, hremote ▸ hmid.remote⟩
        dsimp only
        split_ifs
        · exact hstop _ _ (hafter.broken _) fun _ h => by cases h
        · exact hstop _ _ hafter (by simp)
      · obtain ⟨⟨hlink, hremote⟩, hpages⟩ := hload
        exact hstop _ _ ⟨hmid.link.trans hlink, hpages.trans hmid.pages, hremote ▸ hmid.remote⟩ (by simp)

end Fetch

namespace Session

open Database

-- The pages are those of the image with the changes of a transaction.
structure Mirrors (image : Image) (pages : Pages) : Prop where
  sound : Sound image.block pages
  count : pages.sizeChanged = false → pages.pageCount = image.pageCount

theorem Mirrors.of_shape {image : Image} {before after : Pages} (h : Mirrors image before)
    (hshape : SameShape before after) (hsound : Sound image.block after) : Mirrors image after :=
  ⟨hsound, fun hsize => (hshape.size hsize).2.trans (h.count (hshape.size hsize).1)⟩

-- Without a local copy: unless the database is broken, the clean blocks in memory are the
-- server's at the client's version.
structure Snapshot (db : Database Net) : Prop where
  copy : db.remote.copy = .None
  mirrors : db.remote.broken = none → Mirrors db.image db.pages

variable (setup : Net.Setup) {db after : Database Net}

theorem Snapshot.rests (h : Snapshot db) (hlive : Live db)
    (hrests : Fetch.Rests db.source after.source)
    (hmirrors : after.remote.broken = none → Mirrors db.image after.pages) : Snapshot after := by
  obtain ⟨login, broken, hremote⟩ := hrests.remote
  change after.remote = { db.remote with login := login, broken := broken } at hremote
  have himage : after.image = db.image :=
    image_later hlive.version hrests.link.later.ext (by rw [hremote])
  refine ⟨by rw [hremote]; exact h.copy, ?_⟩
  rw [himage]
  exact hmirrors

theorem rests_refl (hlive : Live db) : Fetch.Rests db.source db.source :=
  ⟨Kept.refl hlive.ready, db.remote.login, db.remote.broken, rfl⟩

theorem Snapshot.read (h : Snapshot db) (hlive : Live db) (offset length : Nat) :
    Snapshot (Database.read (Net.env setup) offset length db).2 := by
  unfold Database.read unlessBroken
  rw [get_bind]
  cases hbroken : db.remote.broken with
  | some broken => exact h
  | none =>
      have hold := h.mirrors hbroken
      obtain ⟨⟨hrests, hreloads⟩, -⟩ := read_spec (Fetch.serves setup hlive.version h.copy _)
        (lasts_stable _ _) hold.sound rfl offset length db ⟨rests_refl hlive, Reloads.refl _⟩
      exact h.rests hlive hrests fun _ =>
        hold.of_shape hreloads.shape (hold.sound.reloads hreloads)

theorem Snapshot.write (h : Snapshot db) (hlive : Live db) (offset : Nat) (data : Bytes) :
    Snapshot (Database.write (Net.env setup) offset data db).2 := by
  unfold Database.write unlessBroken
  rw [get_bind]
  cases hbroken : db.remote.broken with
  | some broken => exact h
  | none =>
      have hold := h.mirrors hbroken
      obtain ⟨hrests, part, hpart⟩ := (write_spec (Fetch.serves setup hlive.version h.copy _)
        hold.sound rfl offset data db ⟨rests_refl hlive, Reloads.refl _⟩).part
      exact h.rests hlive hrests fun _ => hold.of_shape hpart.shape hpart.sound

theorem Snapshot.truncate (h : Snapshot db) (size : Nat) :
    Snapshot (Database.truncate size db : Outcome Broken Unit × Database Net).2 := by
  unfold Database.truncate unlessBroken
  rw [get_bind]
  cases hbroken : db.remote.broken with
  | some broken => exact h
  | none =>
      have hold := h.mirrors hbroken
      have hshape := shape_truncate db.pages size
      exact ⟨h.copy, fun _ => hold.of_shape hshape (hold.sound.truncate size)⟩

theorem find_dirty (pages : Pages) (indexes : List Nat) (i : Nat) :
    (((indexes.filterMap fun index => (pages.block index).map (index, ·)).map
      fun entry => (⟨entry.1, entry.2⟩ : Pb.Block)).reverse.find? (·.index = i)).map (·.data) =
        if i ∈ indexes then pages.block i else none := by
  induction indexes with
  | nil => simp
  | cons index rest ih =>
      cases hblock : pages.block index with
      | none =>
          rw [List.filterMap_cons, hblock, Option.map_none]
          dsimp only
          rw [ih]
          by_cases hi : i = index
          · subst hi
            simp [hblock]
          · simp [hi]
      | some data =>
          rw [List.filterMap_cons, hblock, Option.map_some]
          dsimp only
          rw [List.map_cons, List.reverse_cons, List.find?_append, Option.map_or, ih]
          by_cases hi : i = index
          · subst hi
            by_cases hrest : i ∈ rest <;> simp [hblock, hrest]
          · simp [hi, Ne.symm hi]

-- The blocks that the commit leaves on the server.
theorem Committed.published {commitId : Bytes} {server : Server} (h : Committed db commitId server)
    (hsized : (server.imageAt db.remote.version).pageSize = db.pages.pageSize) :
    Published (server.imageAt db.remote.version).block db.pages
      (server.imageAt (db.remote.version + 1)).block := by
  intro i
  rw [h.image]
  simp only [Image.store, dirtyBlocks]
  rw [find_dirty, hsized]
  by_cases hd : i ∈ db.pages.dirty
  · simp [hd]
  · simp [hd]

theorem pageSize_image (hlive : Live db) (hs : Sound db.image.block db.pages) :
    db.image.pageSize = db.pages.pageSize := by
  rw [← hs.storedSized 0]
  exact (hlive.ready.wf.sized db.remote.version 0).symm

theorem commitDone_none {mid : Database Net} (hcopy : mid.remote.copy = .None) (parts time : Nat)
    (commitId : Bytes) (version : Nat) :
    commitDone (Net.env setup) parts time commitId version mid =
      (.ok (), Held.count (Held.makeRoom 0 (published parts time commitId version mid))) := by
  have hpublished : (published parts time commitId version mid).remote.copy = .None := hcopy
  rw [commitDone_eq, bind_ok _ (Remote.writeCopy_none setup _ hpublished)]
  rfl

-- The database after a commit without a local copy.
theorem Acknowledged.none {mid after : Database Net} {k : Nat} (hack : Acknowledged setup db k mid after)
    (hlive : Live db) (hcopy : db.remote.copy = .None) (hs : Sound db.image.block db.pages) :
    after.remote.copy = .None ∧ after.image.pageSize = db.pages.pageSize ∧
      after.image.pageCount = db.pages.pageCount ∧
      Published db.image.block db.pages after.image.block ∧
      Reloads after.image.block db.pages.committed.2 after.pages := by
  obtain ⟨parts, time, hdone⟩ := hack.done
  obtain ⟨login, broken, pending, hremote⟩ := hack.remote
  have hcopyMid : mid.remote.copy = .None := by rw [hremote]; exact hcopy
  rw [commitDone_none setup hcopyMid] at hdone
  cases hdone
  have hold : mid.world.server.imageAt db.remote.version = db.image :=
    hack.later.ext.imageAt hlive.version
  have hcommitted := hack.committed mid.world _ hack.ready.wf (Net.Later.refl _) fun _ h => h
  have hpublished := hcommitted.published (by rw [hold]; exact pageSize_image hlive hs)
  have himage := hcommitted.image
  rw [hold] at hpublished himage
  refine ⟨hcopyMid, (congrArg Image.pageSize himage).trans (pageSize_image hlive hs),
    congrArg Image.pageCount himage, hpublished, ?_⟩
  rw [← hack.pages]
  exact Reloads.makeRoom _ _ _

theorem Snapshot.commit (h : Snapshot db) (hlive : Live db) (timeout : Nat) :
    Snapshot (Database.commit (Net.env setup) timeout db).2 := by
  have hmarked := commit_marks (Net.env setup) timeout db
  cases hrun : Database.commit (Net.env setup) timeout db with
  | mk result after =>
      rw [hrun] at hmarked
      by_cases hok : result = .ok ()
      · subst hok
        obtain ⟨-, -, rfl⟩ | ⟨k, mid, hack⟩ := commit_acknowledged setup hlive.ready timeout hrun
        · exact h
        have hs := (h.mirrors hack.unbroken).sound
        obtain ⟨hcopy, -, hcount, hpublished, hreloads⟩ := hack.none setup hlive h.copy hs
        exact ⟨hcopy, fun _ =>
          ⟨(hs.publish hpublished).reloads hreloads, fun _ => hreloads.pageCount.trans hcount.symm⟩⟩
      · have hhalted : Halted db after := by
          rcases commit_cases setup timeout hlive.ready with ⟨-, -, heq⟩ | ⟨-, hhalted⟩ |
            ⟨-, commitId, parts, begun, version, time, mid, hbegun, hwaits, -, heq⟩
          · rw [hrun] at heq
            cases heq
            exact absurd rfl hok
          · rw [hrun] at hhalted
            exact hhalted
          · obtain ⟨login, broken, pending, hremote⟩ := (hbegun.halted hwaits).remote
            rw [commitDone_none setup (by rw [hremote]; exact h.copy), hrun] at heq
            cases heq
            exact absurd rfl hok
        obtain ⟨login, broken, pending, hremote⟩ := hhalted.remote
        have himage : after.image = db.image :=
          image_later hlive.version hhalted.later.ext (by rw [hremote])
        refine ⟨by rw [hremote]; exact h.copy, fun hafter => ?_⟩
        rw [himage, hhalted.pages]
        exact h.mirrors (hmarked.broken hafter).1

theorem checked_min {opened : Pb.Opened} {inUse : Option Nat} (h : checked opened inUse = .ok opened) :
    512 ≤ opened.pageSize := by
  unfold checked at h
  split_ifs at h with hvalid hsize hcount
  simp only [validPageSize, Bool.not_eq_true', Bool.not_eq_false, Bool.and_eq_true,
    decide_eq_true_eq] at hvalid
  exact hvalid.1.1

theorem checked_count {opened : Pb.Opened} {inUse : Option Nat} (h : checked opened inUse = .ok opened) :
    opened.pageCount ≤ 2 ^ 64 := by
  unfold checked at h
  split_ifs at h with hvalid hsize hcount
  exact (not_lt.mp hcount).trans (by decide)

theorem checked_size {opened : Pb.Opened} {inUse : Option Nat}
    (h : checked opened inUse = .ok opened) :
    0 < opened.pageSize ∧ ∀ pageSize, inUse = some pageSize → opened.pageSize = pageSize := by
  have hmin := checked_min h
  refine ⟨by omega, ?_⟩
  rintro pageSize rfl
  unfold checked at h
  split_ifs at h with hvalid hsize hcount
  simpa using hsize

theorem Snapshot.heal (h : Snapshot db) (hlive : Live db) (hunreachable : db.isUnreachable = true) :
    Snapshot (Database.heal (Net.env setup) db).2 := by
  have hnot : db.remote.broken ≠ none := by
    intro hbroken
    simp [isUnreachable, hbroken] at hunreachable
  have hstuck : ∀ {after : Database Net}, Waits NoCommit Eq db after → after.remote.broken ≠ none →
      Snapshot after := by
    intro after hwaits hbroken
    obtain ⟨login, broken, hremote⟩ := hwaits.remote
    exact ⟨by rw [hremote]; exact h.copy, fun hnone => absurd hnone hbroken⟩
  rcases heal_cases setup hlive.ready with
    ⟨-, -, hmarked, hwaits⟩ |
    ⟨opened, mid, hmid, hresumed, ⟨-, -, -, hmarked, -, hwaits⟩ | ⟨-, hbroken, heq⟩⟩
  · exact hstuck hwaits fun hnone => hnot (hmarked.broken hnone).1
  · exact hstuck hwaits fun hnone => hnot (hmarked.broken hnone).1
  · obtain ⟨login, _, hremote⟩ := hmid.remote
    have hcopy : (restarted opened mid).remote.copy = .None := by
      change mid.remote.copy = .None
      rw [hremote]
      exact h.copy
    obtain ⟨hpos, hsize⟩ := checked_size hresumed.2
    have hsound : Sound (restarted opened mid).image.block (restarted opened mid).pages := by
      change Sound _ (Pages.new mid.pages.pageSize opened.pageCount mid.pages.blocksPerFetch mid.pages.cap)
      refine Sound.new ?_ fun i => ?_
      · rw [hmid.pages, ← hsize _ rfl]
        exact hpos
      · rw [hmid.pages, ← hsize _ rfl, hresumed.1.pageSize]
        exact hmid.link.ready.wf.sized opened.version i
    have hfilled : Remote.Filled NoCommit AnyDisk (restarted opened mid) _ :=
      Remote.fill_none setup hmid.link.ready hresumed.1.reached hcopy hsound
    rw [heq, reload_eq]
    generalize Remote.fill (Net.env setup) (restarted opened mid) = run at hfilled ⊢
    have hcopyAfter : run.2.remote.copy = .None := by rw [hfilled.remote]; exact hcopy
    rcases run with ⟨_ | err | _, after⟩
    · refine ⟨hcopyAfter, fun _ => ?_⟩
      have himage : after.image = (restarted opened mid).image :=
        image_later hresumed.1.reached hfilled.link.later.ext (by rw [hfilled.remote])
      change Mirrors after.image after.pages
      rw [himage]
      exact Mirrors.of_shape ⟨hsound, fun _ => hresumed.1.pageCount⟩ hfilled.shape hfilled.sound
    · exact ⟨hcopyAfter, fun hnone => by cases hnone⟩
    · refine ⟨hcopyAfter, fun hnone => ?_⟩
      change after.remote.broken = none at hnone
      rw [hfilled.remote] at hnone
      exact absurd (hbroken.symm.trans hnone) hnot

theorem Snapshot.step (h : Snapshot db) (hlive : Live db) (op : Op) :
    Snapshot (op.run (Net.env setup) db) := by
  cases op with
  | Read offset length => exact h.read setup hlive offset length
  | Write offset data => exact h.write setup hlive offset data
  | Truncate size => exact h.truncate size
  | Commit timeout => exact h.commit setup hlive timeout
  | Heal =>
      simp only [Op.run]
      split_ifs with hunreachable
      · exact h.heal setup hlive hunreachable
      · exact h
  | Label label =>
      exact h.rests hlive
        ⟨label_moved setup label db.source.link hlive.ready, db.remote.login, db.remote.broken, rfl⟩ h.mirrors

theorem Opened.snapshot {options : OpenOptions} (hlocal : options.hasLocal = false)
    (h : Opened setup options db) : Snapshot db := by
  obtain ⟨dbId, opened, link, hready, hat, hchecked, hfill⟩ := h.cases
  set start : Database Net :=
    ⟨.new opened.pageSize opened.pageCount options.blocksPerFetch options.cap, {},
      ⟨openedRemote dbId options opened link.client.logins, link⟩⟩ with hstart
  have hcopy : start.remote.copy = .None := if_neg (by simp [hlocal])
  have hsound : Sound start.image.block start.pages :=
    Sound.new (checked_size hchecked).1 fun i => by
      rw [hat.pageSize]
      exact hready.wf.sized opened.version i
  have hfilled : Remote.Filled NoCommit AnyDisk start _ :=
    Remote.fill_none setup hready hat.reached hcopy hsound
  rw [hfill] at hfilled
  have himage : db.image = start.image :=
    image_later hat.reached hfilled.link.later.ext (by rw [hfilled.remote])
  refine ⟨by rw [hfilled.remote]; exact hcopy, fun _ => ?_⟩
  rw [himage]
  exact Mirrors.of_shape ⟨hsound, fun _ => hat.pageCount⟩ hfilled.shape hfilled.sound

theorem Reached.snapshot {options : OpenOptions} {admitted : Database Net → Op → Prop}
    (hlocal : options.hasLocal = false) (h : Reached setup (Opened setup options) admitted db) : Snapshot db := by
  induction h with
  | Open h => exact h.snapshot setup hlocal
  | Step op h _ ih => exact ih.step setup (h.live setup) op

-- A read that succeeds returns the bytes of the file that the pages stand for.
theorem read_ok (hlive : Live db) (hsnapshot : Snapshot db) (hfetches : Fetches db.pages.blocksPerFetch)
    {offset length : Nat} {value : Bytes × Bool}
    (hread : Database.read (Net.env setup) offset length db = (.ok value, after)) :
    value = (db.pages.file db.image.block).read offset length := by
  unfold Database.read unlessBroken at hread
  rw [get_bind] at hread
  cases hbroken : db.remote.broken with
  | some broken =>
      rw [hbroken] at hread
      cases hread
  | none =>
      obtain ⟨-, hvalue⟩ := read_spec (Fetch.serves setup hlive.version hsnapshot.copy _)
        (lasts_stable _ _) (hsnapshot.mirrors hbroken).sound rfl offset length db ⟨rests_refl hlive, Reloads.refl _⟩
      rw [hbroken] at hread
      dsimp only at hread
      rw [hread] at hvalue
      exact hvalue hfetches

-- Whatever other instances do: the clean blocks in memory are those of one version, and so
-- is what a read returns next to the client's own writes if blocks are loaded.
theorem blocks_of_one_version {options : OpenOptions} (hlocal : options.hasLocal = false)
    (h : Reached setup (Opened setup options) anyOp db) (hbroken : db.remote.broken = none) :
    db.remote.version ≤ db.world.server.version ∧
      (∀ i data, i ∉ db.pages.dirty → db.pages.block i = some data →
        data = (db.world.server.imageAt db.remote.version).block i) ∧
      (Fetches db.pages.blocksPerFetch → ∀ offset length value after,
        Database.read (Net.env setup) offset length db = (.ok value, after) →
          value = (db.pages.file (db.world.server.imageAt db.remote.version).block).read offset length) := by
  have hlive := h.live setup
  have hsnapshot := h.snapshot setup hlocal
  have hs := (hsnapshot.mirrors hbroken).sound
  refine ⟨hlive.version, fun i data hd hb => hs.clean i data hd hb, fun hfetches _ _ _ _ hread =>
    read_ok setup hlive hsnapshot hfetches hread⟩

-- Another instance commits after the client's commit.
def crowded (n : Nat) : Turn where
  moves := .Serve 0 {} :: if n = 18 then [.Commit [9] 1 [⟨0, List.replicate 512 9⟩]] else []

theorem blocks_of_one_version_crowded :
    ∃ db data, Reached sampleSetup (Opened sampleSetup sampleOptions) anyOp db ∧ db.remote.version = 1 ∧
      db.world.server.version = 2 ∧ db.pages.block 0 = some data ∧
      data = (db.world.server.imageAt 1).block 0 ∧ data ≠ (db.world.server.imageAt 2).block 0 := by
  have hfacts : (sample crowded sampleOptions [.Write 0 [1], .Commit 0, .Label ""]).any (fun db =>
      decide (db.remote.broken = none ∧ db.remote.version = 1 ∧ db.world.server.version = 2 ∧
        db.pages.block 0 ≠ none ∧ 0 ∉ db.pages.dirty ∧
        (db.world.server.imageAt 1).block 0 ≠ (db.world.server.imageAt 2).block 0)) = true := by
    decide +kernel
  obtain ⟨db, hdb, hfacts⟩ := (Option.any_eq_true _ _).mp hfacts
  rw [decide_eq_true_eq] at hfacts
  obtain ⟨hbroken, hversion, hserver, hheld, hclean, hne⟩ := hfacts
  obtain ⟨data, hdata⟩ := Option.ne_none_iff_exists'.mp hheld
  have hfresh : (emptyNet crowded).Fresh :=
    emptyNet_fresh fun n move hmove commitId pageCount blocks heq => by
      subst heq
      unfold crowded at hmove
      split_ifs at hmove
      · simp only [List.mem_cons, reduceCtorEq, List.not_mem_nil, or_false, false_or,
          Move.Commit.injEq] at hmove
        exact ⟨9, by simp [hmove.1], by decide⟩
      · simp at hmove
  have hreached : Reached sampleSetup (Opened sampleSetup sampleOptions) anyOp db :=
    sample_reached hfresh (fun _ _ _ => trivial) hdb
  have heq := (blocks_of_one_version sampleSetup rfl hreached hbroken).2.1 0 data hclean hdata
  rw [hversion] at heq
  exact ⟨db, data, hreached, hversion, hserver, hdata, heq, heq ▸ hne⟩

end Session

end RemoteVfs
