import RemoteVfs.Session.Preload

namespace RemoteVfs.Session

open Base Base.Prog Link Pages Database

variable (setup : Net.Setup) {db after : Database Net}

theorem cached_fill (h : Cached setup db) {first count : Nat} (hasks : db.pages.Asks first count) :
    Cached setup (Fetch.fill (Net.env setup) first count db).2 :=
  h.loads (Fetch.fill_loaded setup first count db h.ready) (Fetch.fill_refilled setup h hasks).stable
    (Fetch.fill_refilled setup h hasks).copy

-- Carries the invariant from one state to the next.
def KeepsCached (before after : Database Net) : Prop := Cached setup before → Cached setup after

instance : IsPreorder (Database Net) (KeepsCached setup) where
  refl _ h := h
  trans _ _ _ hab hbc h := hbc (hab h)

theorem respects_cached : Pages.Respects (KeepsCached setup) (Fetch.source (Net.env setup)) where
  pages a b hsource hshape h := by
    obtain ⟨pages, stats, source⟩ := b
    subst hsource
    exact ⟨h.ready, h.version, hshape.stable.trans h.stable, h.copy⟩
  fill _ _ _ hasks h := cached_fill setup h hasks

-- The copy holds no block that the commit adds to the file without sending it.
def Gapless (pages : Pages) (disk : Disk) : Prop :=
  ∀ i, pages.stablePageCount ≤ i → i < pages.pageCount → i ∉ pages.dirtyBlocks.map Prod.fst →
    disk.holds i = none

-- The blocks of the new version.
theorem Committed.block {commitId : Bytes} {server : Server} (h : Committed db commitId server)
    {i : Nat} (hi : i < db.pages.pageCount) :
    (server.imageAt (db.remote.version + 1)).block i =
      ((if i ∈ db.pages.dirty.elems then db.pages.block i else none)).getD
        ((server.imageAt db.remote.version).block i) := by
  rw [h.image]
  simp only [Image.store, if_pos hi, dirtyBlocks]
  rw [find_dirty]

-- The copy before the acknowledged blocks are written to it.
def Awaits (db published : Database Net) (disk : Disk) : Prop :=
  published.trusted disk ∧ ∀ i data, i < db.pages.pageCount → i ∉ db.pages.dirtyBlocks.map Prod.fst →
    disk.holds i = some data → data = published.image.block i

theorem mem_sent {pages : Pages} {i : Nat} (hi : i ∈ pages.dirty.elems) {data : Bytes}
    (hdata : pages.block i = some data) : i ∈ pages.dirtyBlocks.map Prod.fst :=
  List.mem_map.mpr ⟨(i, data), List.mem_filterMap.mpr ⟨i, hi, by simp [hdata]⟩, rfl⟩

-- A block that is not sent stays as it is on the server.
theorem Committed.block_of_not_sent {commitId : Bytes} {server : Server} (h : Committed db commitId server)
    {i : Nat} (hi : i < db.pages.pageCount) (hsent : i ∉ db.pages.dirtyBlocks.map Prod.fst) :
    (server.imageAt (db.remote.version + 1)).block i = (server.imageAt db.remote.version).block i := by
  rw [h.block hi]
  split_ifs with hdirty
  · cases hdata : db.pages.block i with
    | none => rfl
    | some data => exact absurd (mem_sent hdirty hdata) hsent
  · rfl

-- The database right after the acknowledgement.
structure Publishes (db : Database Net) (commitId : Bytes) (published : Database Net) : Prop where
  committed : Committed db commitId published.world.server
  version : published.remote.version = db.remote.version + 1
  reached : published.remote.version ≤ published.world.server.version
  pages : published.pages = db.pages.committed.2
  subject : published.remote.subject = db.remote.subject
  dbId : published.remote.dbId = db.remote.dbId
  copy : published.remote.copy = db.remote.copy
  disk : published.world.disk = db.world.disk
  ext : db.world.server.Extends published.world.server

theorem Acknowledged.publishes {k : Nat} {mid : Database Net} (hack : Acknowledged setup db k mid after)
    (parts time : Nat) : Publishes db (db.world.ids k)
      (published parts time (db.world.ids k) (db.remote.version + 1) mid) := by
  obtain ⟨login, broken, pending, hremote⟩ := hack.remote
  have hcommitted := hack.committed mid.world _ hack.ready.wf (Net.Later.refl _) fun _ h => h
  obtain ⟨parts, honce, -⟩ := hcommitted.once
  refine ⟨hcommitted, rfl, (List.getElem?_eq_some_iff.mp honce.applied).1,
    congrArg (·.committed.2) hack.pages, ?_, ?_, ?_, hack.disk, hack.later.ext⟩
  · change mid.remote.subject = _
    rw [hremote]
  · change mid.remote.dbId = _
    rw [hremote]
  · change mid.remote.copy = _
    rw [hremote]

namespace Publishes

variable {commitId : Bytes} {published : Database Net} {disk : Disk}

theorem stable (h : Publishes db commitId published) :
    published.pages.stablePageCount = db.pages.pageCount := by
  rw [h.pages]
  rfl

theorem pageCount (h : Publishes db commitId published) :
    published.image.pageCount = db.pages.pageCount := by
  have himage := h.committed.image
  rw [← h.version] at himage
  exact congrArg Image.pageCount himage

theorem awaits (h : Publishes db commitId published)
    (hversion : db.remote.version ≤ db.world.server.version)
    (hstable : db.pages.stablePageCount = db.image.pageCount) (hdisk : db.coherent disk)
    (hgapless : Gapless db.pages disk) : Awaits db published disk := by
  have htrusted : published.trusted disk := by
    unfold trusted
    rw [h.subject, h.dbId]
    exact hdisk.1.extend h.ext
  refine ⟨htrusted, fun i data hi hsent hheld => ?_⟩
  by_cases hold : i < db.pages.stablePageCount
  · have hblock := h.committed.block_of_not_sent hi hsent
    rw [← h.version, h.ext.imageAt hversion] at hblock
    rw [hdisk.2 i data (hstable ▸ hold) hheld]
    exact hblock.symm
  · rw [hgapless i (by omega) hi hsent] at hheld
    cases hheld

-- Writing the sent blocks brings the copy to the new version.
theorem coherent_write (h : Publishes db commitId published) (hdisk : Awaits db published disk) :
    published.coherent (disk.write (published.remote.copyHead published.pages)
      (db.pages.dirty.elems.filterMap fun index => (published.pages.block index).map (index, ·))) := by
  have hblocks : (db.pages.dirty.elems.filterMap fun index =>
      (published.pages.block index).map (index, ·)) = db.pages.dirtyBlocks := by
    rw [h.pages]
    rfl
  rw [hblocks]
  refine Database.coherent_write h.reached (fun entry hentry hi => ?_) fun i data hi hsent hheld => ?_
  · obtain ⟨hdirty, hdata⟩ := Remote.mem_held hentry
    have hblock := h.committed.block (h.stable ▸ hi)
    rw [if_pos hdirty, hdata, ← h.version] at hblock
    exact hblock.symm
  · exact hdisk.2 i data (h.stable ▸ hi) hsent hheld

-- Without a block to send, the copy is the one of the new version already.
theorem coherent_skip (h : Publishes db commitId published) (hdisk : Awaits db published disk)
    (hnone : db.pages.dirty.elems = []) : published.coherent disk := by
  refine ⟨hdisk.1, fun i data hi hheld => hdisk.2 i data (h.pageCount ▸ hi) ?_ hheld⟩
  simp [dirtyBlocks, hnone]

end Publishes

theorem Acknowledged.cached {k : Nat} {mid : Database Net} (hack : Acknowledged setup db k mid after)
    (h : Cached setup db)
    (hgapless : Remote.CopyHolds setup (fun _ => True) (Gapless db.pages) db) : Cached setup after := by
  obtain ⟨parts, time, hdone⟩ := hack.done
  have hpublishes := hack.publishes setup parts time
  have hloads := commitDone_loads setup parts time (db.world.ids k) (db.remote.version + 1) hack.ready
  rw [hdone] at hloads
  rw [commitDone_eq] at hdone
  have hdirty : mid.pages.dirty.elems = db.pages.dirty.elems := by rw [hack.pages]
  rw [hdirty] at hdone
  generalize Database.published parts time (db.world.ids k) (db.remote.version + 1) mid = published
    at hdone hloads hpublishes
  have hawaits : Remote.CopyHolds setup published.trusted (Awaits db published) published := by
    rw [Remote.CopyHolds, hpublishes.copy, hpublishes.disk]
    refine (h.copy.and hgapless).imp (fun disk hdisk => ?_)
      fun disk hdisk => hpublishes.awaits h.version h.stable hdisk.1 hdisk.2
    unfold trusted
    rw [hpublishes.subject, hpublishes.dbId]
    exact hdisk.extend hpublishes.ext
  have hwrite := Remote.writeCopy_spec (ε := Broken) setup
    (⟨fun _ h => h.1, (allows_coherent published).interrupted⟩ :
      Disk.Allows published.trusted (Awaits db published)) (allows_coherent published)
    (coherent_empty published) db.pages.dirty.elems
    (fun hnone disk hdisk => hpublishes.coherent_skip hdisk hnone)
    (fun disk hdisk => hpublishes.coherent_write hdisk) published ⟨rfl, rfl, hawaits⟩
  rw [bind_apply] at hdone
  generalize Remote.writeCopy (Net.env setup) db.pages.dirty.elems published = run at hdone hwrite
  rcases run with ⟨_ | _ | _, last⟩
  · obtain ⟨hlast, hholds⟩ := hwrite
    change last.pages = published.pages at hlast
    cases hdone
    refine Cached.later hpublishes.reached ?_ hloads.link.ready hloads.link.later hloads.sameVersion hholds
    have hroom : Reloads published.image.block last.pages (last.pages.makeRoom 0 last.stats).1 :=
      Reloads.makeRoom _ _ _
    rw [hpublishes.pageCount, ← hpublishes.stable, ← hlast]
    exact hroom.stable
  · exact hwrite.elim
  · exact hwrite.elim

theorem cached_halted (h : Cached setup db) (hhalted : Halted db after) : Cached setup after := by
  obtain ⟨login, broken, pending, hremote⟩ := hhalted.remote
  refine Cached.later h.version ?_ hhalted.ready hhalted.later ?_ ?_
  · rw [hhalted.pages, h.stable]
  · constructor <;> rw [hremote]
  · rw [Remote.CopyHolds, hremote, hhalted.disk]
    exact h.copy

-- A commit that was acknowledged returns.
theorem commitDone_returns {K F : Disk → Prop} {mid : Database Net} (h : Remote.CopyHolds setup K F mid)
    (parts time : Nat) (commitId : Bytes) (version : Nat) :
    (commitDone (Net.env setup) parts time commitId version mid).1 = .ok () := by
  have hany : Disk.Allows (fun _ => True) fun _ => True := ⟨fun _ h => h, fun _ _ _ => trivial⟩
  have hholds : Remote.CopyHolds setup (fun _ => True) (fun _ => True)
      (published parts time commitId version mid) :=
    h.imp (fun _ _ => trivial) fun _ _ => trivial
  have hwrite := Remote.writeCopy_spec (ε := Broken) setup hany hany trivial mid.pages.dirty.elems
    (fun _ _ _ => trivial) (fun _ _ => trivial) _ ⟨rfl, rfl, hholds⟩
  rw [commitDone_eq, bind_apply]
  generalize Remote.writeCopy (Net.env setup) mid.pages.dirty.elems
    (published parts time commitId version mid) = run at hwrite ⊢
  rcases run with ⟨_ | _ | _, last⟩
  · rfl
  · exact hwrite.elim
  · exact hwrite.elim

theorem cached_commit (h : Cached setup db) (timeout : Nat)
    (hgapless : Remote.CopyHolds setup (fun _ => True) (Gapless db.pages) db) :
    Cached setup (Database.commit (Net.env setup) timeout db).2 := by
  rcases commit_cases setup timeout h.ready with ⟨-, -, heq⟩ | ⟨-, hhalted⟩ |
    ⟨-, commitId, parts, begun, version, time, mid, hbegun, hwaits, -, heq⟩
  · rw [heq]
    exact h
  · exact cached_halted setup h hhalted
  · have hmid := cached_halted setup h (hbegun.halted hwaits)
    have hreturns := commitDone_returns setup hmid.copy parts.length time commitId version
    rw [← heq] at hreturns
    obtain ⟨-, -, hsame⟩ | ⟨k, mid, hack⟩ :=
      commit_acknowledged setup h.ready timeout (Prod.ext hreturns rfl)
    · exact (congrArg (Cached setup) hsame).mpr h
    · exact hack.cached setup h hgapless

-- The operations of a session without `heal`. A commit leaves no gap that the copy fills.
def Admits (db : Database Net) : Op → Prop
  | .Heal => False
  | .Commit _ => Remote.CopyHolds setup (fun _ => True) (Gapless db.pages) db
  | _ => True

theorem cached_step (h : Cached setup db) {op : Op} (hop : Admits setup db op) :
    Cached setup (op.run (Net.env setup) db) := by
  cases op with
  | Read offset length =>
      exact unlessBroken_moves (R := KeepsCached setup) (read_respects (respects_cached setup) offset length) db h
  | Write offset data =>
      exact unlessBroken_moves (R := KeepsCached setup) (write_respects (respects_cached setup) offset data) db h
  | Truncate size =>
      refine unlessBroken_moves (R := KeepsCached setup) (fun db h => ?_) db h
      exact ⟨h.ready, h.version, (shape_truncate _ _).stable.trans h.stable, h.copy⟩
  | Commit timeout => exact cached_commit setup h timeout hop
  | Heal => exact hop.elim
  | Label label =>
      have hkept := label_moved (P := NoCommit) (D := Eq) setup label db.source.link h.ready
      have hdisk : db.world.disk = ((Op.Label label).run (Net.env setup) db).world.disk := hkept.disk
      refine Cached.later h.version h.stable hkept.ready hkept.later ⟨rfl, rfl, rfl⟩ ?_
      change db.remote.copy.Holds _ _ _ _
      rw [← hdisk]
      exact h.copy

-- Opened with a local copy whose blocks are those of its version, if it is one of this
-- database and not left over from an interrupted write.
structure OpenedCoherent (options : OpenOptions) (db : Database Net) : Prop where
  fresh : ∃ config started dbId net, net.Fresh ∧
    net.disk.Trusted net.server options.subject dbId ∧
    opened (Net.env setup) config started dbId options net = some db

theorem OpenedCoherent.opened {options : OpenOptions} (h : OpenedCoherent setup options db) :
    Opened setup options db := by
  obtain ⟨config, started, dbId, net, hfresh, -, hopened⟩ := h.fresh
  exact ⟨⟨config, started, dbId, net, hfresh, hopened⟩⟩

-- What is opened, before its blocks are loaded.
theorem OpenedCoherent.filled {options : OpenOptions} (h : OpenedCoherent setup options db) :
    ∃ start : Database Net, Remote.Fillable setup start ∧
      start.pages = .new start.image.pageSize start.image.pageCount options.blocksPerFetch options.cap ∧
      Remote.fill (Net.env setup) start = (.ok (), db) := by
  obtain ⟨config, started, dbId, net, hfresh, htrusted, hopened⟩ := h.fresh
  obtain ⟨opened, link, hkept, hat, hchecked, hfill⟩ := opened_ok setup hfresh hopened
  have hready := hkept.ready
  have hdisk : link.world.disk = net.disk := hkept.disk.symm
  set start : Database Net :=
    ⟨.new opened.pageSize opened.pageCount options.blocksPerFetch options.cap, {},
      ⟨openedRemote dbId options opened link.client.logins, link⟩⟩ with hstart
  have hsound : Sound start.image.block start.pages :=
    Sound.new (checked_size hchecked).1 fun i => by
      rw [hat.pageSize]
      exact hready.wf.sized opened.version i
  have hstartDisk : start.trusted start.world.disk := by
    change link.world.disk.Trusted _ _ _
    rw [hdisk]
    exact htrusted.extend hkept.later.ext
  refine ⟨start, ?_, ?_, hfill⟩
  · refine ⟨hready, hat.reached, hat.pageCount, hat.pageCount, ⟨hsound, rfl, rfl, SameShape.refl _⟩,
      checked_count hchecked, ?_⟩
    change (if options.hasLocal then LocalCopy.Ready else .None).Holds _ _ _ _
    split_ifs with hlocal
    · refine ⟨hstartDisk, fun hne => absurd ?_ hne⟩
      change (if options.hasLocal then LocalCopy.Ready else .None) = _
      rw [if_pos hlocal]
    · exact hstartDisk
  · rw [show start.image.pageSize = opened.pageSize from hat.pageSize.symm,
      show start.image.pageCount = opened.pageCount from hat.pageCount.symm]

theorem OpenedCoherent.cached {options : OpenOptions} (h : OpenedCoherent setup options db) :
    Cached setup db := by
  obtain ⟨start, hfillable, -, hfill⟩ := h.filled
  obtain ⟨hstock, -⟩ := Remote.fill_stock hfillable hfill
  exact Cached.later hfillable.version (hstock.pages.shape.stable.trans hfillable.stable)
    hstock.loads.link.ready hstock.loads.link.later hstock.loads.sameVersion hstock.copy

theorem Reached.cached {options : OpenOptions}
    (h : Reached setup (OpenedCoherent setup options) (Admits setup) db) : Cached setup db := by
  induction h with
  | Open h => exact h.cached setup
  | Step op _ hop ih => exact cached_step setup ih hop

-- The disk now, or after the thread has done some of its jobs, whichever of them fail.
def Soon (db : Database Net) (disk : Disk) : Prop :=
  disk = db.world.disk ∨ ∃ writer count turns, db.remote.copy = .Writing writer ∧
    disk = ((Background.advance (Net.env setup) count writer : Prog Net String Background)
      { db.world with turns := turns }).2.disk

theorem Cached.soon (h : Cached setup db) {disk : Disk} (hsoon : Soon setup db disk) : db.trusted disk := by
  rcases hsoon with rfl | ⟨writer, count, turns, hcopy, rfl⟩
  · exact h.copy.always (allows_coherent db)
  · have hholds := h.copy
    rw [Remote.CopyHolds, hcopy] at hholds
    have hadvance := Background.advance_spec (ε := String) setup (allows_coherent db) count writer
      { db.world with turns := turns } hholds.2
    generalize Background.advance (Net.env setup) count writer { db.world with turns := turns } = run
      at hadvance ⊢
    rcases run with ⟨last | _ | _, net⟩
    · exact hadvance.2.always (allows_coherent db)
    · exact hadvance.elim
    · exact hadvance.elim

theorem Cached.read (h : Cached setup db) {turns : Nat → Turn} {first count : Nat} {read : List Bytes}
    {copy : LocalCopy} {net : Net}
    (hread : db.remote.copy.read (Net.env setup) first count { db.world with turns := turns } =
      (.ok (read, copy), net)) {k : Nat} {data : Bytes} (hk : read[k]? = some data)
    (hbelow : first + k < db.pages.stablePageCount) : data = db.image.block (first + k) := by
  have hspec := LocalCopy.read_spec setup (allows_coherent db) first count db.remote.copy
    { db.world with turns := turns } h.copy
  rw [hread] at hspec
  obtain ⟨disk, hdisk, hheld⟩ := hspec.2.2 k data hk
  exact hdisk.2 _ data (h.stable ▸ hbelow) hheld

-- In every state of a session: what the copy returns below the committed page count is the
-- server's block at the client's version, and a copy with a trusted head is exact at the
-- version of the head.
theorem copy_stays_coherent {options : OpenOptions}
    (h : Reached setup (OpenedCoherent setup options) (Admits setup) db) :
    db.remote.version ≤ db.world.server.version ∧
      (∀ turns first count read copy net,
        db.remote.copy.read (Net.env setup) first count { db.world with turns := turns } =
          (.ok (read, copy), net) →
        ∀ k data, read[k]? = some data → first + k < db.pages.stablePageCount →
          data = (db.world.server.imageAt db.remote.version).block (first + k)) ∧
      ∀ disk, Soon setup db disk →
        disk.Trusted db.world.server db.remote.subject db.remote.dbId := by
  have hcached := h.cached setup
  refine ⟨hcached.version, ?_, fun disk hsoon => Cached.soon setup hcached hsoon⟩
  intro turns first count read copy net hread k data hk hbelow
  exact Cached.read setup hcached hread hk hbelow

def cachedOptions : OpenOptions := { sampleOptions with hasLocal := true }

theorem calm_coherent {first : Database Net}
    (h : opened (Net.env sampleSetup) sampleConfig 0 "db" cachedOptions (emptyNet calm) = some first) :
    OpenedCoherent sampleSetup cachedOptions first :=
  ⟨⟨sampleConfig, 0, "db", _, calm_fresh, Disk.trusted_empty _ _ _, h⟩⟩

-- One block is committed, so its write is queued.
theorem copy_stays_coherent_one_block :
    ∃ db data copy net, Reached sampleSetup (OpenedCoherent sampleSetup cachedOptions)
        (Admits sampleSetup) db ∧ db.remote.version = 1 ∧
      db.remote.copy.read (Net.env sampleSetup) 0 1 db.world = (.ok ([data], copy), net) ∧
      data = (db.world.server.imageAt 1).block 0 := by
  have hfacts : (sample calm cachedOptions [.Write 0 [1]]).any (fun db =>
      let after := (Op.Commit 0).run (Net.env sampleSetup) db
      let run := after.remote.copy.read (Net.env sampleSetup) 0 1 after.world
      decide (db.remote.copy = .Ready ∧ db.world.disk.header = none ∧ after.remote.version = 1 ∧
        after.pages.stablePageCount = 1) &&
        run.1.any fun read => decide (read.1.length = 1)) = true := by decide +kernel
  obtain ⟨first, hfirst, hfacts⟩ := (Option.any_eq_true _ _).mp hfacts
  dsimp only at hfacts
  rw [Bool.and_eq_true, decide_eq_true_eq] at hfacts
  obtain ⟨⟨hcopy, hheader, hversion, hstable⟩, hread⟩ := hfacts
  have hreached : Reached sampleSetup (OpenedCoherent sampleSetup cachedOptions) (Admits sampleSetup) first :=
    sample_run (fun _ h => calm_coherent h) (fun _ op hop => by
      rw [List.mem_singleton.mp hop]
      trivial) hfirst
  have hadmits : Admits sampleSetup first (.Commit 0) := by
    change first.remote.copy.Holds _ _ _ _
    rw [hcopy]
    intro i _ _ _
    rw [Disk.holds, hheader]
  have hafter := hreached.Step (.Commit 0) hadmits
  generalize (Op.Commit 0).run (Net.env sampleSetup) first = db at hafter hversion hstable hread
  obtain ⟨-, hblocks, -⟩ := copy_stays_coherent sampleSetup hafter
  obtain ⟨⟨read, copy⟩, hvalue, hlength⟩ := Outcome.of_any hread
  rw [decide_eq_true_eq] at hlength
  obtain ⟨data, rfl⟩ := List.length_eq_one_iff.mp hlength
  have hrun : db.remote.copy.read (Net.env sampleSetup) 0 1 db.world = (.ok ([data], copy), _) :=
    Prod.ext hvalue rfl
  have hblock := hblocks db.world.turns 0 1 _ _ _ hrun 0 data rfl (by omega)
  rw [hversion] at hblock
  exact ⟨db, data, copy, _, hafter, hversion, hrun, hblock⟩

-- A block is cut off by a commit that changes only the size, and exposed again by a commit
-- that does not send it: the copy still has the old content.
theorem regrown_block_stays_in_copy :
    ∃ db data copy net, Reached sampleSetup (OpenedCoherent sampleSetup cachedOptions)
        (fun _ op => op ≠ .Heal) db ∧
      db.remote.copy.read (Net.env sampleSetup) 1 1 db.world = (.ok ([data], copy), net) ∧
      1 < db.pages.stablePageCount ∧
      data ≠ (db.world.server.imageAt db.remote.version).block 1 := by
  have hfacts : (sample calm cachedOptions [.Write 0 (List.replicate 1024 7), .Commit 0,
      .Truncate 512, .Commit 0, .Write 1024 [1], .Commit 0]).any (fun db =>
      decide (1 < db.pages.stablePageCount ∧
        (db.world.server.imageAt db.remote.version).block 1 ≠ List.replicate 512 7) &&
        (db.remote.copy.read (Net.env sampleSetup) 1 1 db.world).1.any fun read =>
          decide (read.1 = [List.replicate 512 7])) = true := by decide +kernel
  obtain ⟨db, hdb, hfacts⟩ := (Option.any_eq_true _ _).mp hfacts
  rw [Bool.and_eq_true, decide_eq_true_eq] at hfacts
  obtain ⟨⟨hstable, hserver⟩, hread⟩ := hfacts
  have hreached : Reached sampleSetup (OpenedCoherent sampleSetup cachedOptions)
      (fun _ op => op ≠ .Heal) db :=
    sample_run (fun _ h => calm_coherent h) (fun _ op hop => by
      rintro rfl
      simp only [List.mem_cons, reduceCtorEq, List.not_mem_nil, or_self] at hop) hdb
  obtain ⟨⟨read, copy⟩, hvalue, hbytes⟩ := Outcome.of_any hread
  rw [decide_eq_true_eq] at hbytes
  obtain rfl : read = [List.replicate 512 7] := hbytes
  exact ⟨db, _, copy, _, hreached, Prod.ext hvalue rfl, hstable, hserver.symm⟩

end RemoteVfs.Session
