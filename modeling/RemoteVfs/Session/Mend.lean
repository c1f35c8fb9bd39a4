import RemoteVfs.Session.Cache

namespace RemoteVfs

open Base Base.Prog Link Pages Database

namespace Fetch

variable {setup : Net.Setup} {base : Database Net}

-- The source of a database with a local copy while blocks are loaded.
def Backs (setup : Net.Setup) (base : Database Net) (source : Fetch Net) : Prop :=
  Loads NoCommit base { base with source := source } ∧ Cached setup { base with source := source }

theorem backs_refl (h : Cached setup base) : Backs setup base base.source :=
  ⟨.of_remote (Kept.refl h.ready) rfl (SameShape.refl _), h⟩

-- Below the committed page count a missing block is the server's at the client's version,
-- whether it comes from the copy or from the server.
theorem serves_copy (hbase : Cached setup base) :
    (source (Net.env setup)).ServesIn base.image.block
      (fun pages => pages.stablePageCount = base.pages.stablePageCount ∧
        pages.pageCount ≤ base.image.pageCount) (Backs setup base) fun _ => True := by
  rintro before first count hs ⟨hstable, hcount⟩ hasks (db : Database Net) ⟨⟨hloads, hcached⟩, rfl⟩
  have hdb : Cached setup db :=
    ⟨hcached.ready, hcached.version, hstable.trans hcached.stable, hcached.copy⟩
  have himage : db.image = base.image :=
    image_later hbase.version hloads.link.later.ext hloads.sameVersion.version
  have hfilled := fill_loaded (P := NoCommit) setup first count db hdb.ready
  have hrefilled := fill_refilled setup hdb hasks
  have hafter := Session.cached_fill setup hdb hasks
  have hbelow : first + count ≤ db.image.pageCount := by
    rw [himage]
    exact hasks.below.trans hcount
  obtain ⟨hreloads, hmeets⟩ := hrefilled.reloads hbelow
  simp only [source]
  generalize fill (Net.env setup) first count db = run at *
  obtain ⟨result, after⟩ := run
  rw [himage] at hreloads
  refine ⟨⟨hloads.trans ⟨hfilled.link, hfilled.remote, hfilled.broken, SameShape.refl _⟩, hafter.ready,
    hafter.version, ?_, hafter.copy⟩, hreloads, ?_⟩
  · exact hstable.symm.trans (hrefilled.stable.symm.trans hafter.stable)
  · cases result with
    | ok value => exact Or.inl hmeets
    | err reason => trivial
    | hang => trivial

end Fetch

namespace Session

variable (setup : Net.Setup) {db after : Database Net}

-- The options that the pages keep as long as the database is open.
structure Configured (options : OpenOptions) (db : Database Net) : Prop where
  perFetch : db.pages.blocksPerFetch = options.blocksPerFetch
  cap : db.pages.cap = options.cap

variable {options : OpenOptions}

theorem Configured.of_shape (h : Configured options db) (hshape : SameShape db.pages after.pages) :
    Configured options after :=
  ⟨hshape.perFetch.trans h.perFetch, hshape.cap.trans h.cap⟩

theorem Configured.moves {ε α : Type} {body : Prog (Database Net) ε α}
    (hbody : Moves (Loaded NoCommit) body) (h : Configured options db) (hlive : Live db) :
    Configured options (body db).2 :=
  h.of_shape (hbody db hlive.ready).shape

theorem Configured.commit (h : Configured options db) (hlive : Live db) (timeout : Nat) :
    Configured options (Database.commit (Net.env setup) timeout db).2 := by
  rcases commit_cases setup timeout hlive.ready with ⟨-, -, heq⟩ | ⟨-, hhalted⟩ |
    ⟨-, commitId, parts, begun, version, time, mid, hbegun, hwaits, -, heq⟩
  · rw [heq]
    exact h
  · exact ⟨by rw [hhalted.pages]; exact h.perFetch, by rw [hhalted.pages]; exact h.cap⟩
  · rw [heq]
    have hpages := (hbegun.halted hwaits).pages
    have hpublished : Configured options (published parts.length time commitId version mid) := by
      refine ⟨?_, ?_⟩
      · change mid.pages.blocksPerFetch = _
        rw [hpages]
        exact h.perFetch
      · change mid.pages.cap = _
        rw [hpages]
        exact h.cap
    exact hpublished.of_shape (commitDone_loads setup _ _ _ _ hwaits.link.ready.noCommit).shape

theorem Configured.heal (h : Configured options db) (hlive : Live db) :
    Configured options (Database.heal (Net.env setup) db).2 := by
  have hwaits : ∀ {after : Database Net}, Waits NoCommit Eq db after → Configured options after :=
    fun hwaits => h.of_shape (hwaits.pages ▸ SameShape.refl _)
  rcases heal_cases setup hlive.ready with
    ⟨-, -, -, hafter⟩ | ⟨opened, mid, hmid, -, ⟨-, -, -, -, -, hafter⟩ | ⟨-, -, heq⟩⟩
  · exact hwaits hafter
  · exact hwaits hafter
  · have hconfigured : Configured options mid := hwaits hmid
    have hrestarted : Configured options (restarted opened mid) :=
      ⟨hconfigured.perFetch, hconfigured.cap⟩
    have hfill := Remote.fill_loaded (P := NoCommit) setup (restarted opened mid) hmid.link.ready
    rw [heq, reload_eq]
    generalize Remote.fill (Net.env setup) (restarted opened mid) = run at hfill ⊢
    rcases run with ⟨_ | err | _, db'⟩
    · exact hrestarted.of_shape hfill.shape
    · exact ⟨hconfigured.perFetch, hconfigured.cap⟩
    · exact hrestarted.of_shape hfill.shape

theorem Configured.step (h : Configured options db) (hlive : Live db) (op : Op) :
    Configured options (op.run (Net.env setup) db) := by
  cases op with
  | Read offset length => exact h.moves (read_loaded setup offset length) hlive
  | Write offset data => exact h.moves (write_loaded setup offset data) hlive
  | Truncate size => exact h.moves (truncate_loaded size) hlive
  | Commit timeout => exact h.commit setup hlive timeout
  | Heal =>
      simp only [Op.run]
      split_ifs
      · exact h.heal setup hlive
      · exact h
  | Label label => exact h.moves (onLink_loaded (label_moved setup label)) hlive

theorem Reached.configured {admitted : Database Net → Op → Prop}
    (h : Reached setup (Opened setup options) admitted db) : Configured options db := by
  induction h with
  | Open h =>
      obtain ⟨dbId, opened, link, hready, -, -, hfill⟩ := h.cases
      have hloads := Remote.fill_loaded (P := NoCommit) setup
        ⟨.new opened.pageSize opened.pageCount options.blocksPerFetch options.cap, {},
          ⟨openedRemote dbId options opened link.client.logins, link⟩⟩ hready
      rw [hfill] at hloads
      exact ⟨hloads.shape.perFetch, hloads.shape.cap⟩
  | Step op h _ ih => exact ih.step setup (h.live setup) op

-- A database that nothing has been written to since it was healed.
structure Mended (db : Database Net) : Prop where
  cached : Cached setup db
  sound : Sound db.image.block db.pages
  count : db.pages.pageCount = db.image.pageCount
  file : db.pages.file db.image.block = db.image.file

-- A read returns the file of the client's version, and so do those after it.
theorem Mended.read (h : Mended setup db) (offset length : Nat) :
    Mended setup (Database.read (Net.env setup) offset length db).2 ∧
      (Database.read (Net.env setup) offset length db).1.Meets (fun _ => True)
        fun value => Fetches db.pages.blocksPerFetch → value = db.image.file.read offset length := by
  unfold Database.read unlessBroken
  rw [get_bind]
  cases hbroken : db.remote.broken with
  | some broken => exact ⟨h, trivial⟩
  | none =>
      obtain ⟨⟨⟨hloads, hcached⟩, hreloads⟩, hvalue⟩ := read_spec (Fetch.serves_copy h.cached)
        (fun _ _ hr hA => ⟨hr.stable.trans hA.1, hr.pageCount.trans_le hA.2⟩) h.sound
        ⟨rfl, h.count.le⟩ offset length db ⟨Fetch.backs_refl h.cached, Reloads.refl _⟩
      dsimp only
      generalize Pages.read (Fetch.source (Net.env setup)) offset length db = run at *
      obtain ⟨result, (after : Database Net)⟩ := run
      have himage : after.image = db.image :=
        image_later h.cached.version hloads.link.later.ext hloads.sameVersion.version
      rw [h.file] at hvalue
      refine ⟨⟨⟨hcached.ready, hcached.version, hreloads.stable.trans hcached.stable, hcached.copy⟩,
        ?_, ?_, ?_⟩, hvalue⟩
      · exact himage ▸ h.sound.reloads hreloads
      · exact (hreloads.pageCount.trans h.count).trans (congrArg Image.pageCount himage.symm)
      · rw [himage, ← h.file]
        exact file_reloads h.sound hreloads

theorem Mended.label (h : Mended setup db) (label : String) :
    Mended setup ((Op.Label label).run (Net.env setup) db) := by
  have hkept := label_moved (P := NoCommit) (D := Eq) setup label db.source.link h.cached.ready
  have himage : ((Op.Label label).run (Net.env setup) db).image = db.image :=
    image_later h.cached.version hkept.later.ext rfl
  refine ⟨cached_step setup h.cached trivial, ?_, ?_, ?_⟩
  · rw [himage]
    exact h.sound
  · rw [himage]
    exact h.count
  · rw [himage]
    exact h.file

-- Nothing is written and nothing is healed again.
def Reads (_ : Database Net) : Op → Prop
  | .Read _ _ | .Label _ => True
  | _ => False

theorem Mended.step (h : Mended setup db) {op : Op} (hop : Reads db op) :
    Mended setup (op.run (Net.env setup) db) ∧
      (op.run (Net.env setup) db).remote.version = db.remote.version ∧
      (op.run (Net.env setup) db).pages.blocksPerFetch = db.pages.blocksPerFetch := by
  cases op with
  | Read offset length =>
      have hloaded := read_loaded setup offset length db h.cached.ready
      exact ⟨(h.read setup offset length).1, hloaded.sameVersion.version, hloaded.shape.perFetch⟩
  | Label label => exact ⟨h.label setup label, rfl, rfl⟩
  | _ => exact hop.elim

theorem Mended.reads (h : Mended setup after) {now : Database Net}
    (hnow : Reached setup (· = after) Reads now) :
    Mended setup now ∧ now.remote.version = after.remote.version ∧
      now.pages.blocksPerFetch = after.pages.blocksPerFetch := by
  induction hnow with
  | Open heq =>
      subst heq
      exact ⟨h, rfl, rfl⟩
  | Step op _ hop ih =>
      obtain ⟨hmended, hversion, hperFetch⟩ := ih.1.step setup hop
      exact ⟨hmended, hversion.trans ih.2.1, hperFetch.trans ih.2.2⟩

-- In OnDemand mode a copy that the thread writes is not looked at by `heal`. If the server
-- has the pending commit, the copy holds no block that the commit changed.
def Spared (db after : Database Net) : Prop :=
  db.pages.onDemand = true → ∀ writer entry, db.remote.copy = .Writing writer →
    after.world.server.log[db.remote.version]? = some entry →
    db.remote.pendingCommit = some entry.commitId →
    Remote.CopyHolds setup (fun _ => True)
      (Disk.Coherent (after.world.server.imageAt (db.remote.version + 1))) db

theorem entry_of_applied {opened : Pb.Opened} {server : Server} {stamp : Nat}
    (hat : server.OpenedAt stamp opened) (happlied : db.wasApplied opened = true) :
    opened.version = db.remote.version + 1 ∧ ∃ entry,
      server.log[db.remote.version]? = some entry ∧ db.remote.pendingCommit = some entry.commitId := by
  simp only [wasApplied, Bool.and_eq_true, beq_iff_eq] at happlied
  obtain ⟨hversion, hpending⟩ := happlied
  have hlt : db.remote.version < server.log.length := by
    have hreached : opened.version ≤ server.log.length := hat.reached
    omega
  refine ⟨hversion, server.log[db.remote.version], List.getElem?_eq_getElem hlt, ?_⟩
  rw [hpending, hat.commitId, hversion, Server.lastCommitId]
  simp [List.getLast?_take, hlt]

-- What the copy has to be when the blocks of the server's answer are loaded.
theorem restarted_copy {opened : Pb.Opened} {mid : Database Net}
    (hlive : Live db) (hcopy : Remote.CopyHolds setup db.trusted db.coherent db)
    (hmid : Waits NoCommit Eq db mid) (hresumed : Remote.Resumed db opened mid.source.link)
    (haccepted : opened.version = db.remote.version ∨ db.wasApplied opened = true)
    (hext : mid.world.server.Extends after.world.server)
    (hspared : opened.version ≠ db.remote.version → Spared setup db after) :
    Remote.CopyHolds setup (restarted opened mid).trusted (fun disk =>
      (restarted opened mid).trusted disk ∧ ((restarted opened mid).remote.copy ≠ .Ready →
        (restarted opened mid).pages.onDemand = true → disk.Coherent (restarted opened mid).image))
      (restarted opened mid) := by
  obtain ⟨login, broken, hremote⟩ := hmid.remote
  have htrusted : ∀ disk, db.trusted disk → (restarted opened mid).trusted disk := by
    intro disk hdisk
    change disk.Trusted _ mid.remote.subject mid.remote.dbId
    rw [hremote]
    exact hdisk.extend hmid.link.later.ext
  have hcopyMid : Remote.CopyHolds setup db.trusted db.coherent mid := copyHolds_waits hcopy hmid
  have hsame : mid.remote.copy = db.remote.copy := by rw [hremote]
  change mid.remote.copy.Holds setup.native _ (fun disk => _ ∧ (mid.remote.copy ≠ .Ready →
    mid.pages.onDemand = true → _)) mid.world.disk
  rw [Remote.CopyHolds, hsame] at hcopyMid
  rw [hsame]
  rcases haccepted with hversion | happlied
  · have himage : (restarted opened mid).image = db.image :=
      image_later hlive.version hmid.link.later.ext hversion
    rw [himage]
    exact hcopyMid.imp htrusted fun disk hdisk => ⟨htrusted disk hdisk.1, fun _ _ => hdisk.2⟩
  · obtain ⟨hversion, entry, hentry, hpending⟩ := entry_of_applied hresumed.1 happlied
    cases hdb : db.remote.copy with
    | None =>
        rw [hdb] at hcopyMid
        exact htrusted _ hcopyMid
    | Ready =>
        rw [hdb] at hcopyMid
        exact ⟨htrusted _ hcopyMid.1, fun hne => absurd rfl hne⟩
    | Writing writer =>
        rw [← hdb]
        by_cases hdemand : mid.pages.onDemand = true
        · have hcoherent := copyHolds_waits (hspared (by omega) (hmid.pages ▸ hdemand) writer entry hdb
            (hext.getElem? hentry) hpending) hmid
          have himage : after.world.server.imageAt (db.remote.version + 1) =
              (restarted opened mid).image := by
            rw [← hversion]
            exact hext.imageAt hresumed.1.reached
          rw [Remote.CopyHolds, hsame, himage] at hcoherent
          exact (hcopyMid.and hcoherent).imp htrusted fun disk hdisk =>
            ⟨htrusted disk hdisk.1.1, fun _ _ => hdisk.2⟩
        · exact hcopyMid.imp htrusted fun disk hdisk =>
            ⟨htrusted disk hdisk.1, fun _ h => absurd h hdemand⟩

-- The blocks that `heal` has loaded are those of the server's answer.
theorem mended_of_stock {start : Database Net} (hfillable : Remote.Fillable setup start)
    (hstock : Remote.Restocked setup start after)
    (hall : start.pages.whole = true → Remote.Until start.pages.pageCount after) : Mended setup after := by
  have hcached : Cached setup after := Cached.later hfillable.version
    (hstock.pages.shape.stable.trans hfillable.stable) hstock.loads.link.ready
    hstock.loads.link.later hstock.loads.sameVersion hstock.copy
  have himage : after.image = start.image :=
    image_later hfillable.version hstock.loads.link.later.ext hstock.loads.sameVersion.version
  have hsound := hstock.pages.sound
  have hcount : after.pages.pageCount = start.image.pageCount := hstock.pages.count.trans hfillable.count
  have hsize : start.image.pageSize = after.pages.pageSize := by
    rw [← hsound.storedSized 0]
    exact (hfillable.ready.wf.sized start.remote.version 0).symm
  have hfile : after.pages.file start.image.block = start.image.file := by
    unfold Pages.file Image.file
    rw [hsize, hcount]
    refine FlatFile.ofBlocks_congr hsound.pos fun i hi => ?_
    unfold content
    cases hblock : after.pages.block i with
    | some data => exact hstock.pages.block hblock
    | none =>
        rw [Option.getD_none, fallback]
        split_ifs with hwhole
        · rw [hstock.pages.shape.whole] at hwhole
          exact absurd hblock (hall hwhole i (by rw [hfillable.count]; exact hi))
        · rfl
  refine ⟨hcached, ?_, ?_, ?_⟩
  · exact himage ▸ hsound
  · rw [himage]
    exact hcount
  · rw [himage]
    exact hfile

theorem heal_mends (hlive : Live db)
    (hcopy : Remote.CopyHolds setup db.trusted db.coherent db)
    (hheal : heal (Net.env setup) db = (.ok (), after))
    (hspared : after.remote.version ≠ db.remote.version → Spared setup db after) :
    Mended setup after ∧ db.world.server.version ≤ after.remote.version := by
  have hok : (heal (Net.env setup) db).1 = .ok () := by rw [hheal]
  rcases heal_cases setup hlive.ready with
    ⟨hne, -, -, -⟩ | ⟨opened, mid, hmid, hresumed, ⟨-, -, hne, -, -, -⟩ | ⟨haccepted, -, heq⟩⟩
  · exact absurd hok hne
  · exact absurd hok hne
  rw [heq, reload_eq] at hheal
  have hloads := Remote.fill_loaded (P := NoCommit) setup (restarted opened mid) hmid.link.ready
  cases hfill : Remote.fill (Net.env setup) (restarted opened mid) with
  | mk result filled =>
      rw [hfill] at hheal hloads
      rcases result with _ | err | _
      · cases hheal
        obtain ⟨hpos, hsize⟩ := checked_size hresumed.2
        have hsound : Sound (restarted opened mid).image.block (restarted opened mid).pages := by
          change Sound _ (Pages.new mid.pages.pageSize opened.pageCount mid.pages.blocksPerFetch
            mid.pages.cap)
          rw [hmid.pages]
          refine Sound.new ?_ fun i => ?_
          · rw [← hsize _ rfl]
            exact hpos
          · rw [← hsize _ rfl, hresumed.1.pageSize]
            exact hmid.link.ready.wf.sized opened.version i
        have hfillable : Remote.Fillable setup (restarted opened mid) :=
          ⟨hmid.link.ready, hresumed.1.reached, hresumed.1.pageCount, hresumed.1.pageCount,
            ⟨hsound, rfl, rfl, SameShape.refl _⟩, checked_count hresumed.2,
            restarted_copy setup hlive hcopy hmid hresumed haccepted hloads.link.later.ext
              fun hne => hspared fun heq => hne (hloads.sameVersion.version.symm.trans heq)⟩
        obtain ⟨hstock, hall⟩ := Remote.fill_stock hfillable hfill
        have hmended := mended_of_stock setup hfillable hstock hall
        refine ⟨⟨⟨hmended.cached.ready, hmended.cached.version, hmended.cached.stable,
          hmended.cached.copy⟩, hmended.sound, hmended.count, hmended.file⟩, ?_⟩
        exact hresumed.1.later.trans_eq hloads.sameVersion.version.symm
      · cases hheal
      · cases hheal

-- After a heal that succeeded: the version is one the server had meanwhile, every read
-- returns the file of that version if blocks are loaded, and no older block is left in the copy.
theorem heal_restores_server (h : Reached setup (Opened setup options) anyOp db)
    (hcopy : Remote.CopyHolds setup db.trusted db.coherent db)
    (hheal : heal (Net.env setup) db = (.ok (), after)) (hspared : Spared setup db after) :
    db.world.server.version ≤ after.remote.version ∧
      after.remote.version ≤ after.world.server.version ∧
      ∀ now, Reached setup (· = after) Reads now →
        (Fetches options.blocksPerFetch → ∀ offset length value next,
          Database.read (Net.env setup) offset length now = (.ok value, next) →
            value = (now.world.server.imageAt after.remote.version).file.read offset length) ∧
        (∀ turns first count read copy net,
          now.remote.copy.read (Net.env setup) first count { now.world with turns := turns } =
            (.ok (read, copy), net) →
          ∀ k data, read[k]? = some data → first + k < now.pages.pageCount →
            data = (now.world.server.imageAt after.remote.version).block (first + k)) ∧
        ∀ disk, Soon setup now disk →
          disk.Trusted now.world.server now.remote.subject now.remote.dbId := by
  obtain ⟨hmended, hversion⟩ :=
    heal_mends setup (h.live setup) hcopy hheal fun _ => hspared
  have hconfigured := (h.configured setup).heal setup (h.live setup)
  rw [hheal] at hconfigured
  refine ⟨hversion, hmended.cached.version, fun now hnow => ?_⟩
  obtain ⟨hnow, hsame, hperFetch⟩ := hmended.reads setup hnow
  rw [← hsame]
  refine ⟨?_, ?_, fun disk hsoon => Cached.soon setup hnow.cached hsoon⟩
  · intro hfetches offset length value next hread
    have hvalue := (hnow.read setup offset length).2
    rw [hread] at hvalue
    refine hvalue ?_
    rw [hperFetch, hconfigured.perFetch]
    exact hfetches
  · intro turns first count read copy net hread k data hk hbelow
    refine Cached.read setup hnow.cached hread hk ?_
    rw [hnow.cached.stable, ← hnow.count]
    exact hbelow

-- The answer to the second commit is lost.
def unanswered (n : Nat) : Turn where
  moves := [.Serve 0 {}, .Serve 1 {}]
  fail := if n = 23 ∨ n = 24 then some "lost" else none

theorem unanswered_fresh : (emptyNet unanswered).Fresh :=
  serving_fresh fun n move hmove => by
    simp only [unanswered, List.mem_cons, List.not_mem_nil, or_false] at hmove
    rcases hmove with rfl | rfl <;> exact ⟨_, _, rfl⟩

-- The block in its first content is committed, then written again.
def rewritten (db : Database Net) : Database Net :=
  (Op.Write 0 (List.replicate 512 8)).run (Net.env sampleSetup)
    ((Op.Commit 0).run (Net.env sampleSetup) db)

def outaged (db : Database Net) : Database Net :=
  (Op.Commit 0).run (Net.env sampleSetup) (rewritten db)

-- A commit that sends every block it adds leaves no gap.
def SendsAll (pages : Pages) : Prop :=
  ∀ i < pages.pageCount, pages.stablePageCount ≤ i → i ∈ pages.dirtyBlocks.map Prod.fst

instance (pages : Pages) : Decidable (SendsAll pages) := by
  unfold SendsAll
  infer_instance

theorem SendsAll.admits (h : SendsAll db.pages) (hcached : Cached setup db) (timeout : Nat) :
    Admits setup db (.Commit timeout) :=
  hcached.copy.imp (fun _ _ => trivial) fun _ _ i hlo hhi hsent => absurd (h i hhi hlo) hsent

theorem outaged_coherent {turns : Nat → Turn} (hfresh : (emptyNet turns).Fresh)
    (hdb : sample turns options [.Write 0 (List.replicate 512 7)] = some db)
    (hfirst : SendsAll db.pages) (hsecond : SendsAll (rewritten db).pages) :
    Reached sampleSetup (Opened sampleSetup options) anyOp (outaged db) ∧
      Cached sampleSetup (outaged db) := by
  have hstart : Reached sampleSetup (OpenedCoherent sampleSetup options) (Admits sampleSetup) db :=
    sample_run (fun _ h => ⟨⟨sampleConfig, 0, "db", _, hfresh, Disk.trusted_empty _ _ _, h⟩⟩)
      (fun _ op hop => by
        rw [List.mem_singleton.mp hop]
        trivial) hdb
  have hrewritten : Reached sampleSetup (OpenedCoherent sampleSetup options) (Admits sampleSetup)
      (rewritten db) :=
    (hstart.Step (.Commit 0) (hfirst.admits sampleSetup (hstart.cached sampleSetup) 0)).Step _ trivial
  have houtaged := hrewritten.Step (.Commit 0)
    (hsecond.admits sampleSetup (hrewritten.cached sampleSetup) 0)
  exact ⟨houtaged.mono (fun _ h => h.opened sampleSetup) fun _ _ _ => trivial,
    houtaged.cached sampleSetup⟩

theorem heal_restores_server_applied :
    ∃ db after value next, Reached sampleSetup (Opened sampleSetup cachedOptions) anyOp db ∧
      db.isUnreachable = true ∧ db.remote.version = 1 ∧
      heal (Net.env sampleSetup) db = (.ok (), after) ∧ after.remote.version = 2 ∧
      Database.read (Net.env sampleSetup) 0 512 after = (.ok value, next) ∧
      value = (after.world.server.imageAt 2).file.read 0 512 := by
  have hfacts : (sample unanswered cachedOptions [.Write 0 (List.replicate 512 7)]).any (fun db =>
      let healed := heal (Net.env sampleSetup) (outaged db)
      decide (SendsAll db.pages ∧ SendsAll (rewritten db).pages ∧
        (outaged db).isUnreachable = true ∧ (outaged db).remote.version = 1 ∧
        (outaged db).pages.onDemand = false ∧ healed.1 = .ok () ∧ healed.2.remote.version = 2) &&
        (Database.read (Net.env sampleSetup) 0 512 healed.2).1.any fun _ => true) = true := by decide +kernel
  obtain ⟨db, hdb, hfacts⟩ := (Option.any_eq_true _ _).mp hfacts
  dsimp only at hfacts
  rw [Bool.and_eq_true, decide_eq_true_eq] at hfacts
  obtain ⟨⟨hfirst, hsecond, hunreachable, hversion, hpreload, hok, hafter⟩, hread⟩ := hfacts
  obtain ⟨hreached, hcached⟩ := outaged_coherent unanswered_fresh hdb hfirst hsecond
  generalize outaged db = db at *
  obtain ⟨-, -, hreads⟩ := heal_restores_server sampleSetup hreached hcached.copy
    (Prod.ext hok rfl) fun hdemand => absurd (hpreload.symm.trans hdemand) (by simp)
  obtain ⟨value, hvalue, -⟩ := Outcome.of_any hread
  have hrun : Database.read (Net.env sampleSetup) 0 512 (heal (Net.env sampleSetup) db).2 = (.ok value, _) :=
    Prod.ext hvalue rfl
  have hshows := (hreads _ (.Open rfl)).1 (by decide) 0 512 value _ hrun
  rw [hafter] at hshows
  exact ⟨db, _, value, _, hreached, hunreachable, hversion, Prod.ext hok rfl, hafter, hrun, hshows⟩

-- Blocks are loaded on demand, and the thread has the copy: after the heal it still returns
-- the block of the version before.
theorem healed_reads_old_block :
    ∃ db after value next, Reached sampleSetup
        (Opened sampleSetup { cachedOptions with blocksPerFetch := some ⟨1, 64⟩ }) anyOp db ∧
      db.isUnreachable = true ∧ Remote.CopyHolds sampleSetup db.trusted db.coherent db ∧
      heal (Net.env sampleSetup) db = (.ok (), after) ∧
      after.remote.version = 2 ∧ after.world.server.version = 2 ∧
      Database.read (Net.env sampleSetup) 0 512 after = (.ok value, next) ∧
      value = (after.world.server.imageAt 1).file.read 0 512 ∧
      value ≠ (after.world.server.imageAt 2).file.read 0 512 := by
  have hfacts : (sample unanswered { cachedOptions with blocksPerFetch := some ⟨1, 64⟩ }
      [.Write 0 (List.replicate 512 7)]).any (fun db =>
      let healed := heal (Net.env sampleSetup) (outaged db)
      decide (SendsAll db.pages ∧ SendsAll (rewritten db).pages ∧
        (outaged db).isUnreachable = true ∧ healed.1 = .ok () ∧ healed.2.remote.version = 2 ∧
        healed.2.world.server.version = 2) &&
        (Database.read (Net.env sampleSetup) 0 512 healed.2).1.any fun value =>
          decide (value = (healed.2.world.server.imageAt 1).file.read 0 512 ∧
            value ≠ (healed.2.world.server.imageAt 2).file.read 0 512)) = true := by decide +kernel
  obtain ⟨db, hdb, hfacts⟩ := (Option.any_eq_true _ _).mp hfacts
  dsimp only at hfacts
  rw [Bool.and_eq_true, decide_eq_true_eq] at hfacts
  obtain ⟨⟨hfirst, hsecond, hunreachable, hok, hversion, hserver⟩, hread⟩ := hfacts
  obtain ⟨hreached, hcached⟩ := outaged_coherent unanswered_fresh hdb hfirst hsecond
  obtain ⟨value, hvalue, hbytes⟩ := Outcome.of_any hread
  rw [decide_eq_true_eq] at hbytes
  exact ⟨_, _, value, _, hreached, hunreachable, hcached.copy, Prod.ext hok rfl, hversion, hserver,
    Prod.ext hvalue rfl, hbytes.1, hbytes.2⟩

end Session

end RemoteVfs
