import RemoteVfs.Session.Mend
import RemoteVfs.Instance
import RemoteVfs.Worker.Fencing

namespace RemoteVfs

open Base Base.Prog Link Pages

namespace LocalDatabase

variable {ω : Type} {bridge : LocalBridge ω} {db after : LocalDatabase ω} {stored : Nat → Bytes}

-- What is done with an open local database.
inductive Op where
  | Read (offset length : Nat)
  | Write (offset : Nat) (data : Bytes)
  | Truncate (size : Nat)
  | Commit
  deriving DecidableEq, Repr

-- The database after the operation, however it ended.
def Op.run (bridge : LocalBridge ω) (db : LocalDatabase ω) : Op → LocalDatabase ω
  | Read offset length => (LocalDatabase.read bridge offset length db).2
  | Write offset data => (LocalDatabase.write bridge offset data db).2
  | Truncate size => (LocalDatabase.truncate size db).2
  | Commit => (LocalDatabase.commit bridge db).2

theorem unlessBroken_broken {α : Type} {broken : Broken} (h : db.source.broken = some broken)
    (body : Prog (LocalDatabase ω) Broken α) : unlessBroken body db = (.err broken, db) := by
  rw [unlessBroken, get_bind, h]
  rfl

theorem commitDone_fails (blocks time : Nat) :
    Prog.Fails (fun _ _ => False) (commitDone blocks time : Prog (LocalDatabase ω) Broken Unit) := by
  refine Prog.Fails.bind (Prog.Fails.gets _) fun _ => ?_
  refine Prog.Fails.bind (Prog.Fails.modify _) fun _ => ?_
  refine Prog.Fails.bind (Prog.Fails.modify _) fun _ => ?_
  exact Prog.Fails.bind (Prog.Fails.modify _) fun _ => Prog.Fails.modify _

-- Every error of `commit` breaks the database. The blocks in memory stay.
theorem commit_err {reason : Broken} (h : commit bridge db = (.err reason, after)) :
    after.source.broken = some reason ∧ after.pages = db.pages := by
  cases hbroken : db.source.broken with
  | some broken =>
      rw [commit, unlessBroken_broken hbroken] at h
      cases h
      exact ⟨hbroken, rfl⟩
  | none =>
      rw [commit, unlessBroken, get_bind, hbroken] at h
      dsimp only at h
      rw [get_bind] at h
      by_cases hclean : db.pages.isClean = true
      · rw [if_pos hclean] at h
        cases h
      · rw [if_neg hclean] at h
        set started : LocalDatabase ω :=
          { db with source := { db.source with world := (bridge.now db.source.world).2 } }
        have hnow : onWorld (fun world => (.ok (bridge.now world).1, (bridge.now world).2)) db =
            ((.ok (bridge.now db.source.world).1, started) : Outcome Broken Nat × LocalDatabase ω) := rfl
        rw [bind_ok _ hnow] at h
        cases hcommit : bridge.commit db.source.epoch db.pages.pageCount db.pages.dirtyBlocks
            started.source.world with
        | mk result world =>
            have hstore : onWorld (bridge.commit db.source.epoch db.pages.pageCount db.pages.dirtyBlocks)
                started = (result, { started with source := { started.source with world := world } }) := by
              rw [onWorld, Prog.zoom, hcommit]
            rw [bind_apply, Prog.handle, hstore] at h
            cases result with
            | ok _ =>
                refine (Prog.Fails.bind ?_ (fun ended => commitDone_fails _ _) _ _ _ h).elim
                exact fun _ _ _ h => by cases h
            | err refusal =>
                cases h
                exact ⟨rfl, rfl⟩
            | hang => cases h

-- A broken database loads no block.
theorem broken_serves (bridge : LocalBridge ω) (stored : Nat → Bytes) :
    (Load.source bridge).ServesIn stored (fun _ => True) (fun load => load.broken ≠ none) fun _ => True := by
  rintro before first count - - - (db : LocalDatabase ω) ⟨hbroken, rfl⟩
  obtain ⟨broken, heq⟩ := Option.ne_none_iff_exists'.mp hbroken
  have hfill : (Load.source bridge).fill first count db = (.err broken, db) := by
    change Load.fill bridge first count db = _
    rw [Load.fill, get_bind, heq]
    rfl
  rw [hfill]
  exact ⟨hbroken, Reloads.refl _, trivial⟩

-- After a commit that failed: the database is broken, and the blocks of the transaction are
-- still in memory.
structure Stuck (stored : Nat → Bytes) (pages : Pages) (db : LocalDatabase ω) : Prop where
  broken : db.source.broken ≠ none
  pages : Reloads stored pages db.pages

variable {pages : Pages}

theorem Stuck.read (bridge : LocalBridge ω) (h : Stuck stored pages db) (hs : Sound stored pages)
    (offset length : Nat) :
    Stuck stored pages (LocalDatabase.read bridge offset length db).2 ∧
      (LocalDatabase.read bridge offset length db).1.Meets (fun _ => True)
        fun value => Fetches pages.blocksPerFetch → value = (pages.file stored).read offset length := by
  obtain ⟨⟨hbroken, hpages⟩, hvalue⟩ := read_spec (broken_serves bridge stored)
    (fun _ _ _ _ => trivial) (hs.reloads h.pages) trivial offset length db ⟨h.broken, Reloads.refl _⟩
  rw [file_reloads hs h.pages, h.pages.perFetch] at hvalue
  exact ⟨⟨hbroken, h.pages.trans hpages⟩, hvalue⟩

theorem Stuck.step (bridge : LocalBridge ω) (h : Stuck stored pages db) (hs : Sound stored pages) (op : Op) :
    Stuck stored pages (op.run bridge db) := by
  obtain ⟨broken, hbroken⟩ := Option.ne_none_iff_exists'.mp h.broken
  cases op with
  | Read offset length => exact (h.read bridge hs offset length).1
  | Write offset data =>
      rw [Op.run, LocalDatabase.write, unlessBroken_broken hbroken]
      exact h
  | Truncate size =>
      rw [Op.run, LocalDatabase.truncate, unlessBroken_broken hbroken]
      exact h
  | Commit =>
      rw [Op.run, LocalDatabase.commit, unlessBroken_broken hbroken]
      exact h

theorem Stuck.run (bridge : LocalBridge ω) (h : Stuck stored pages db) (hs : Sound stored pages)
    (ops : List Op) :
    Stuck stored pages (ops.foldl (Op.run bridge) db) := by
  induction ops generalizing db with
  | nil => exact h
  | cons op rest ih => exact ih (h.step bridge hs op)

-- The transaction has neither written to the block nor cut it off.
structure Untouched (pages : Pages) (i : Nat) : Prop where
  below : i < pages.pageCount
  stable : i < pages.stablePageCount
  clean : i ∉ pages.dirty
  held : pages.whole = true → pages.block i ≠ none

theorem Untouched.content {i : Nat} (h : Untouched pages i) (hs : Sound stored pages) :
    pages.content stored i = stored i := by
  unfold Pages.content
  cases hblock : pages.block i with
  | some data => exact hs.clean i data h.clean hblock
  | none =>
      rw [Option.getD_none, fallback]
      by_cases hwhole : pages.whole = true
      · exact absurd hblock (h.held hwhole)
      · rw [if_neg hwhole]

-- The file of the last commit.
def stableFile (stored : Nat → Bytes) (pages : Pages) : FlatFile UInt8 :=
  .ofBlocks pages.pageSize pages.stablePageCount stored

theorem read_untouched (hs : Sound stored pages) {offset length : Nat}
    (h : ∀ p, offset ≤ p → p < offset + length → Untouched pages (p / pages.pageSize)) :
    (pages.file stored).read offset length = (stableFile stored pages).read offset length := by
  have hcells : (pages.file stored).cells offset length = (stableFile stored pages).cells offset length := by
    apply FlatFile.cells_congr
    intro p hlo hhi
    have hp := h p hlo hhi
    rw [stableFile, cell_file hs.pos, FlatFile.cell_ofBlocks hs.pos, if_pos hp.below, if_pos hp.stable,
      hp.content hs]
  have hends : length = 0 ∨ offset + length ≤ pages.pageCount * pages.pageSize ∧
      offset + length ≤ pages.stablePageCount * pages.pageSize := by
    by_cases hlength : length = 0
    · exact Or.inl hlength
    · obtain ⟨hbelow, hstable, -, -⟩ := h (offset + length - 1) (by omega) (by omega)
      rw [Nat.div_lt_iff_lt_mul hs.pos] at hbelow hstable
      exact Or.inr ⟨by omega, by omega⟩
  have hsizes : (length = 0 ∨ offset + length ≤ (pages.file stored).size) ↔
      (length = 0 ∨ offset + length ≤ (stableFile stored pages).size) := by
    change (length = 0 ∨ offset + length ≤ pages.pageCount * pages.pageSize) ↔
      (length = 0 ∨ offset + length ≤ pages.stablePageCount * pages.pageSize)
    omega
  unfold FlatFile.read
  rw [hcells, decide_eq_decide.mpr hsizes]

theorem failed_commit_reads (bridge : LocalBridge ω) (hsound : Sound stored db.pages)
    (hfetches : Fetches db.pages.blocksPerFetch) {reason : Broken}
    (hcommit : commit bridge db = (.err reason, after)) (ops : List Op) {offset length : Nat}
    {value : Bytes × Bool} {next : LocalDatabase ω}
    (huntouched : ∀ p, offset ≤ p → p < offset + length → Untouched db.pages (p / db.pages.pageSize))
    (hread : LocalDatabase.read bridge offset length (ops.foldl (Op.run bridge) after) = (.ok value, next)) :
    value = (stableFile stored db.pages).read offset length := by
  obtain ⟨hbroken, hpages⟩ := commit_err hcommit
  have hstuck : Stuck stored db.pages after := ⟨by rw [hbroken]; simp, by rw [hpages]; exact Reloads.refl _⟩
  have hvalue := ((hstuck.run bridge hsound ops).read bridge hsound offset length).2
  rw [hread] at hvalue
  rw [← read_untouched hsound huntouched]
  exact hvalue hfetches

end LocalDatabase

namespace Session

open Database

variable (setup : Net.Setup) {db after : Database Net} {options : OpenOptions}

-- Whenever the database is healed, that fails.
def Unhealed (db : Database Net) : Op → Prop
  | .Heal => db.isUnreachable = true → ∃ reason, (heal (Net.env setup) db).1 = .err reason
  | _ => True

-- Broken since an operation at this version.
structure Broke (version : Nat) (db : Database Net) : Prop where
  live : Live db
  broken : db.remote.broken ≠ none
  version : version ≤ db.remote.version

-- A heal never goes back to an earlier version.
theorem heal_grows (hlive : Live db) : db.remote.version ≤ (heal (Net.env setup) db).2.remote.version := by
  rcases heal_cases setup hlive.ready with
    ⟨-, -, -, hwaits⟩ | ⟨opened, mid, hmid, -, ⟨-, -, -, -, -, hwaits⟩ | ⟨haccepted, -, heq⟩⟩
  · exact hwaits.version.ge
  · exact hwaits.version.ge
  · have hloads := Remote.fill_loaded (P := NoCommit) setup (restarted opened mid) hmid.link.ready
    have hversion : db.remote.version ≤ opened.version := by
      rcases haccepted with hsame | happlied
      · exact hsame.ge
      · simp only [wasApplied, Bool.and_eq_true, beq_iff_eq] at happlied
        omega
    have hfilled := hversion.trans hloads.sameVersion.version.ge
    rw [heq, reload_eq]
    generalize Remote.fill (Net.env setup) (restarted opened mid) = run at hfilled ⊢
    rcases run with ⟨_ | err | _, filled⟩ <;> exact hfilled

theorem heal_err {reason : Broken} (hlive : Live db) (h : heal (Net.env setup) db = (.err reason, after)) :
    after.remote.broken = some reason := by
  have hmarked : Marked db (heal (Net.env setup) db).1 (heal (Net.env setup) db).2 →
      after.remote.broken = some reason := by
    intro hmark
    rw [h] at hmark
    exact hmark
  rcases heal_cases setup hlive.ready with
    ⟨-, -, hmark, -⟩ | ⟨opened, mid, -, -, ⟨-, -, -, hmark, -, -⟩ | ⟨-, -, heq⟩⟩
  · exact hmarked hmark
  · exact hmarked hmark
  · rw [heq, reload_eq] at h
    generalize Remote.fill (Net.env setup) (restarted opened mid) = run at h
    rcases run with ⟨_ | err | _, filled⟩
    · cases h
    · cases h
      rfl
    · cases h

theorem Reached.trans {start : Database Net → Prop} {admitted admitted' : Database Net → Op → Prop}
    (h : Reached setup start admitted db) (h' : Reached setup (· = db) admitted' after)
    (hop : ∀ db op, admitted' db op → admitted db op) : Reached setup start admitted after := by
  induction h' with
  | Open heq =>
      subst heq
      exact h
  | Step op _ hadmitted ih => exact ih.Step op (hop _ _ hadmitted)

theorem Broke.step {version : Nat} (h : Broke version db) {op : Op} (hop : Unhealed setup db op) :
    Broke version (op.run (Net.env setup) db) := by
  obtain ⟨broken, hbroken⟩ := Option.ne_none_iff_exists'.mp h.broken
  cases op with
  | Read offset length =>
      rw [Op.run, Database.read, unlessBroken_broken hbroken]
      exact h
  | Write offset data =>
      rw [Op.run, Database.write, unlessBroken_broken hbroken]
      exact h
  | Truncate size =>
      rw [Op.run, Database.truncate, unlessBroken_broken hbroken]
      exact h
  | Commit timeout =>
      rw [Op.run, Database.commit, unlessBroken_broken hbroken]
      exact h
  | Heal =>
      have hlive := h.live.step setup .Heal
      simp only [Op.run] at hlive ⊢
      by_cases hunreachable : db.isUnreachable = true
      · rw [if_pos hunreachable] at hlive ⊢
        obtain ⟨reason, hreason⟩ := hop hunreachable
        have hmark := heal_err setup h.live (Prod.ext hreason rfl)
        exact ⟨hlive, by rw [hmark]; simp, h.version.trans (heal_grows setup h.live)⟩
      · rw [if_neg hunreachable]
        exact h
  | Label label => exact ⟨h.live.step setup (.Label label), h.broken, h.version⟩

theorem Broke.run {version : Nat} (h : Broke version after) {now : Database Net}
    (hnow : Reached setup (· = after) (Unhealed setup) now) : Broke version now := by
  induction hnow with
  | Open heq =>
      subst heq
      exact h
  | Step op _ hop ih => exact ih.step setup hop

theorem commit_broke {reason : Broken} {timeout : Nat} (hlive : Live db)
    (h : commit (Net.env setup) timeout db = (.err reason, after)) : Broke db.remote.version after := by
  have hafter : Live after := by
    have hstep := hlive.step setup (.Commit timeout)
    rw [Op.run, h] at hstep
    exact hstep
  have hmark : after.remote.broken = some reason := by
    have hmark := commit_marks (Net.env setup) timeout db
    rw [h] at hmark
    exact hmark
  refine ⟨hafter, by rw [hmark]; simp, ?_⟩
  rcases commit_cases setup timeout hlive.ready with ⟨-, -, heq⟩ | ⟨-, hhalted⟩ |
    ⟨-, commitId, parts, begun, version, time, mid, -, -, -, heq⟩
  · rw [h] at heq
    cases heq
  · rw [h] at hhalted
    obtain ⟨login, broken, pending, hremote⟩ := hhalted.remote
    rw [hremote]
  · have hnever : Raises (fun _ => False) (commitDone (Net.env setup) parts.length time commitId version) :=
      commitDone_raises setup _ _ _ _
    rw [h] at heq
    exact (hnever mid reason (by rw [← heq])).elim

-- A database on a server returns nothing after a commit that failed, until it is healed.
theorem failed_commit_reads_fail (hlive : Live db) {timeout : Nat} {reason : Broken}
    (hcommit : commit (Net.env setup) timeout db = (.err reason, after)) {now : Database Net}
    (hnow : Reached setup (· = after) (Unhealed setup) now) (offset length : Nat) :
    ∃ broken, Database.read (Net.env setup) offset length now = (.err broken, now) := by
  have hbroke := (commit_broke setup hlive hcommit).run setup hnow
  obtain ⟨broken, hbroken⟩ := Option.ne_none_iff_exists'.mp hbroke.broken
  exact ⟨broken, unlessBroken_broken hbroken _⟩

-- If it turns out then that the commit was not applied, reads return the file without it.
theorem unapplied_commit_reads (h : Reached setup (Opened setup options) anyOp db) {timeout : Nat}
    {reason : Broken} (hcommit : commit (Net.env setup) timeout db = (.err reason, after))
    {now healed later : Database Net} (hnow : Reached setup (· = after) (Unhealed setup) now)
    (hcopy : Remote.CopyHolds setup now.trusted now.coherent now)
    (hheal : heal (Net.env setup) now = (.ok (), healed))
    (hversion : healed.remote.version = db.remote.version) (hfetches : Fetches options.blocksPerFetch)
    (hlater : Reached setup (· = healed) Reads later) {offset length : Nat} {value : Bytes × Bool}
    {next : Database Net} (hread : Database.read (Net.env setup) offset length later = (.ok value, next)) :
    value = (later.world.server.imageAt db.remote.version).file.read offset length := by
  have hbroke := (commit_broke setup (h.live setup) hcommit).run setup hnow
  have hreached : Reached setup (Opened setup options) anyOp now := by
    refine Reached.trans setup ?_ hnow fun _ _ _ => trivial
    have hstep := h.Step (.Commit timeout) trivial
    rw [Op.run, hcommit] at hstep
    exact hstep
  have hstays : healed.remote.version ≠ now.remote.version → Spared setup now healed := by
    intro hne
    have hge := hbroke.version
    have hle := heal_grows setup hbroke.live
    rw [hheal] at hle
    dsimp only at hle
    omega
  have hconfigured := (hreached.configured setup).heal setup hbroke.live
  rw [hheal] at hconfigured
  obtain ⟨hmended, -⟩ := heal_mends setup hbroke.live hcopy hheal hstays
  obtain ⟨hlater, hsame, hperFetch⟩ := hmended.reads setup hlater
  have hvalue := (hlater.read setup offset length).2
  rw [hread] at hvalue
  rw [← hversion, ← hsame]
  refine hvalue ?_
  rw [hperFetch, hconfigured.perFetch]
  exact hfetches

-- After a commit that failed, a database on a server returns nothing until it is healed. If it
-- turns out then that the commit was not applied, reads return the file without it. A local
-- database returns the file of the last commit where the transaction has changed nothing.
theorem failed_commit_never_visible (setup : Net.Setup) {ω : Type} (bridge : LocalBridge ω) :
    (∀ (options : OpenOptions) (db after now : Database Net) timeout reason,
      Reached setup (Opened setup options) anyOp db →
      commit (Net.env setup) timeout db = (.err reason, after) →
      Reached setup (· = after) (Unhealed setup) now →
      (∀ offset length, ∃ broken, Database.read (Net.env setup) offset length now = (.err broken, now)) ∧
      ∀ healed, Remote.CopyHolds setup now.trusted now.coherent now →
        heal (Net.env setup) now = (.ok (), healed) → healed.remote.version = db.remote.version →
        Fetches options.blocksPerFetch → ∀ later, Reached setup (· = healed) Reads later →
        ∀ offset length value next,
          Database.read (Net.env setup) offset length later = (.ok value, next) →
          value = (later.world.server.imageAt db.remote.version).file.read offset length) ∧
    ∀ (db after : LocalDatabase ω) stored reason,
      Sound stored db.pages → Fetches db.pages.blocksPerFetch →
      LocalDatabase.commit bridge db = (.err reason, after) →
      ∀ (ops : List LocalDatabase.Op) offset length value next,
        (∀ p, offset ≤ p → p < offset + length →
          LocalDatabase.Untouched db.pages (p / db.pages.pageSize)) →
        LocalDatabase.read bridge offset length (ops.foldl (LocalDatabase.Op.run bridge) after) =
          (.ok value, next) →
        value = (LocalDatabase.stableFile stored db.pages).read offset length := by
  refine ⟨?_, ?_⟩
  · intro options db after now timeout reason h hcommit hnow
    refine ⟨failed_commit_reads_fail setup (h.live setup) hcommit hnow, ?_⟩
    intro healed hcopy hheal hversion hfetches later hlater offset length value next hread
    exact unapplied_commit_reads setup h hcommit hnow hcopy hheal hversion hfetches hlater hread
  · intro db after stored reason hsound hfetches hcommit ops offset length value next huntouched hread
    exact LocalDatabase.failed_commit_reads bridge hsound hfetches hcommit ops huntouched hread

-- The second commit and the first attempt to reconnect fail before anything is sent.
def unsent (n : Nat) : Turn where
  moves := [.Serve 0 {}, .Serve 1 {}]
  fail := if n = 19 ∨ n = 20 then some "lost" else none
  yes := false

theorem unsent_fresh : (emptyNet unsent).Fresh :=
  serving_fresh fun n move hmove => by
    simp only [unsent, List.mem_cons, List.not_mem_nil, or_false] at hmove
    rcases hmove with rfl | rfl <;> exact ⟨_, _, rfl⟩

-- A store that refuses every commit. The second of two blocks is cut off.
def refusing : LocalBridge Unit where
  openDatabase _ _ _ _ := Prog.fail .Missing
  read _ _ := Prog.fail .Missing
  commit _ _ _ := Prog.fail .Busy
  close := id
  now world := (0, world)
  debugBroken _ := ""

def cutOff : LocalDatabase Unit :=
  ⟨((Pages.new 1 2 (some ⟨1, 32⟩) none).keep 0 [5]).truncate 1, {}, ⟨1, none, ()⟩⟩

theorem cutOff_sound : Sound (fun _ => [5]) cutOff.pages := by
  have hnew : Sound (fun _ => [5]) (Pages.new 1 2 (some ⟨1, 32⟩) none) :=
    Sound.new (by decide) fun _ => rfl
  exact (hnew.keep (i := 0) (by decide)).truncate 1

theorem failed_commit_never_visible_unsent :
    ∃ db after healed value next, Reached sampleSetup (Opened sampleSetup sampleOptions) anyOp db ∧
      commit (Net.env sampleSetup) 0 db = (.err (.Uncertain "no connection to the server: connection: lost"), after) ∧
      (∀ offset length, ∃ broken, Database.read (Net.env sampleSetup) offset length after = (.err broken, after)) ∧
      heal (Net.env sampleSetup) after = (.ok (), healed) ∧
      Database.read (Net.env sampleSetup) 0 512 healed = (.ok value, next) ∧
      value = (healed.world.server.imageAt 1).file.read 0 512 ∧
      (LocalDatabase.commit refusing cutOff).1 = .err .Fenced ∧
      (LocalDatabase.read refusing 0 1 (LocalDatabase.commit refusing cutOff).2).1 = .ok ([5], true) ∧
      ([5], true) = (LocalDatabase.stableFile (fun _ => [5]) cutOff.pages).read 0 1 := by
  have hfacts : (sample unsent sampleOptions [.Write 0 (List.replicate 512 7)]).any (fun db =>
      let healed := heal (Net.env sampleSetup) (outaged db)
      decide (SendsAll db.pages ∧ SendsAll (rewritten db).pages ∧ (rewritten db).remote.version = 1 ∧
        (commit (Net.env sampleSetup) 0 (rewritten db)).1 =
          .err (.Uncertain "no connection to the server: connection: lost") ∧
        healed.1 = .ok () ∧ healed.2.remote.version = 1) &&
        (Database.read (Net.env sampleSetup) 0 512 healed.2).1.any fun _ => true) = true := by decide +kernel
  obtain ⟨db, hdb, hfacts⟩ := (Option.any_eq_true _ _).mp hfacts
  dsimp only at hfacts
  rw [Bool.and_eq_true, decide_eq_true_eq] at hfacts
  obtain ⟨⟨hfirst, hsecond, hversion, herr, hok, hafter⟩, hread⟩ := hfacts
  obtain ⟨-, hcached⟩ := outaged_coherent unsent_fresh hdb hfirst hsecond
  have hreached : Reached sampleSetup (Opened sampleSetup sampleOptions) anyOp (rewritten db) :=
    ((sample_reached unsent_fresh (fun _ _ _ => trivial) hdb).Step (.Commit 0) trivial).Step
      _ trivial
  have hrefused : LocalDatabase.commit refusing cutOff =
      (.err .Fenced, (LocalDatabase.commit refusing cutOff).2) := rfl
  obtain ⟨hserver, hlocal⟩ := failed_commit_never_visible sampleSetup refusing
  obtain ⟨hfails, hheals⟩ := hserver sampleOptions _ _ _ 0 _ hreached (Prod.ext herr rfl) (.Open rfl)
  obtain ⟨value, hvalue, -⟩ := Outcome.of_any hread
  have hrun : Database.read (Net.env sampleSetup) 0 512 (heal (Net.env sampleSetup) (outaged db)).2 =
      (.ok value, _) := Prod.ext hvalue rfl
  have hshows := hheals _ hcached.copy (Prod.ext hok rfl) (hafter.trans hversion.symm) (by decide) _
    (.Open rfl) 0 512 value _ hrun
  rw [hversion] at hshows
  refine ⟨_, _, _, value, _, hreached, Prod.ext herr rfl, hfails, Prod.ext hok rfl, hrun, hshows, rfl,
    by decide +kernel, hlocal cutOff _ _ _ cutOff_sound (by decide) hrefused [] 0 1 _ _ ?_
      (Prod.ext (by decide +kernel) rfl)⟩
  intro p hlo hhi
  obtain rfl : p = 0 := by omega
  exact ⟨by decide, by decide, by decide, by decide⟩

-- An instance whose database is taken over before it commits for the second time.
def ours : Fin 2 := ⟨0, Nat.zero_lt_two⟩

def theirs : Fin 2 := ⟨1, Nat.one_lt_two⟩

def overtaken : Instance 2 where
  self := ours
  browser := Browser.twoInstances
  schedule := ([.Take ours, .Resume ours none, .Resume ours none, .Resume ours none, .Resume ours none,
    .Take ours, .Resume ours none,
    .Ask theirs (.Open 1 true true), .Take theirs, .Resume theirs none, .Resume theirs none,
    .Resume theirs none, .Resume theirs none,
    .Take ours, .Resume ours none] : List (Browser.Event 2)).map some
  answer := none
  clock := 0
  late := false

def overtakenBridge : LocalBridge (Instance 2) := Instance.bridge fun _ => ""

-- Two blocks are stored. Then the first one is written again.
def rewrittenLocal : Option (LocalDatabase (Instance 2)) :=
  match LocalDatabase.openOn overtakenBridge "db" ⟨1, true, false, none, none⟩ ⟨{}, overtaken⟩ with
  | (.ok db, _) => some ([LocalDatabase.Op.Write 0 [1, 2], .Commit, .Write 0 [7]].foldl
      (LocalDatabase.Op.run overtakenBridge) db)
  | _ => none

theorem failed_commit_is_read :
    ∃ db after next, rewrittenLocal = some db ∧
      LocalDatabase.commit overtakenBridge db = (.err .Fenced, after) ∧
      LocalDatabase.read overtakenBridge 0 1 after = (.ok ([7], true), next) ∧
      (after.source.world.browser.stored.bind fun stored => stored.blocks 0) = some [1] := by
  have hfacts : rewrittenLocal.any (fun db =>
      let committed := LocalDatabase.commit overtakenBridge db
      decide (committed.1 = .err .Fenced ∧
        (LocalDatabase.read overtakenBridge 0 1 committed.2).1 = .ok ([7], true) ∧
        (committed.2.source.world.browser.stored.bind fun stored => stored.blocks 0) = some [1])) = true := by
    decide +kernel
  obtain ⟨db, hdb, hfacts⟩ := (Option.any_eq_true _ _).mp hfacts
  rw [decide_eq_true_eq] at hfacts
  obtain ⟨hcommit, hread, hstored⟩ := hfacts
  exact ⟨db, _, _, hdb, Prod.ext hcommit rfl, Prod.ext hread rfl, hstored⟩

end Session

end RemoteVfs
