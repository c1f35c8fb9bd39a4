import RemoteVfs.Inner
import RemoteVfs.MainFile.Calls
import RemoteVfs.Counters

namespace RemoteVfs

open Base Base.Prog Database

variable {ω τ ε α : Type} {E : Env ω}

-- The counters of a local database.
def Grows (before after : Held τ) : Prop := Stats.Grown before.stats after.stats

instance : IsPreorder (Held τ) Grows where
  refl h := Stats.Grown.refl h.stats
  trans _ _ _ := Stats.Grown.trans

namespace LocalDatabase

variable {bridge : LocalBridge τ}

theorem onWorld_grows (body : Prog τ ε α) : Moves Grows (LocalDatabase.onWorld body) :=
  fun h => Stats.Grown.refl h.stats

theorem breakWith_grows (broken : Broken) :
    Moves Grows (LocalDatabase.breakWith broken : Prog (LocalDatabase τ) Broken α) :=
  fun h => Stats.Grown.refl h.stats

theorem mapPages_grows (change : Pages → Pages) :
    Moves Grows (Prog.modify (Held.mapPages change) : Prog (Held τ) ε Unit) :=
  fun h => Stats.Grown.refl h.stats

theorem fill_grows (first blocks : Nat) : Moves Grows (Load.fill bridge first blocks) := by
  refine Moves.bind (Moves.gets _) fun db => ?_
  cases db.source.broken with
  | some broken => exact Moves.fail _
  | none =>
      refine Moves.loop (fun next => Moves.ite (Moves.pure _) ?_) _ _
      refine Moves.bind (Moves.gets _) fun pages => Moves.bind ?_ fun loaded => ?_
      · refine Moves.handle (onWorld_grows _) fun refusal => ?_
        cases refusal with
        | Busy => exact breakWith_grows _
        | NoAnswer reason => exact breakWith_grows _
        | _ => exact Moves.fail _
      · cases loaded.find? (·.length ≠ pages.pageSize) with
        | some data => exact Moves.fail _
        | none =>
            refine Moves.bind (Moves.modify fun h => ?_) fun _ => ?_
            · simp [Grows, Stats.Grown, Stats.totals]
            · exact Moves.bind (mapPages_grows _) fun _ => Moves.pure _

theorem stays_grows : Pages.Stays Grows (Load.source bridge) where
  count h := Held.count_grown h
  touch h _ _ := Stats.Grown.refl h.stats
  load h first count _ _ := (Held.makeRoom_grown count h).trans (fill_grows first count _)

theorem read_grows (offset length : Nat) : Moves Grows (LocalDatabase.read bridge offset length) :=
  Pages.read_stays stays_grows offset length

theorem unlessBroken_grows {body : Prog (LocalDatabase τ) Broken α} (h : Moves Grows body) :
    Moves Grows (LocalDatabase.unlessBroken body) := by
  refine Moves.bind (Moves.gets _) fun db => ?_
  cases db.source.broken with
  | some broken => exact Moves.fail _
  | none => exact h

theorem write_grows (offset : Nat) (data : Bytes) :
    Moves Grows (LocalDatabase.write bridge offset data) :=
  unlessBroken_grows (Pages.write_stays stays_grows (fun h _ _ _ => Stats.Grown.refl h.stats) offset data)

theorem truncate_grows (size : Nat) : Moves Grows (LocalDatabase.truncate size : Prog (LocalDatabase τ) _ _) :=
  unlessBroken_grows (mapPages_grows _)

theorem commit_grows : Moves Grows (LocalDatabase.commit bridge) := by
  refine unlessBroken_grows (Moves.bind (Moves.gets _) fun db => Moves.ite (Moves.pure _) ?_)
  refine Moves.bind (onWorld_grows _) fun started => Moves.bind ?_ fun _ => ?_
  · exact Moves.handle (onWorld_grows _) fun refusal => breakWith_grows _
  · refine Moves.bind (onWorld_grows _) fun ended => Moves.bind (Moves.gets _) fun pages => ?_
    refine Moves.bind (Moves.modify fun h => ?_) fun _ => Moves.bind (mapPages_grows _) fun _ => ?_
    · simp [Grows, Stats.Grown, Stats.totals]
    · exact Moves.bind (Moves.modify (Held.makeRoom_grown 0)) fun _ => Moves.modify Held.count_grown

-- The first load, if the database is preloaded.
theorem opening_grows (options : LocalOptions) (opened : LocalOpened) (desk : LocalDatabase.Desk τ) :
    Stats.Grown desk.stats (LocalDatabase.opening bridge options opened desk).2.stats ∧
      ∀ db, (LocalDatabase.opening bridge options opened desk).1 = .ok db →
        db.stats = (LocalDatabase.opening bridge options opened desk).2.stats := by
  unfold LocalDatabase.opening
  dsimp only
  set start : LocalDatabase τ :=
    ⟨.new opened.pageSize opened.pageCount options.blocksPerFetch options.cap, desk.stats,
      opened.epoch, none, desk.world⟩
  have hloaded : Grows start (if !start.pages.onDemand && decide (0 < start.pages.pageCount) then
      Load.fill bridge 0 start.pages.pageCount start else (.ok (), start)).2 := by
    split_ifs
    · exact fill_grows 0 _ start
    · exact Stats.Grown.refl _
  generalize (if !start.pages.onDemand && decide (0 < start.pages.pageCount) then
      Load.fill bridge 0 start.pages.pageCount start else (.ok (), start)) = run at hloaded ⊢
  rcases run with ⟨_ | broken | _, db⟩
  · refine ⟨(hloaded.trans (Held.makeRoom_grown 0 db)).trans (Held.count_grown _), fun after hafter => ?_⟩
    cases hafter
    rfl
  · exact ⟨hloaded, fun after hafter => by cases hafter⟩
  · exact ⟨hloaded, fun after hafter => by cases hafter⟩

variable (bridge) in
theorem openOn_grows (name : String) (options : LocalOptions) (desk : LocalDatabase.Desk τ) :
    Stats.Grown desk.stats (LocalDatabase.openOn bridge name options desk).2.stats ∧
      ∀ db, (LocalDatabase.openOn bridge name options desk).1 = .ok db →
        db.stats = (LocalDatabase.openOn bridge name options desk).2.stats := by
  have hsame : ((Prog.zoom LocalDatabase.Desk.world (fun world desk => { desk with world := world })
      (bridge.openDatabase name options.pageSize options.create options.takeover)) desk).2.stats =
        desk.stats := rfl
  unfold LocalDatabase.openOn
  rw [bind_apply]
  generalize Prog.zoom LocalDatabase.Desk.world _ _ desk = run at hsame ⊢
  rcases run with ⟨opened | refusal | _, mid⟩
  · rw [← hsame]
    dsimp only
    split_ifs
    · exact ⟨Stats.Grown.refl _, fun after hafter => by cases hafter⟩
    · exact opening_grows options opened mid
  · rw [← hsame]
    exact ⟨Stats.Grown.refl _, fun after hafter => by cases hafter⟩
  · rw [← hsame]
    exact ⟨Stats.Grown.refl _, fun after hafter => by cases hafter⟩

end LocalDatabase

inductive Db.Counts (E : Env ω) : Db ω τ → Db ω τ → Prop where
  | Server {before after : Database ω} (h : RemoteVfs.Counts E before after) :
      Db.Counts E (.Server before) (.Server after)
  | Local {before after : LocalDatabase τ} (h : Grows before after) :
      Db.Counts E (.Local before) (.Local after)

namespace MainFile

def Counts (E : Env ω) (before after : MainFile ω τ) : Prop := Db.Counts E before.db after.db

theorem Counts.refl (main : MainFile ω τ) : Counts E main main := by
  unfold Counts
  cases main.db with
  | Server db => exact .Server (Counts.of_grown (Stats.Grown.refl _) rfl)
  | Local db => exact .Local (Stats.Grown.refl _)

theorem Counts.trans {a b c : MainFile ω τ} (hab : Counts E a b) (hbc : Counts E b c) : Counts E a c := by
  unfold Counts at hab hbc ⊢
  generalize a.db = a, b.db = b, c.db = c at hab hbc ⊢
  cases hab with
  | Server hab =>
      cases hbc with
      | Server hbc => exact .Server (hab.trans hbc)
  | Local hab =>
      cases hbc with
      | Local hbc => exact .Local (hab.trans hbc)

instance : IsPreorder (MainFile ω τ) (Counts E) where
  refl := Counts.refl
  trans _ _ _ := Counts.trans

theorem onDb_counts {server : Prog (Database ω) ε α} {stored : Prog (LocalDatabase τ) ε α}
    (hserver : Moves (RemoteVfs.Counts E) server) (hstored : Moves Grows stored) :
    Moves (Counts E) (onDb server stored) := by
  rintro ⟨db, failure, refuses, timeout⟩
  cases db with
  | Server db => exact .Server (hserver db)
  | Local db => exact .Local (hstored db)

theorem setFailure_counts (failure : Option Failure) :
    Moves (Counts E) (setFailure failure : Prog (MainFile ω τ) ε Unit) := fun main => Counts.refl main

theorem calls_counts (bridge : LocalBridge τ) (first : MainFile ω τ) :
    Calls E bridge (Counts E first) (Counts E first) where
  setFailure failure := Moves.guards (setFailure_counts failure) first
  heal := by
    refine Moves.guards (onDb_counts ?_ (Moves.pure _)) first
    refine Moves.bind (Moves.gets _) fun db => Moves.ite ?_ (Moves.pure _)
    refine Moves.bind (onLink_counts _) fun _ => Moves.ite ?_ (Moves.pure _)
    refine Moves.bind (Moves.attempt Database.heal_counts) ?_
    rintro (broken | _)
    · exact Moves.pure _
    · exact Moves.pure _
  read _ _ := Moves.guards (onDb_counts (Database.read_counts _ _) (LocalDatabase.read_grows _ _)) first
  write _ _ := Moves.guards (onDb_counts (Database.write_counts _ _) (LocalDatabase.write_grows _ _)) first
  truncate _ := Moves.guards (onDb_counts (Database.truncate_counts _) (LocalDatabase.truncate_grows _)) first
  commit _ := Moves.guards (onDb_counts (Database.commit_counts _) LocalDatabase.commit_grows) first

end MainFile

namespace ServerBackend

theorem cacheStore_yields (config : Config) (name : String) :
    Yields (fun cached => cached = true → config.cache = true)
      (cacheStore E config name : Prog (ServerBackend ω) ε Bool) := by
  refine Yields.bind (Yields.any _) fun server _ => ?_
  by_cases hcache : config.cache = true
  · exact fun _ _ _ _ => hcache
  · simp only [hcache]
    exact Yields.pure fun h => by cases h

-- What is done before the request to open.
theorem unopened {config : Config} {stats : Stats} {body : Prog (Front ω) VfsError α}
    (h : Moves (Same Front.stats) body) :
    Triple (fun front => front.stats = stats) body (andThen (fun _ front => front.stats = stats)
      fun o front => Starts E config.cache stats (o : Outcome VfsError (Pages × Remote)) front.stats
        front.server.link) := by
  intro front hfront
  have hafter : (body front).2.stats = stats := (h front).trans hfront
  generalize body front = run at hafter ⊢
  rcases run with ⟨value | reason | _, after⟩
  · exact hafter
  · change after.stats = stats at hafter
    change Starts _ _ _ _ after.stats _
    rw [hafter]
    exact Starts.of_same fun _ h => by cases h
  · change after.stats = stats at hafter
    change Starts _ _ _ _ after.stats _
    rw [hafter]
    exact Starts.of_same fun _ h => by cases h

theorem openOnServer_starts (config : Config) (name : String) (create : Bool) (stats : Stats) :
    Triple (fun front => front.stats = stats) (openOnServer E config name create)
      (fun o front => Starts E config.cache stats o front.stats front.server.link) := by
  have hreconnect : Moves (Same Front.stats) (reconnectToOpen E) := by
    refine Moves.bind (fun _ => rfl) fun _ => Moves.ite (Moves.pure _) ?_
    exact Moves.handle (fun _ => rfl) fun _ => Moves.fail _
  refine Triple.bind (unopened hreconnect) fun _ => ?_
  refine Triple.bind ((cacheStore_yields config name).zoom.triple (unopened fun _ => rfl)) fun cached => ?_
  intro front hfront
  have hstarts := openOn_starts (E := E) name (openOptions config create cached) ⟨front.stats, front.server.link⟩
  rw [hfront.2] at hstarts
  have hweaker : (E.native = true → config.cache = true → stats.localFailures = 0) →
      E.native = true → cached = true → stats.localFailures = 0 :=
    fun hzero hnative hcached => hzero hnative (hfront.1 hcached)
  unfold Prog.handle onDesk Prog.zoom
  dsimp only
  rw [hfront.2]
  generalize openOn E name (openOptions config create cached) ⟨stats, front.server.link⟩ = run at hstarts ⊢
  rcases run with ⟨value | err | _, desk⟩
  · refine ⟨hstarts.1, fun hzero => ⟨(hstarts.2 (hweaker hzero)).1, fun pages remote hok => ?_⟩⟩
    cases hok
    exact (hstarts.2 (hweaker hzero)).2 _ _ rfl
  · exact ⟨hstarts.1, fun hzero => ⟨(hstarts.2 (hweaker hzero)).1, fun _ _ hok => by cases hok⟩⟩
  · exact ⟨hstarts.1, fun hzero => ⟨(hstarts.2 (hweaker hzero)).1, fun _ _ hok => by cases hok⟩⟩

end ServerBackend

namespace Inner

variable {bridge : LocalBridge τ} {deleteLocal : String → Bool → Prog τ Refusal Unit}

def Tallied (E : Env ω) (inner : Inner ω τ) : Prop :=
  ∀ name main db, inner.files = .Open name main → main.db = .Server db → RemoteVfs.Tallied E db

structure Counts (E : Env ω) (before after : Inner ω τ) : Prop where
  totals : before.stats.totals ≤ after.stats.totals
  failures : before.Tallied E → after.Tallied E ∧ before.stats.localFailures ≤ after.stats.localFailures

theorem Counts.trans {a b c : Inner ω τ} (hab : Counts E a b) (hbc : Counts E b c) : Counts E a c where
  totals := le_trans hab.totals hbc.totals
  failures htallied := by
    obtain ⟨hb, hle⟩ := hab.failures htallied
    obtain ⟨hc, hle'⟩ := hbc.failures hb
    exact ⟨hc, le_trans hle hle'⟩

instance : IsPreorder (Inner ω τ) (Counts E) where
  refl _ := ⟨le_refl _, fun h => ⟨h, le_refl _⟩⟩
  trans _ _ _ := Counts.trans

theorem Counts.of_closed {before after : Inner ω τ} (hclosed : after.database = none)
    (htotals : before.stats.totals ≤ after.stats.totals)
    (hfailures : before.Tallied E → before.stats.localFailures ≤ after.stats.localFailures) :
    Counts E before after where
  totals := htotals
  failures htallied := by
    refine ⟨fun name main db hopen _ => ?_, hfailures htallied⟩
    rw [database, hopen] at hclosed
    cases hclosed

theorem Counts.of_open {config : Config} {cache cache' : Bool} {name : String} {main main' : MainFile ω τ}
    (h : MainFile.Counts E main main') :
    Counts E ⟨config, cache, .Open name main⟩ ⟨config, cache', .Open name main'⟩ := by
  obtain ⟨db, failure, refuses, timeout⟩ := main
  obtain ⟨db', failure', refuses', timeout'⟩ := main'
  change Db.Counts E db db' at h
  cases h with
  | Server h =>
      refine ⟨h.totals, fun htallied => ?_⟩
      obtain ⟨hafter, hle⟩ := h.failures (htallied _ _ _ rfl rfl)
      refine ⟨fun name main db hopen hdb => ?_, hle⟩
      cases hopen
      cases hdb
      exact hafter
  | Local h =>
      refine ⟨h.1, fun _ => ⟨fun name main db hopen hdb => ?_, le_of_eq h.2.symm⟩⟩
      cases hopen
      cases hdb

theorem onBackend_counts (server : Prog (ServerBackend ω) ε α) (stored : Prog τ ε α) :
    Moves (Counts E) (onBackend server stored) := by
  rintro ⟨config, cache, files⟩
  rcases files with ⟨link | world, stats, failure⟩ | ⟨name, db, failure, refuses, timeout⟩
  · exact Counts.of_closed rfl (le_refl _) fun _ => le_refl _
  · exact Counts.of_closed rfl (le_refl _) fun _ => le_refl _
  · cases db with
    | Server db => exact Counts.of_open (.Server (Counts.of_grown (Stats.Grown.refl _) rfl))
    | Local db => exact Counts.of_open (.Local (Stats.Grown.refl _))

theorem settled_moves {R : Inner ω τ → Inner ω τ → Prop} [IsPreorder (Inner ω τ) R]
    {body : Prog (Inner ω τ) ε α} (h : Moves R body) : Moves R (settled body) :=
  Moves.bind (Moves.attempt h) fun _ => Moves.pure _

theorem settled_state (body : Prog (Inner ω τ) ε α) (inner : Inner ω τ) :
    (settled body inner).2 = (body inner).2 := by
  unfold settled
  rw [bind_apply]
  unfold Prog.attempt
  generalize body inner = run
  rcases run with ⟨_ | _ | _, after⟩
  · rfl
  · rfl
  · rfl

theorem onFile_counts {body : Prog (MainFile ω τ) Broken α}
    (h : ∀ first, Guards (MainFile.Counts E first) (MainFile.Counts E first) body) :
    Moves (Counts E) (settled (onFile body)) := by
  refine settled_moves ?_
  rintro ⟨config, cache, files⟩
  cases files with
  | Closed backend stats failure => exact Std.Refl.refl _
  | Open name main => exact Counts.of_open (Moves.of_guards h main)

theorem closeFile_counts : Moves (Counts E) (closeFile E bridge : Prog (Inner ω τ) ε Unit) := by
  have hclose : Moves (RemoteVfs.Counts E) (ServerBackend.closeOnServer E : Prog (Database ω) ε Bool) := by
    refine Moves.bind Database.close_counts fun _ => Moves.ite (Moves.pure _) ?_
    refine Moves.bind (Moves.gets _) fun db => ?_
    cases db.remote.copy with
    | Ready => exact Moves.bind (Moves.attempt (onLink_counts _)) fun _ => Moves.pure _
    | None => exact Moves.pure _
    | Writing writer => exact Moves.pure _
  rintro ⟨config, cache, files⟩
  rcases files with ⟨backend, stats, failure⟩ | ⟨name, db, failure, refuses, timeout⟩
  · exact Std.Refl.refl _
  cases db with
  | Local db => exact Counts.of_closed rfl (le_refl _) fun _ => le_refl _
  | Server db =>
      have hafter := hclose db
      unfold closeFile
      dsimp only
      generalize ServerBackend.closeOnServer E db = run at hafter ⊢
      have hle : Inner.Tallied (τ := τ) E ⟨config, cache, .Open name ⟨.Server db, failure, refuses, timeout⟩⟩ →
          db.stats.localFailures ≤ run.2.stats.localFailures :=
        fun htallied => (hafter.failures (htallied _ _ _ rfl rfl)).2
      rcases run with ⟨back | reason | _, after⟩
      · exact Counts.of_closed rfl hafter.totals hle
      · exact Counts.of_closed rfl hafter.totals hle
      · exact Counts.of_closed rfl hafter.totals hle

theorem reportTakeovers_counts : Moves (Counts E) (reportTakeovers : Prog (Inner ω τ) ε Unit) := by
  refine Moves.bind (onBackend_counts _ _) fun revoked => Moves.modify ?_
  rintro ⟨config, cache, files⟩
  cases files with
  | Closed backend stats failure => exact Std.Refl.refl _
  | Open name main =>
      dsimp only
      split_ifs
      · exact Counts.of_open (MainFile.Counts.refl main)
      · exact Std.Refl.refl _

-- A database is opened with a cache only while no failure of one was counted. In a browser
-- nothing is asked.
def Spared (E : Env ω) (inner : Inner ω τ) : Op → Prop
  | .Open _ _ => E.native = true → inner.config.cache = true → inner.stats.localFailures = 0
  | _ => True

theorem openDatabase_counts (name : String) (create : Bool) (inner : Inner ω τ) :
    inner.stats.totals ≤ (openDatabase E bridge name create inner).2.stats.totals ∧
      (inner.Spared E (.Open name create) → Counts E inner (openDatabase E bridge name create inner).2) := by
  obtain ⟨config, cache, files⟩ := inner
  rcases files with ⟨link | world, stats, failure⟩ | ⟨other, main⟩
  · have hstarts := ServerBackend.openOnServer_starts (E := E) config name create stats
      ⟨stats, link, cache⟩ rfl
    unfold openDatabase
    dsimp only
    generalize ServerBackend.openOnServer E config name create ⟨stats, link, cache⟩ = run at hstarts ⊢
    rcases run with ⟨⟨pages, remote⟩ | err | _, front⟩
    · refine ⟨hstarts.1, fun hspared => ⟨hstarts.1, fun _ => ?_⟩⟩
      obtain ⟨hle, htallied⟩ := hstarts.2 hspared
      refine ⟨fun name main db hopen hdb => ?_, hle⟩
      cases hopen
      cases hdb
      exact htallied pages remote rfl
    · exact ⟨hstarts.1, fun hspared => Counts.of_closed rfl hstarts.1 fun _ => (hstarts.2 hspared).1⟩
    · exact ⟨hstarts.1, fun hspared => Counts.of_closed rfl hstarts.1 fun _ => (hstarts.2 hspared).1⟩
  · obtain ⟨hgrown, hstats⟩ := LocalDatabase.openOn_grows bridge name
      ⟨config.pageSize, create, config.takeover, blocksPerFetch config, cap config⟩ ⟨stats, world⟩
    unfold openDatabase openLocally Prog.handle
    dsimp only
    generalize LocalDatabase.openOn bridge name _ ⟨stats, world⟩ = run at hgrown hstats ⊢
    rcases run with ⟨db | refusal | _, desk⟩
    · have hdb : db.stats = desk.stats := hstats db rfl
      rw [← hdb] at hgrown
      refine ⟨hgrown.1, fun _ => ⟨hgrown.1, fun _ => ⟨fun name main db hopen hdb => ?_, le_of_eq hgrown.2.symm⟩⟩⟩
      cases hopen
      cases hdb
    · exact ⟨hgrown.1, fun _ => Counts.of_closed rfl hgrown.1 fun _ => le_of_eq hgrown.2.symm⟩
    · exact ⟨hgrown.1, fun _ => Counts.of_closed rfl hgrown.1 fun _ => le_of_eq hgrown.2.symm⟩
  · exact ⟨le_refl _, fun _ => Std.Refl.refl _⟩

theorem withClient_counts (what : String) (call : Prog (Link ω) ClientError α) :
    Moves (Counts E) (withClient E what call : Prog (Inner ω τ) Error α) := onBackend_counts _ _

theorem deleteDatabase_counts (name : String) :
    Moves (Counts E) (deleteDatabase E deleteLocal name) := by
  refine Moves.bind (Moves.gets _) fun inner => Moves.ite (Moves.fail _) ?_
  exact onBackend_counts _ _

theorem deleteSlot_counts : Moves (Counts E) (deleteSlot E : Prog (Inner ω τ) Error Unit) := by
  refine Moves.bind (Moves.gets _) fun inner => ?_
  cases inner.database with
  | some name => exact Moves.fail _
  | none => exact withClient_counts _ _

-- All operations but the opening of a database.
theorem run_counts {op : Op} (h : ∀ name create, op ≠ .Open name create) :
    Moves (Counts E) (op.run E bridge deleteLocal) := by
  cases op with
  | Open name create => exact absurd rfl (h name create)
  | Close => exact closeFile_counts
  | File op =>
      cases op with
      | Read offset length => exact onFile_counts fun first => (MainFile.calls_counts bridge first).reads _ _
      | Write offset data => exact onFile_counts fun first => (MainFile.calls_counts bridge first).writes _ _
      | Truncate size => exact onFile_counts fun first => (MainFile.calls_counts bridge first).truncates _
      | Commit => exact onFile_counts fun first => (MainFile.calls_counts bridge first).commits
  | Delete name => exact settled_moves (deleteDatabase_counts name)
  | ClaimSlot => exact settled_moves (withClient_counts _ _)
  | SetSlotLabel label => exact settled_moves (withClient_counts _ _)
  | DeleteSlot => exact settled_moves deleteSlot_counts
  | DropConnection => exact onBackend_counts _ _
  | Ping time => exact Moves.bind (onBackend_counts _ _) fun _ => reportTakeovers_counts
  | Push revoked => exact Moves.bind (onBackend_counts _ _) fun _ => reportTakeovers_counts

theorem step_counts (inner : Inner ω τ) (op : Op) :
    inner.stats.totals ≤ (op.run E bridge deleteLocal inner).2.stats.totals ∧
      (inner.Spared E op → Counts E inner (op.run E bridge deleteLocal inner).2) := by
  by_cases hopen : ∃ name create, op = .Open name create
  · obtain ⟨name, create, rfl⟩ := hopen
    have hstate : ((Op.Open name create).run E bridge deleteLocal inner).2 =
        (openDatabase E bridge name create inner).2 := settled_state _ _
    rw [hstate]
    exact openDatabase_counts name create inner
  · have hcounts : Counts E inner (op.run E bridge deleteLocal inner).2 :=
      run_counts (fun name create h => hopen ⟨name, create, h⟩) inner
    exact ⟨hcounts.totals, fun _ => hcounts⟩

-- The states after registration: no database is open, and nothing was counted yet.
def Registered (inner : Inner ω τ) : Prop := ∃ config cache backend, inner = register config cache backend

theorem reached_tallied {inner : Inner ω τ} (h : Reached E bridge deleteLocal Registered (Spared E) inner) :
    inner.Tallied E := by
  induction h with
  | Registered h =>
      obtain ⟨config, cache, backend, rfl⟩ := h
      intro name main db hopen
      cases hopen
  | Step op _ hop ih => exact (((step_counts _ op).2 hop).failures ih).1

-- No operation takes back what was counted. The failures of local copies count on as long as
-- natively no database is opened with a cache after one.
theorem counters_never_decrease :
    (∀ (inner : Inner ω τ) (op : Op),
      inner.stats.totals ≤ (op.run E bridge deleteLocal inner).2.stats.totals) ∧
    (∀ (inner : Inner ω τ) (op : Op), Reached E bridge deleteLocal Registered (Spared E) inner →
      inner.Spared E op →
      inner.stats.localFailures ≤ (op.run E bridge deleteLocal inner).2.stats.localFailures) := by
  refine ⟨fun inner op => (step_counts inner op).1, fun inner op hreached hspared => ?_⟩
  exact (((step_counts inner op).2 hspared).failures (reached_tallied hreached)).2

theorem counters_never_decrease_first_database :
    (Site.vfs Site.serve 1).stats.localFailures ≤
      ((Op.Open "a" true).run (Site.env Site.serve) Site.noBridge Site.noDelete
        (Site.vfs Site.serve 1)).2.stats.localFailures :=
  counters_never_decrease.2 _ _ (.Registered ⟨_, _, _, rfl⟩) fun _ _ => rfl

-- The head of the first database's copy cannot be read. The second database starts a new
-- thread, and its counter replaces the failure.
theorem local_failures_start_again :
    ∃ inner, Reached (Site.env Site.serve) Site.noBridge Site.noDelete Registered (fun _ _ => True) inner ∧
      inner.stats.localFailures = 1 ∧
      ((Op.Open "b" true).run (Site.env Site.serve) Site.noBridge Site.noDelete inner).2.stats.localFailures = 0 := by
  have hstart : Registered (Site.vfs Site.serve 1) := ⟨_, _, _, rfl⟩
  refine ⟨_, .Step .Close (.Step (.Open "a" true) (.Registered hstart) trivial) trivial, ?_, ?_⟩
  · decide +kernel
  · decide +kernel

end Inner

end RemoteVfs
