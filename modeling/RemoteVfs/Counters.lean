import RemoteVfs.Session.Broken
import RemoteVfs.Pages.Moves

namespace RemoteVfs

open Base Base.Prog

namespace Stats.Grown

variable {a b c : Stats}

theorem refl (a : Stats) : Grown a a := ⟨le_refl _, rfl⟩

theorem trans (hab : Grown a b) (hbc : Grown b c) : Grown a c :=
  ⟨le_trans hab.1 hbc.1, hbc.2.trans hab.2⟩

end Stats.Grown

namespace Held

variable {τ : Type}

theorem makeRoom_grown (incoming : Nat) (h : Held τ) : Stats.Grown h.stats (h.makeRoom incoming).stats := by
  unfold Held.makeRoom Pages.makeRoom
  by_cases hzero : h.pages.excess incoming = 0
  · simp only [hzero, if_true]
    exact Stats.Grown.refl _
  · simp only [hzero, if_false]
    simp [Stats.Grown, Stats.totals]

theorem count_grown (h : Held τ) : Stats.Grown h.stats h.count.stats := Stats.Grown.refl _

end Held

-- What the counter of failures is copied from has counted at least as much.
structure Tallied {ω : Type} (E : Env ω) (db : Database ω) : Prop where
  ready : E.native = true → db.remote.copy = .Ready → db.stats.localFailures = 0
  writing : E.native = true → ∀ writer, db.remote.copy = .Writing writer →
    db.stats.localFailures ≤ writer.failures

structure Counts {ω : Type} (E : Env ω) (before after : Database ω) : Prop where
  totals : before.stats.totals ≤ after.stats.totals
  failures : Tallied E before → Tallied E after ∧ before.stats.localFailures ≤ after.stats.localFailures

theorem Tallied.of_same {ω : Type} {E : Env ω} {db other : Database ω} (h : Tallied E other)
    (hstats : other.stats = db.stats) (hremote : other.remote = db.remote) : Tallied E db where
  ready hnative := by
    rw [← hstats, ← hremote]
    exact h.ready hnative
  writing hnative := by
    rw [← hstats, ← hremote]
    exact h.writing hnative

namespace Counts

variable {ω ε α : Type} {E : Env ω} {before after last : Database ω}

theorem of_grown (h : Stats.Grown before.stats after.stats)
    (hcopy : after.remote.copy = before.remote.copy) : Counts E before after where
  totals := h.1
  failures htallied := by
    refine ⟨⟨?_, ?_⟩, le_of_eq h.2.symm⟩
    · rw [h.2, hcopy]
      exact htallied.ready
    · rw [h.2, hcopy]
      exact htallied.writing

theorem trans (h : Counts E before after) (h' : Counts E after last) : Counts E before last where
  totals := le_trans h.totals h'.totals
  failures htallied := by
    obtain ⟨hafter, hle⟩ := h.failures htallied
    obtain ⟨hlast, hle'⟩ := h'.failures hafter
    exact ⟨hlast, le_trans hle hle'⟩

instance : IsPreorder (Database ω) (Counts E) where
  refl _ := of_grown (Stats.Grown.refl _) rfl
  trans _ _ _ := trans

-- Without a copy nothing is copied.
theorem of_none (htotals : before.stats.totals ≤ after.stats.totals)
    (hfailures : before.stats.localFailures ≤ after.stats.localFailures)
    (hcopy : after.remote.copy = .None) : Counts E before after where
  totals := htotals
  failures _ := by
    refine ⟨⟨fun _ hready => ?_, fun _ writer hwriting => ?_⟩, hfailures⟩
    · rw [hcopy] at hready
      cases hready
    · rw [hcopy] at hwriting
      cases hwriting

end Counts

namespace Database

variable {ω ε α : Type} {E : Env ω}

theorem onLink_counts (body : Prog (Link ω) ε α) : Moves (Counts E) (onLink body) :=
  fun _ => Counts.of_grown (Stats.Grown.refl _) rfl

theorem count_counts (change : Stats → Stats) (h : ∀ stats, Stats.Grown stats (change stats)) :
    Moves (Counts E) (count change : Prog (Database ω) ε Unit) :=
  fun db => Counts.of_grown (h db.stats) rfl

theorem mapRemote_counts (change : Remote → Remote) (h : ∀ remote, (change remote).copy = remote.copy) :
    Moves (Counts E) (Prog.modify (mapRemote change) : Prog (Database ω) ε Unit) :=
  fun db => Counts.of_grown (Stats.Grown.refl _) (h db.remote)

theorem mapPages_counts (change : Pages → Pages) :
    Moves (Counts E) (Prog.modify (Held.mapPages change) : Prog (Database ω) ε Unit) :=
  fun _ => Counts.of_grown (Stats.Grown.refl _) rfl

theorem makeRoom_counts (incoming : Nat) :
    Moves (Counts E) (Prog.modify (Held.makeRoom incoming) : Prog (Database ω) ε Unit) :=
  fun db => Counts.of_grown (Held.makeRoom_grown incoming db) rfl

theorem held_counts : Moves (Counts E) (Prog.modify Held.count : Prog (Database ω) ε Unit) :=
  fun _ => Counts.of_grown (Stats.Grown.refl _) rfl

theorem asks_counts : Asks (Counts E) where
  link := onLink_counts
  count := count_counts
  login _ := Counts.of_grown (Stats.Grown.refl _) rfl

theorem breakWith_counts (broken : Broken) :
    Moves (Counts E) (breakWith broken : Prog (Database ω) Broken α) :=
  Asks.breakWith (fun _ => mapRemote_counts _ fun _ => rfl) broken

end Database

-- A read of the copy waits for the thread that writes it, which may fail meanwhile.
def LocalCopy.Lags : LocalCopy → LocalCopy → Prop
  | .Writing writer, .Writing later => writer.failures ≤ later.failures
  | copy, later => later = copy

namespace Background

variable {ω ε : Type} (E : Env ω)

theorem job_failures (head : Head) (blocks : List (Nat × Bytes)) (writer : Background) :
    Yields (writer.failures ≤ ·.failures) (job E head blocks writer : Prog ω ε Background) := by
  refine Yields.ite (Yields.pure (le_refl _)) (Yields.bind (Yields.any _) ?_)
  rintro (_ | _) -
  · refine Yields.bind (Yields.any _) ?_
    rintro (_ | _) -
    · exact Yields.pure (Nat.le_succ _)
    · exact Yields.pure (Nat.le_succ _)
  · exact Yields.pure (le_refl _)

theorem jobs_failures (list : List (Head × List (Nat × Bytes))) (writer : Background) :
    Yields (writer.failures ≤ ·.failures) (jobs E list writer : Prog ω ε Background) := by
  induction list generalizing writer with
  | nil => exact Yields.pure (le_refl _)
  | cons entry rest ih =>
      refine Yields.bind (job_failures E entry.1 entry.2 writer) fun mid hmid => ?_
      intro world later hlater
      exact le_trans hmid (ih mid world later hlater)

theorem advance_failures (count : Nat) (writer : Background) :
    Yields (writer.failures ≤ ·.failures) (writer.advance E count : Prog ω ε Background) :=
  jobs_failures E _ _

end Background

theorem LocalCopy.read_lags {ω : Type} (E : Env ω) (copy : LocalCopy) (first count : Nat) :
    Yields (copy.Lags ·.2) (copy.read E first count) := by
  cases copy with
  | None => exact Yields.pure rfl
  | Ready => exact Yields.bind (Yields.any _) fun _ _ => Yields.pure rfl
  | Writing writer =>
      have hread : Yields (writer.failures ≤ ·.2.failures) (writer.read E first count) := by
        refine Yields.ite (Yields.bind (Background.advance_failures E _ writer) ?_) (Yields.fail _)
        intro later hlater
        exact Yields.ite (Yields.fail _) (Yields.bind (Yields.any _) fun _ _ => Yields.pure hlater)
      exact Yields.bind hread fun _ hresult => Yields.pure hresult

namespace Remote

open Database

variable {ω ε α β : Type} {E : Env ω}

theorem dropCopy_counts : Moves (Counts E) (dropCopy : Prog (Database ω) ε Unit) :=
  fun _ => Counts.of_none (le_refl _) (Nat.le_succ _) rfl

theorem setCopy_counts {copy : LocalCopy} {db : Database ω} (h : db.remote.copy.Lags copy) :
    Counts E db ((setCopy copy : Prog (Database ω) ε Unit) db).2 where
  totals := le_refl _
  failures htallied := by
    refine ⟨⟨fun hnative hready => ?_, fun hnative later hwriting => ?_⟩, le_refl _⟩
    · change copy = .Ready at hready
      rw [hready] at h
      cases hcopy : db.remote.copy with
      | Ready => exact htallied.ready hnative hcopy
      | None =>
          rw [hcopy] at h
          cases h
      | Writing writer =>
          rw [hcopy] at h
          cases h
    · change copy = .Writing later at hwriting
      rw [hwriting] at h
      cases hcopy : db.remote.copy with
      | Writing writer =>
          rw [hcopy] at h
          exact le_trans (htallied.writing hnative writer hcopy) h
      | None =>
          rw [hcopy] at h
          cases h
      | Ready =>
          rw [hcopy] at h
          cases h

-- A call into the world leaves the counters and the copy alone.
theorem onWorld_then {db : Database ω} {body : Prog ω ε α} {good : α → Prop} (hbody : Yields good body)
    {next : α → Prog (Database ω) ε β}
    (hnext : ∀ value (mid : Database ω), good value → mid.stats = db.stats → mid.remote = db.remote →
      Counts E mid (next value mid).2) :
    Counts E db ((onWorld body >>= next) db).2 := by
  have hmid := onLink_counts (E := E) (Link.outside body) db
  have hvalue := hbody db.world
  rw [bind_apply]
  unfold onWorld onLink Link.outside Prog.zoom at hmid ⊢
  dsimp only at hmid ⊢
  change ∀ value, (body db.source.link.world).1 = .ok value → _ at hvalue
  generalize body db.source.link.world = run at hmid hvalue ⊢
  rcases run with ⟨value | reason | _, world⟩
  · exact hmid.trans (hnext value _ (hvalue value rfl) rfl rfl)
  · exact hmid
  · exact hmid

-- The copy is read and then has the state that the read left.
theorem read_counts {db : Database ω} {first count : Nat}
    {next : Except String (List Bytes × LocalCopy) → Prog (Database ω) ε β}
    (herror : ∀ reason, Moves (Counts E) (next (.error reason)))
    (hok : ∀ read copy (mid : Database ω), mid.remote.copy.Lags copy →
      Counts E mid (next (.ok (read, copy)) mid).2) :
    Counts E db ((Prog.attempt (onWorld (db.remote.copy.read E first count)) >>= next) db).2 := by
  have hlags := Yields.attempt (δ := ε) (LocalCopy.read_lags E db.remote.copy first count)
  have hcommutes : (Prog.attempt (onWorld (db.remote.copy.read E first count)) :
      Prog (Database ω) ε _) = onWorld (Prog.attempt (db.remote.copy.read E first count)) := by
    rw [onWorld, onLink, attempt_zoom, Link.outside, attempt_zoom]
    rfl
  rw [hcommutes]
  refine onWorld_then hlags fun result mid hresult _ hmid => ?_
  cases result with
  | error reason => exact herror reason mid
  | ok value =>
      refine hok value.1 value.2 mid ?_
      rw [hmid]
      exact hresult value rfl

theorem takeFromCopy_counts (first blocks : Nat) :
    Moves (Counts E) (takeFromCopy E first blocks : Prog (Database ω) ε Bool) := by
  intro db
  unfold takeFromCopy
  rw [get_bind]
  by_cases hnone : db.remote.copy.isNone = true
  · rw [if_pos hnone]
    exact Counts.of_grown (Stats.Grown.refl _) rfl
  · rw [if_neg hnone, bind_apply]
    have hcounted := count_counts (E := E) (ε := ε)
      (fun stats => { stats with localReads := stats.localReads + 1 })
      (fun stats => by simp [Stats.Grown, Stats.totals]) db
    refine hcounted.trans (read_counts (fun _ => ?_) fun read copy mid hcopy => ?_)
    · exact Moves.bind dropCopy_counts fun _ => Moves.pure _
    · refine (setCopy_counts (ε := ε) hcopy).trans ?_
      refine Moves.ite ?_ ?_ _
      · exact Moves.bind (count_counts _ fun stats => by simp [Stats.Grown, Stats.totals]) fun _ => Moves.pure _
      · refine Moves.bind (count_counts _ fun stats => by simp [Stats.Grown, Stats.totals]) fun _ => ?_
        exact Moves.bind (mapPages_counts _) fun _ => Moves.pure _

theorem preloadStep_counts (first : Nat) :
    Moves (Counts E) (preloadStep E first : Prog (Database ω) ε (Nat ⊕ Bool)) := by
  intro db
  unfold preloadStep
  rw [get_bind]
  by_cases hdone : db.pages.pageCount ≤ first
  · rw [if_pos hdone]
    exact Counts.of_grown (Stats.Grown.refl _) rfl
  · rw [if_neg hdone]
    refine read_counts (fun _ => ?_) fun read copy mid hcopy => ?_
    · exact Moves.bind dropCopy_counts fun _ => Moves.pure _
    · refine (setCopy_counts (ε := ε) hcopy).trans ?_
      refine Moves.ite ?_ ?_ _
      · exact Moves.bind (count_counts _ fun stats => by simp [Stats.Grown, Stats.totals]) fun _ => Moves.pure _
      · refine Moves.bind (count_counts _ fun stats => by simp [Stats.Grown, Stats.totals]) fun _ => ?_
        exact Moves.bind (mapPages_counts _) fun _ => Moves.pure _

-- The counter is copied from a thread that has counted at least as much.
theorem copied_counts {db : Database ω} {writer : Background}
    (h : Tallied E db → db.stats.localFailures ≤ writer.failures) (head : Head)
    (blocks : List (Nat × Bytes)) :
    Counts E db ((do
      count fun stats => { stats with localFailures := writer.failures }
      match writer.write head blocks with
      | some writer => do
        setCopy (.Writing writer)
        copied blocks.length
      | none => setCopy .None : Prog (Database ω) ε Unit) db).2 := by
  unfold Background.write
  by_cases hrunning : writer.running = true
  · rw [if_pos hrunning]
    refine ⟨?_, fun htallied => ⟨⟨fun _ hready => ?_, fun _ later hwriting => ?_⟩, h htallied⟩⟩
    · simp [Stats.totals, copied, count, setCopy, mapStats, mapRemote, Prog.modify, bind_apply]
    · cases hready
    · cases hwriting
      exact le_refl _
  · rw [if_neg hrunning]
    refine ⟨le_refl _, fun htallied => ⟨⟨fun _ hready => ?_, fun _ later hwriting => ?_⟩, h htallied⟩⟩
    · cases hready
    · cases hwriting

theorem writer_tallied (hnative : E.native = true) (db : Database ω) :
    ∃ found mid, (writer E : Prog (Database ω) ε _) db = (.ok found, mid) ∧ mid.stats = db.stats ∧
      mid.remote = db.remote ∧
      ∀ writer, found = some writer → Tallied E db → db.stats.localFailures ≤ writer.failures := by
  unfold writer
  rw [get_bind]
  cases hcopy : db.remote.copy with
  | None =>
      refine ⟨none, db, rfl, rfl, rfl, fun writer hfound => ?_⟩
      cases hfound
  | Ready =>
      refine ⟨_, _, rfl, rfl, rfl, fun writer hfound htallied => ?_⟩
      rw [htallied.ready hnative hcopy]
      exact Nat.zero_le _
  | Writing writer =>
      refine ⟨some writer, db, rfl, rfl, rfl, fun other hfound htallied => ?_⟩
      cases hfound
      exact htallied.writing hnative writer hcopy

theorem writeCopyNative_counts (hnative : E.native = true) (head : Head) (blocks : List (Nat × Bytes)) :
    Moves (Counts E) (writeCopyNative E head blocks : Prog (Database ω) ε Unit) := by
  intro db
  obtain ⟨found, mid, hrun, hstats, hremote, hfound⟩ := writer_tallied (ε := ε) hnative db
  have hmid : Counts E db mid := by
    refine Counts.of_grown ?_ (congrArg Remote.copy hremote)
    rw [hstats]
    exact Stats.Grown.refl _
  refine hmid.trans ?_
  unfold writeCopyNative
  rw [bind_ok _ hrun]
  cases found with
  | none => exact Counts.of_grown (Stats.Grown.refl _) rfl
  | some writer =>
      refine onWorld_then (Yields.any _) fun progress asked _ hasked hasked' => ?_
      refine onWorld_then (Background.advance_failures E progress writer) fun later now hlater hnow hnow' => ?_
      refine copied_counts (fun htallied => le_trans ?_ hlater) head blocks
      have hsame : now.stats = db.stats := hnow.trans (hasked.trans hstats)
      rw [hsame]
      exact hfound writer rfl (htallied.of_same hsame (hnow'.trans (hasked'.trans hremote)))

theorem writeCopyBrowser_counts (head : Head) (blocks : List (Nat × Bytes)) :
    Moves (Counts E) (writeCopyBrowser E head blocks : Prog (Database ω) ε Unit) := by
  refine Moves.bind (Moves.gets _) fun db => ?_
  cases db.remote.copy with
  | Ready =>
      refine Moves.bind (Moves.attempt (onLink_counts _)) ?_
      rintro (_ | _)
      · exact dropCopy_counts
      · exact count_counts _ fun stats => by simp [Stats.Grown, Stats.totals]
  | None => exact Moves.pure _
  | Writing writer => exact Moves.pure _

theorem writeCopy_counts (indexes : List Nat) :
    Moves (Counts E) (writeCopy E indexes : Prog (Database ω) ε Unit) := by
  refine Moves.bind (Moves.gets _) fun db => Moves.ite (Moves.pure _) ?_
  by_cases hnative : E.native = true
  · rw [if_pos hnative]
    exact writeCopyNative_counts hnative _ _
  · rw [if_neg hnative]
    exact writeCopyBrowser_counts _ _

theorem copyCalls_counts : E.CopyCalls (Counts E) where
  head := onLink_counts _
  clear := onLink_counts _
  catchUp _ _ _ := onLink_counts _
  dropCopy := dropCopy_counts
  writeCopy := writeCopy_counts
  preloadStep := preloadStep_counts
  count := count_counts

theorem load_counts (first blocks : Nat) : Moves (Counts E) (load E first blocks) := by
  refine Moves.bind (onLink_counts _) fun _ => Moves.bind (Moves.gets _) fun db => ?_
  refine Moves.bind (onLink_counts _) fun loaded => Moves.bind (onLink_counts _) fun ended => ?_
  exact Moves.bind (count_counts _ fun stats => by simp [Stats.Grown, Stats.totals]) fun _ => mapPages_counts _

theorem fill_counts : Moves (Counts E) (fill E) := by
  have hroom : Moves (Counts E) (do
      Prog.modify (Held.makeRoom 0)
      Prog.modify Held.count : Prog (Database ω) ClientError Unit) :=
    Moves.bind (makeRoom_counts 0) fun _ => held_counts
  have htake : Moves (Counts E) (takeCopy E) :=
    copyCalls_counts.takeCopy fun behind => copyCalls_counts.catchCopyUp (fun _ => mapPages_counts _)
      (onLink_counts _) (fun _ _ => onLink_counts _) (fun _ _ _ _ => onLink_counts _) behind
  refine Moves.bind htake fun fromCopy => Moves.bind (Moves.gets _) fun db => Moves.ite ?_ hroom
  refine Moves.bind (load_counts _ _) fun _ => Moves.bind (Moves.gets _) fun db => ?_
  exact Moves.bind (writeCopy_counts _) fun _ => hroom

end Remote

open Database Remote

variable {ω τ ε α : Type} {E : Env ω}

theorem Fetch.fill_counts (first blocks : Nat) : Moves (Counts E) (Fetch.fill E first blocks) := by
  refine Moves.bind (Moves.gets _) fun db => ?_
  cases db.remote.broken with
  | some broken => exact Moves.fail _
  | none =>
      refine Moves.bind (takeFromCopy_counts _ _) fun taken => Moves.ite (Moves.pure _) ?_
      refine Moves.bind (asks_counts.reconnected fun _ => mapRemote_counts _ fun _ => rfl) fun _ => ?_
      refine Moves.bind (Moves.handle (load_counts _ _) fun err => ?_) fun _ => writeCopy_counts _
      exact Moves.ite (breakWith_counts _) (Moves.fail _)

theorem Fetch.stays_counts : Pages.Stays (Counts E) (Fetch.source E) where
  count h := held_counts (ε := Broken) h
  touch h index _ := mapPages_counts (ε := Broken) (·.touch index) h
  load h first count _ _ := (makeRoom_counts (ε := Broken) count h).trans (Fetch.fill_counts first count _)

namespace Database

theorem read_counts (offset length : Nat) : Moves (Counts E) (Database.read E offset length) :=
  unlessBroken_moves (Pages.read_stays Fetch.stays_counts offset length)

theorem write_counts (offset : Nat) (data : Bytes) : Moves (Counts E) (Database.write E offset data) :=
  unlessBroken_moves (Pages.write_stays Fetch.stays_counts
    (fun h index within chunk => mapPages_counts (ε := Broken) (·.put index within chunk) h) offset data)

theorem truncate_counts (size : Nat) : Moves (Counts E) (Database.truncate size) :=
  unlessBroken_moves (mapPages_counts _)

theorem reload_counts (opened : Pb.Opened) : Moves (Counts E) (reload E opened) := by
  refine Moves.bind (Moves.gets _) fun db => Moves.bind ?_ fun _ => Moves.bind ?_ fun _ => ?_
  · exact fun db => Counts.of_grown (Stats.Grown.refl _) rfl
  · refine Moves.handle fill_counts fun err => Moves.bind (mapPages_counts _) fun _ => ?_
    exact breakWith_counts _
  · refine Moves.bind (mapRemote_counts _ fun _ => rfl) fun _ => ?_
    exact count_counts _ fun stats => by simp [Stats.Grown, Stats.totals]

theorem heal_counts : Moves (Counts E) (heal E) := by
  refine Moves.bind (Moves.handle asks_counts.resume fun err => breakWith_counts _) fun opened => ?_
  refine Moves.bind (Moves.gets _) fun db => Moves.ite (breakWith_counts _) ?_
  refine Moves.bind (count_counts _ fun stats => ?_) fun _ => reload_counts opened
  by_cases happlied : db.wasApplied opened = true
  · simp [happlied, Stats.Grown, Stats.totals]
  · simp [happlied, Stats.Grown]

theorem commitDone_counts (parts commitTime : Nat) (commitId : Bytes) (version : Nat) :
    Moves (Counts E) (commitDone E parts commitTime commitId version) := by
  refine Moves.bind (Moves.gets _) fun db => ?_
  refine Moves.bind (count_counts _ fun stats => by simp [Stats.Grown, Stats.totals]) fun _ => ?_
  refine Moves.bind (mapRemote_counts _ fun _ => rfl) fun _ => Moves.bind (Moves.gets _) fun _ => ?_
  refine Moves.bind (mapPages_counts _) fun _ => Moves.bind (writeCopy_counts _) fun _ => ?_
  exact Moves.bind (makeRoom_counts 0) fun _ => held_counts

theorem commit_counts (reconnectTimeout : Nat) : Moves (Counts E) (Database.commit E reconnectTimeout) := by
  refine unlessBroken_moves (Moves.bind (Moves.gets _) fun db => Moves.ite (Moves.pure _) ?_)
  refine Moves.ite (breakWith_counts _) (Moves.bind ?_ fun begun => ?_)
  · refine Moves.bind (onLink_counts _) fun _ => Moves.bind (Moves.gets _) fun db => ?_
    exact Moves.bind (mapRemote_counts _ fun _ => rfl) fun _ => Moves.pure _
  · refine Moves.bind (onLink_counts _) fun started => Moves.bind (Moves.loop ?_ _ _) fun version => ?_
    · exact asks_counts.commitRound (fun _ => mapRemote_counts _ fun _ => rfl) _ _ _
    · exact Moves.bind (onLink_counts _) fun ended => commitDone_counts _ _ _ _

theorem close_counts : Moves (Counts E) (Database.close E : Prog (Database ω) ε Unit) := by
  refine Moves.bind (Moves.gets _) fun db => Moves.ite (onLink_counts _) ?_
  refine Moves.bind asks_counts.onCurrentConnection fun _ => Moves.ite ?_ (Moves.pure _)
  exact Moves.bind (Moves.attempt (onLink_counts _)) fun _ => Moves.pure _

-- The counters after an attempt to open a database, and its tally if it was opened.
def Starts (E : Env ω) (cached : Bool) (before : Stats) (o : Outcome ε (Pages × Remote)) (after : Stats)
    (link : Link ω) : Prop :=
  before.totals ≤ after.totals ∧
    ((E.native = true → cached = true → before.localFailures = 0) →
      before.localFailures ≤ after.localFailures ∧
      ∀ pages remote, o = .ok (pages, remote) → Tallied E ⟨pages, after, remote, link⟩)

theorem Starts.of_same {cached : Bool} {stats : Stats} {o : Outcome ε (Pages × Remote)} {link : Link ω}
    (h : ∀ value, o ≠ .ok value) : Starts E cached stats o stats link :=
  ⟨le_refl _, fun _ => ⟨le_refl _, fun pages remote hok => absurd hok (h (pages, remote))⟩⟩

theorem opening_starts {cached : Bool} {remote : Remote}
    (hcopy : remote.copy = if cached then .Ready else .None) (pages : Pages) (desk : Desk ω) :
    Starts E cached desk.stats (opening E pages remote desk).1 (opening E pages remote desk).2.stats
      (opening E pages remote desk).2.link := by
  have hcounts := Remote.fill_counts (E := E) ⟨pages, desk.stats, remote, desk.link⟩
  have htallied : (E.native = true → cached = true → desk.stats.localFailures = 0) →
      Tallied E ⟨pages, desk.stats, remote, desk.link⟩ := by
    intro hzero
    refine ⟨fun hnative hready => hzero hnative ?_, fun hnative writer hwriting => ?_⟩
    · change remote.copy = .Ready at hready
      cases cached with
      | true => rfl
      | false =>
          rw [hcopy] at hready
          cases hready
    · change remote.copy = .Writing writer at hwriting
      rw [hcopy] at hwriting
      cases cached <;> cases hwriting
  unfold opening Prog.zoom
  dsimp only
  rw [bind_apply]
  generalize Remote.fill E (⟨pages, desk.stats, remote, desk.link⟩ : Database ω) = run at hcounts ⊢
  have hle := hcounts.failures
  rcases run with ⟨_ | reason | _, db⟩
  · refine ⟨hcounts.totals, fun hzero => ⟨(hle (htallied hzero)).2, fun pages remote hok => ?_⟩⟩
    cases hok
    exact (hle (htallied hzero)).1
  · exact ⟨hcounts.totals, fun hzero => ⟨(hle (htallied hzero)).2, fun _ _ hok => by cases hok⟩⟩
  · exact ⟨hcounts.totals, fun hzero => ⟨(hle (htallied hzero)).2, fun _ _ hok => by cases hok⟩⟩

theorem openOn_starts (dbId : String) (options : OpenOptions) (desk : Desk ω) :
    Starts E options.hasLocal desk.stats (openOn E dbId options desk).1 (openOn E dbId options desk).2.stats
      (openOn E dbId options desk).2.link := by
  unfold openOn
  rw [bind_apply]
  unfold onDesk Prog.zoom
  dsimp only
  generalize Client.call E _ desk.link = run
  rcases run with ⟨answer | reason | _, link⟩
  · cases answer with
    | Opened opened =>
        dsimp only
        cases checked opened none with
        | error err => exact Starts.of_same fun _ h => by cases h
        | ok opened => exact opening_starts rfl _ ⟨desk.stats, link⟩
    | _ => exact Starts.of_same fun _ h => by cases h
  · exact Starts.of_same fun _ h => by cases h
  · exact Starts.of_same fun _ h => by cases h

end Database

end RemoteVfs
