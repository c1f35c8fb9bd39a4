import RemoteVfs.Pages.Store
import RemoteVfs.Session.Failed
import RemoteVfs.Session.Publish

namespace RemoteVfs

open Base Base.Prog Pages

-- A refusal after which the store is not asked any more.
def Refusal.loses : Refusal → Bool
  | .Busy | .NoAnswer _ => true
  | _ => false

-- The stored blocks after a commit.
def overlaid (pageSize pageCount : Nat) (blocks : List (Nat × Bytes)) (stored : Nat → Bytes) (i : Nat) :
    Bytes :=
  if i < pageCount then ((blocks.reverse.find? (·.1 = i)).map Prod.snd).getD (stored i) else zeros pageSize

-- What a local database may rely on from the store behind its bridge. In a world that `Holds` an
-- epoch, a page size, a page count and blocks the database is open, and all requests were
-- answered. `blocks` are those that are stored at the moment, and `shown` is the file they make.
structure Keeper {ω : Type} (bridge : LocalBridge ω) where
  Free : ω → Prop
  Holds : Nat → Nat → Nat → (Nat → Bytes) → ω → Prop
  blocks : ω → Nat → Bytes
  shown : ω → FlatFile UInt8
  stores : ∀ {epoch pageSize pageCount stored world}, Holds epoch pageSize pageCount stored world →
    blocks world = stored
  sized : ∀ {epoch pageSize pageCount stored world}, Holds epoch pageSize pageCount stored world →
    ∀ i, (stored i).length = pageSize
  shows : ∀ {epoch pageSize pageCount stored world}, Holds epoch pageSize pageCount stored world →
    shown world = .ofBlocks pageSize pageCount stored
  opens : ∀ name pageSize create,
    Triple Free (bridge.openDatabase name pageSize create false) fun o world => ∀ opened, o = .ok opened →
      ∃ stored, Holds opened.epoch opened.pageSize opened.pageCount stored world
  reads : ∀ epoch pageSize pageCount stored first count,
    Triple (Holds epoch pageSize pageCount stored) (bridge.read first count) fun o world =>
      match o with
      | .ok blocks => Holds epoch pageSize pageCount stored world ∧ blocks = (List.range' first count).map stored
      | .err refusal => shown world = .ofBlocks pageSize pageCount stored ∧
          (refusal.loses = false → Holds epoch pageSize pageCount stored world)
      | .hang => False
  commits : ∀ epoch pageSize pageCount stored newCount blocks, (∀ entry ∈ blocks, entry.2.length = pageSize) →
    Triple (Holds epoch pageSize pageCount stored) (bridge.commit epoch newCount blocks) fun o world =>
      match o with
      | .ok _ => Holds epoch pageSize newCount (overlaid pageSize newCount blocks stored) world
      | .err _ => shown world = .ofBlocks pageSize pageCount stored
      | .hang => False
  now : ∀ {epoch pageSize pageCount stored world}, Holds epoch pageSize pageCount stored world →
    Holds epoch pageSize pageCount stored (bridge.now world).2

namespace Pages

theorem keepAll_append (pages : Pages) (loaded more : List (Nat × Bytes)) :
    pages.keepAll (loaded ++ more) = (pages.keepAll loaded).keepAll more := List.foldl_append ..

theorem loadRun_append (blocks : Nat → Bytes) (first count more : Nat) :
    loadRun blocks first (count + more) = loadRun blocks first count ++ loadRun blocks (first + count) more := by
  rw [loadRun, loadRun, loadRun, ← List.map_append, List.range'_append_1]

theorem mapIdx_map_range' (blocks : Nat → Bytes) (first count : Nat) :
    ((List.range' first count).map blocks).mapIdx (fun offset data => (first + offset, data)) =
      loadRun blocks first count := by
  refine List.ext_getElem (by simp [loadRun]) fun i hi _ => ?_
  simp [loadRun]

-- The blocks that a commit of the pages leaves.
theorem published_overlaid (pages : Pages) (stored : Nat → Bytes) :
    Published stored pages (overlaid pages.pageSize pages.pageCount pages.dirtyBlocks stored) := by
  have hfind : ∀ (indexes : List Nat) (i : Nat),
      ((indexes.filterMap fun index => (pages.block index).map (index, ·)).reverse.find? (·.1 = i)).map
        Prod.snd = if i ∈ indexes then pages.block i else none := by
    intro indexes i
    have hblocks := Session.find_dirty pages indexes i
    rw [← List.map_reverse, List.find?_map, Option.map_map] at hblocks
    exact hblocks
  intro i
  unfold overlaid dirtyBlocks
  rw [hfind]
  by_cases hd : i ∈ pages.dirty
  · simp [hd]
  · simp [hd]

end Pages

namespace LocalDatabase

variable {ω : Type} {bridge : LocalBridge ω} (keeper : Keeper bridge)
  {epoch unit pageCount : Nat} {stored : Nat → Bytes}

-- The connection to the store, broken or not. A broken one is not used any more.
structure Linked (epoch unit pageCount : Nat) (stored : Nat → Bytes) (load : Load ω) : Prop where
  same : load.epoch = epoch
  shown : keeper.shown load.world = .ofBlocks unit pageCount stored
  holds : load.broken = none → keeper.Holds epoch unit pageCount stored load.world

variable {keeper}

theorem linked_of_holds {load : Load ω} (hepoch : load.epoch = epoch)
    (h : keeper.Holds epoch unit pageCount stored load.world) : Linked keeper epoch unit pageCount stored load :=
  ⟨hepoch, keeper.shows h, fun _ => h⟩

-- One request for blocks.
theorem readBlocks_spec (before : Pages) (next n : Nat) :
    Triple (fun db : LocalDatabase ω => Linked keeper epoch unit pageCount stored db.source ∧
        db.source.broken = none ∧ db.pages = before)
      (Prog.handle (onWorld (bridge.read next n)) Load.refuseRead)
      fun o db => (Linked keeper epoch unit pageCount stored db.source ∧ db.pages = before) ∧
        o.Meets (· ≠ none) fun blocks => db.source.broken = none ∧ blocks = (List.range' next n).map stored := by
  rintro db ⟨hlinked, hbroken, rfl⟩
  have hread := keeper.reads epoch unit pageCount stored next n db.source.world (hlinked.holds hbroken)
  unfold Prog.handle onWorld Prog.zoom
  generalize bridge.read next n db.source.world = run at hread ⊢
  obtain ⟨blocks | refusal | _, world⟩ := run
  · obtain ⟨hholds, rfl⟩ := hread
    exact ⟨⟨linked_of_holds hlinked.same hholds, rfl⟩, hbroken, rfl⟩
  · obtain ⟨hshown, hkept⟩ := hread
    have hlost (broken : Broken) : Linked keeper epoch unit pageCount stored
        { db.source with world := world, broken := some broken } :=
      ⟨hlinked.same, hshown, fun hnone => by cases hnone⟩
    cases refusal with
    | Busy => exact ⟨⟨hlost _, rfl⟩, by simp [Load.refuseRead, breakWith, Outcome.Meets]⟩
    | NoAnswer reason => exact ⟨⟨hlost _, rfl⟩, by simp [Load.refuseRead, breakWith, Outcome.Meets]⟩
    | Missing =>
        exact ⟨⟨linked_of_holds hlinked.same (hkept rfl), rfl⟩, Option.some_ne_none _⟩
    | Full reason =>
        exact ⟨⟨linked_of_holds hlinked.same (hkept rfl), rfl⟩, Option.some_ne_none _⟩
    | Failed reason =>
        exact ⟨⟨linked_of_holds hlinked.same (hkept rfl), rfl⟩, Option.some_ne_none _⟩
  · exact hread.elim

-- So much of the run is loaded.
def Filled (keeper : Keeper bridge) (epoch unit pageCount : Nat) (stored : Nat → Bytes) (before : Pages)
    (first count : Nat) (db : LocalDatabase ω) : Prop :=
  Linked keeper epoch unit pageCount stored db.source ∧ db.pages = before.keepAll (loadRun stored first count)

-- A load ends with a value only if everything is loaded, and it always ends.
def Fills (keeper : Keeper bridge) (epoch unit pageCount : Nat) (stored : Nat → Bytes) (before : Pages)
    (first count : Nat) (o : Outcome Broken Unit) (db : LocalDatabase ω) : Prop :=
  ∃ loaded ≤ count, Filled keeper epoch unit pageCount stored before first loaded db ∧
    o.Meets (· ≠ none) fun _ => loaded = count

theorem find_sized (hunit : ∀ i, (stored i).length = unit) (next n : Nat) :
    ((List.range' next n).map stored).find? (·.length ≠ unit) = none := by
  rw [List.find?_eq_none]
  intro data hmem
  obtain ⟨i, -, rfl⟩ := List.mem_map.mp hmem
  simp [hunit i]

theorem fillStep_spec (hunit : ∀ i, (stored i).length = unit) (before : Pages)
    (hsize : before.pageSize = unit) (first count next : Nat) :
    Triple (fun db => (Filled keeper epoch unit pageCount stored before first (next - first) db ∧
        db.source.broken = none) ∧ first ≤ next ∧ next ≤ first + count)
      (Load.fillStep bridge (first + count) next)
      (andThen
        (orDone
          (fun after db => ((Filled keeper epoch unit pageCount stored before first (after - first) db ∧
            db.source.broken = none) ∧ first ≤ after ∧ after ≤ first + count) ∧
            first + count - after < first + count - next)
          fun _ => Filled keeper epoch unit pageCount stored before first count)
        (Fills keeper epoch unit pageCount stored before first count)) := by
  rintro db ⟨⟨⟨hlinked, hpages⟩, hbroken⟩, hlow, hhigh⟩
  have hshape : db.pages.pageSize = unit := by
    rw [hpages]
    exact (shape_keepAll _ _).pageSize.trans hsize
  unfold Load.fillStep
  by_cases hend : first + count ≤ next
  · obtain rfl : next = first + count := by omega
    rw [if_pos hend, Nat.add_sub_cancel_left] at *
    exact ⟨hlinked, hpages⟩
  rw [if_neg hend, gets_bind]
  set n := min (maxRead db.pages.pageSize) (first + count - next) with hn
  have hpos : 0 < n := by
    have : 0 < maxRead db.pages.pageSize := by
      unfold maxRead
      omega
    omega
  have hread := readBlocks_spec db.pages next n db ⟨hlinked, hbroken, rfl⟩
  rw [bind_apply]
  generalize Prog.handle (onWorld (bridge.read next n)) Load.refuseRead db = run at hread ⊢
  obtain ⟨blocks | reason | _, after⟩ := run
  · obtain ⟨⟨hafter, hsame⟩, hopen, rfl⟩ := hread
    dsimp only
    rw [hshape, find_sized hunit]
    refine ⟨⟨⟨⟨hafter, ?_⟩, hopen⟩, by omega, by omega⟩, by omega⟩
    change after.pages.keepAll _ = _
    rw [mapIdx_map_range', hsame, hpages, ← keepAll_append]
    have hnext : first + (next - first) = next := by omega
    have hsum : next + n - first = next - first + n := by omega
    rw [hsum, loadRun_append, hnext]
  · obtain ⟨⟨hafter, hsame⟩, -⟩ := hread
    exact ⟨next - first, by omega, ⟨hafter, hsame.trans hpages⟩, Option.some_ne_none _⟩
  · exact absurd rfl hread.2

theorem fill_spec (hunit : ∀ i, (stored i).length = unit) (before : Pages) (hsize : before.pageSize = unit)
    (first count : Nat) :
    Triple (fun db => Linked keeper epoch unit pageCount stored db.source ∧ db.pages = before)
      (Load.fill bridge first count)
      (Fills keeper epoch unit pageCount stored before first count) := by
  rintro db ⟨hlinked, rfl⟩
  unfold Load.fill
  rw [get_bind]
  cases hbroken : db.source.broken with
  | some broken => exact ⟨0, Nat.zero_le _, ⟨hlinked, rfl⟩, Option.some_ne_none _⟩
  | none =>
      refine Triple.loopDown
        (fun next db' => (Filled keeper epoch unit pageCount stored db.pages first (next - first) db' ∧
          db'.source.broken = none) ∧ first ≤ next ∧ next ≤ first + count)
        (Fills keeper epoch unit pageCount stored db.pages first count)
        (fun next => first + count - next) (fun next => ?_) (count + 1) first (by omega) db
        ⟨⟨⟨hlinked, by rw [Nat.sub_self]; rfl⟩, hbroken⟩, by omega, by omega⟩
      refine Triple.mono (fillStep_spec hunit db.pages hsize first count next) (fun _ h => h) fun o db' h => ?_
      cases o with
      | ok value =>
          cases value with
          | inl next => exact h
          | inr value => exact ⟨count, Nat.le_refl _, h, rfl⟩
      | err reason => exact h
      | hang => exact h

theorem serves (hunit : ∀ i, (stored i).length = unit) (stable : Nat) :
    (Load.source bridge).Serves stored stable (Linked keeper epoch unit pageCount stored) (· ≠ none) := by
  rintro before first count hs - hasks (db : LocalDatabase ω) ⟨hlinked, rfl⟩
  have hsize : db.pages.pageSize = unit := (hs.storedSized 0).symm.trans (hunit 0)
  have hfill := fill_spec hunit db.pages hsize first count db ⟨hlinked, rfl⟩
  have hpos := hasks.nonempty
  have hbelow := hasks.below
  change (fun run : Outcome Broken Unit × LocalDatabase ω =>
    Linked keeper epoch unit pageCount stored run.2.source ∧ Reloads stored db.pages run.2.pages ∧
      run.1.Meets (· ≠ none) fun _ => run.2.pages.block first ≠ none ∨ stored first = zeros db.pages.pageSize)
    (Load.fill bridge first count db)
  generalize Load.fill bridge first count db = run at hfill ⊢
  obtain ⟨loaded, hle, ⟨hafter, hpages⟩, hmeets⟩ := hfill
  refine ⟨hafter, ?_, ?_⟩
  · rw [hpages]
    refine Reloads.keepAll hasks.limited _ fun entry hentry => ?_
    obtain ⟨hdata, hlo, hhi⟩ := mem_loadRun.mp hentry
    exact ⟨hdata, (hasks.absent _ hlo (by omega)).2, by omega⟩
  · obtain ⟨value | reason | _, after⟩ := run
    · obtain rfl : loaded = count := hmeets
      dsimp only at hpages
      exact Or.inl (hpages ▸ hasks.loaded.2)
    · exact hmeets
    · exact hmeets

-- The stored file, and the file that SQLite sees.
structure Books where
  committed : FlatFile UInt8
  working : FlatFile UInt8

-- What an operation does to a file with transactions. Every operation returns.
def TxStep (unit : Nat) (hu : 0 < unit) (books : Books) (op : Op) (o : Outcome Broken Pages.Answer)
    (next : Books) : Prop :=
  match op with
  | .Read offset length =>
    next = books ∧ o.Meets (· ≠ none) (· = some (books.working.read offset length))
  | .Write offset data =>
    next.committed = books.committed ∧
      (∃ part, next.working = books.working.write unit hu offset (data.take part)) ∧
      o.Meets (· ≠ none) fun _ => next.working = books.working.write unit hu offset data
  | .Truncate size =>
    next.committed = books.committed ∧
      o.Meets (fun reason => reason ≠ none ∧ next.working = books.working)
        fun _ => next.working = books.working.truncate unit size
  | .Commit =>
    next.working = books.working ∧
      o.Meets (fun reason => reason ≠ none ∧ next.committed = books.committed)
        fun _ => next.committed = books.working

def Op.perform (bridge : LocalBridge ω) : Op → Prog (LocalDatabase ω) Broken Pages.Answer
  | .Read offset length => do return some (← LocalDatabase.read bridge offset length)
  | .Write offset data => do LocalDatabase.write bridge offset data; return none
  | .Truncate size => do LocalDatabase.truncate size; return none
  | .Commit => do LocalDatabase.commit bridge; return none

-- As for any store: growing the file exposes no block that was cut off, and a database that was
-- preloaded has in memory what is stored.
def Op.Blank (keeper : Keeper bridge) (op : Op) (db : LocalDatabase ω) : Prop :=
  match op with
  | .Read _ _ => True
  | .Write offset data =>
    data ≠ [] → Clear (keeper.blocks db.source.world) db.pages (offset / db.pages.pageSize)
  | .Truncate size => Clear (keeper.blocks db.source.world) db.pages (divCeil size db.pages.pageSize)
  | .Commit => db.pages.Backed (keeper.blocks db.source.world)

-- The database stands for the two files.
structure Stands (keeper : Keeper bridge) (unit : Nat) (books : Books) (pageCount : Nat) (stored : Nat → Bytes)
    (db : LocalDatabase ω) : Prop where
  linked : Linked keeper db.source.epoch unit pageCount stored db.source
  sound : Sound stored db.pages
  size : db.pages.pageSize = unit
  fetches : Fetches db.pages.blocksPerFetch
  count : db.pages.sizeChanged = false → db.pages.pageCount = pageCount
  working : db.pages.file stored = books.working
  committed : books.committed = .ofBlocks unit pageCount stored

variable {books : Books} {db : LocalDatabase ω}

theorem Stands.sized (h : Stands keeper unit books pageCount stored db) (i : Nat) :
    (stored i).length = unit := (h.sound.storedSized i).trans h.size

theorem Stands.reloads (h : Stands keeper unit books pageCount stored db) {after : LocalDatabase ω}
    (hlinked : Linked keeper db.source.epoch unit pageCount stored after.source)
    (hr : Reloads stored db.pages after.pages) : Stands keeper unit books pageCount stored after where
  linked := hlinked.same ▸ hlinked
  sound := h.sound.reloads hr
  size := hr.pageSize.trans h.size
  fetches := hr.perFetch ▸ h.fetches
  count hsame := hr.pageCount.trans (h.count (hr.sizeChanged ▸ hsame))
  working := (file_reloads h.sound hr).trans h.working
  committed := h.committed

theorem Stands.read (h : Stands keeper unit books pageCount stored db) (hu : 0 < unit) (offset length : Nat) :
    ∃ next, TxStep unit hu books (.Read offset length) ((Op.Read offset length).perform bridge db).1 next ∧
      Stands keeper unit next pageCount stored ((Op.Read offset length).perform bridge db).2 := by
  have hread := read_spec (serves h.sized db.pages.stablePageCount) (lasts_stable _ _) h.sound rfl offset
    length db ⟨h.linked, Reloads.refl _⟩
  simp only [Op.perform, LocalDatabase.read, bind_apply]
  generalize Pages.read (Load.source bridge) offset length db = run at hread ⊢
  obtain ⟨value | reason | _, after⟩ := run <;> obtain ⟨⟨hlinked, hr⟩, hmeets⟩ := hread
  · exact ⟨books, ⟨rfl, by rw [← h.working]; exact congrArg some (hmeets h.fetches)⟩, h.reloads hlinked hr⟩
  · exact ⟨books, ⟨rfl, hmeets⟩, h.reloads hlinked hr⟩
  · exact absurd rfl hmeets

theorem Stands.write (h : Stands keeper unit books pageCount stored db) (hu : 0 < unit) (offset : Nat)
    (data : Bytes) (hblank : db.source.broken = none → (Op.Write offset data).Blank keeper db) :
    ∃ next, TxStep unit hu books (.Write offset data) ((Op.Write offset data).perform bridge db).1 next ∧
      Stands keeper unit next pageCount stored ((Op.Write offset data).perform bridge db).2 := by
  simp only [Op.perform, LocalDatabase.write]
  cases hbroken : db.source.broken with
  | some broken =>
      rw [bind_apply, unlessBroken_broken hbroken]
      exact ⟨books, ⟨rfl, ⟨0, by simp⟩, Option.some_ne_none _⟩, h⟩
  | none =>
      rw [bind_apply, unlessBroken, get_bind, hbroken]
      dsimp only
      by_cases hdata : data = []
      · subst hdata
        have hrun : Pages.write (Load.source bridge) offset [] db = (.ok (), Held.count db) := rfl
        rw [hrun]
        refine ⟨books, ⟨rfl, ⟨0, by simp⟩, ?_⟩, h.reloads h.linked (Reloads.refl _)⟩
        exact (FlatFile.write_nil ..).symm
      have hclear : Clear stored db.pages (offset / db.pages.pageSize) := by
        rw [← keeper.stores (h.linked.holds hbroken)]
        exact hblank hbroken hdata
      have hwrite := write_spec (serves h.sized db.pages.stablePageCount) h.sound rfl offset data db
        ⟨h.linked, Reloads.refl _⟩
      generalize Pages.write (Load.source bridge) offset data db = run at hwrite ⊢
      have hstands {part : Nat} {after : LocalDatabase ω}
          (hlinked : Linked keeper db.source.epoch unit pageCount stored after.source)
          (hpart : WriteSoFar stored db.pages offset data part after.pages) :
          Stands keeper unit ⟨books.committed, books.working.write unit hu offset (data.take part)⟩ pageCount
            stored after := by
        refine ⟨hlinked.same ▸ hlinked, hpart.sound, hpart.shape.pageSize.trans h.size,
          hpart.shape.perFetch ▸ h.fetches, fun hsame => ?_, ?_, h.committed⟩
        · exact (hpart.shape.size hsame).2.trans (h.count (hpart.shape.size hsame).1)
        · rw [hpart.file h.fetches hclear h.sound.pos, h.working]
          simp only [h.size]
      obtain ⟨value | reason | _, after⟩ := run <;> obtain ⟨hlinked, hm⟩ := hwrite
      · have hall := hstands hlinked hm
        rw [List.take_length] at hall
        refine ⟨⟨books.committed, books.working.write unit hu offset data⟩, ⟨rfl, ⟨data.length, ?_⟩, rfl⟩, hall⟩
        rw [List.take_length]
      · obtain ⟨-, part, hpart⟩ := hm
        exact ⟨⟨books.committed, books.working.write unit hu offset (data.take part)⟩,
          ⟨rfl, ⟨part, rfl⟩, Option.some_ne_none _⟩, hstands hlinked hpart⟩
      · exact absurd rfl hm.1

theorem Stands.truncate (h : Stands keeper unit books pageCount stored db) (hu : 0 < unit) (size : Nat)
    (hblank : db.source.broken = none → (Op.Truncate size).Blank keeper db) :
    ∃ next, TxStep unit hu books (.Truncate size) ((Op.Truncate size).perform bridge db).1 next ∧
      Stands keeper unit next pageCount stored ((Op.Truncate size).perform bridge db).2 := by
  simp only [Op.perform, LocalDatabase.truncate]
  cases hbroken : db.source.broken with
  | some broken =>
      rw [bind_apply, unlessBroken_broken hbroken]
      exact ⟨books, ⟨rfl, Option.some_ne_none _, rfl⟩, h⟩
  | none =>
      rw [bind_apply, unlessBroken, get_bind, hbroken]
      have hclear : Clear stored db.pages (divCeil size db.pages.pageSize) := by
        rw [← keeper.stores (h.linked.holds hbroken)]
        exact hblank hbroken
      have hfile := file_truncate h.sound size hclear
      have hshape := shape_truncate db.pages size
      refine ⟨⟨books.committed, books.working.truncate unit size⟩, ⟨rfl, rfl⟩, h.linked, h.sound.truncate size,
        hshape.pageSize.trans h.size, hshape.perFetch ▸ h.fetches, fun hsame => ?_, ?_, h.committed⟩
      · exact (hshape.size hsame).2.trans (h.count (hshape.size hsame).1)
      · rw [← h.working, ← h.size]
        exact hfile

-- A commit with nothing to send.
theorem Stands.clean (h : Stands keeper unit books pageCount stored db) (hbacked : db.pages.Backed stored)
    (hclean : db.pages.isClean = true) : books.working = .ofBlocks unit pageCount stored := by
  simp only [isClean, Bool.and_eq_true, List.isEmpty_iff, Bool.not_eq_true'] at hclean
  rw [← h.working, Pages.file, h.size, h.count hclean.2]
  refine FlatFile.ofBlocks_congr (h.size ▸ h.sound.pos) fun i hi => ?_
  refine content_of_clean h.sound hbacked (by rw [h.count hclean.2]; exact hi) fun hd => ?_
  rw [← SortedSet.mem_elems, hclean.1] at hd
  cases hd

theorem commitDone_eq (blocks time : Nat) (db : LocalDatabase ω) :
    ∃ stats, commitDone blocks time db = (.ok (), Held.count (Held.makeRoom 0
      { db with stats := stats, pages := db.pages.committed.2 })) := ⟨_, rfl⟩

-- The commit was stored.
theorem Stands.published (h : Stands keeper unit books pageCount stored db) (hbacked : db.pages.Backed stored)
    {after : LocalDatabase ω} (hepoch : after.source.epoch = db.source.epoch)
    (hholds : keeper.Holds db.source.epoch unit db.pages.pageCount
      (overlaid unit db.pages.pageCount db.pages.dirtyBlocks stored) after.source.world)
    (hr : Reloads (overlaid unit db.pages.pageCount db.pages.dirtyBlocks stored) db.pages.committed.2 after.pages) :
    Stands keeper unit ⟨books.working, books.working⟩ db.pages.pageCount
      (overlaid unit db.pages.pageCount db.pages.dirtyBlocks stored) after := by
  have hpublished := published_overlaid db.pages stored
  rw [h.size] at hpublished
  have hsound := h.sound.publish hpublished
  have hfile : books.working = .ofBlocks unit db.pages.pageCount
      (overlaid unit db.pages.pageCount db.pages.dirtyBlocks stored) := by
    rw [← h.working, Pages.file, h.size]
    exact FlatFile.ofBlocks_congr (h.size ▸ h.sound.pos) fun i hi =>
      content_of_published h.sound hbacked hpublished hi
  refine ⟨linked_of_holds rfl (hepoch ▸ hholds), hsound.reloads hr, hr.pageSize.trans h.size,
    hr.perFetch ▸ h.fetches, fun _ => hr.pageCount, ?_, hfile⟩
  rw [file_reloads hsound hr, ← h.working]
  exact FlatFile.ofBlocks_congr h.sound.pos fun i hi => content_publish h.sound hpublished hi

theorem Stands.commit (h : Stands keeper unit books pageCount stored db) (hu : 0 < unit)
    (hblank : db.source.broken = none → Op.Commit.Blank keeper db) :
    ∃ next pageCount' stored', TxStep unit hu books .Commit (Op.Commit.perform bridge db).1 next ∧
      Stands keeper unit next pageCount' stored' (Op.Commit.perform bridge db).2 := by
  simp only [Op.perform, LocalDatabase.commit]
  cases hbroken : db.source.broken with
  | some broken =>
      rw [bind_apply, unlessBroken_broken hbroken]
      exact ⟨books, pageCount, stored, ⟨rfl, Option.some_ne_none _, rfl⟩, h⟩
  | none =>
      have hholds := h.linked.holds hbroken
      have hbacked : db.pages.Backed stored := by
        rw [← keeper.stores hholds]
        exact hblank hbroken
      rw [bind_apply, unlessBroken, get_bind, hbroken]
      dsimp only
      rw [get_bind]
      by_cases hclean : db.pages.isClean = true
      · rw [if_pos hclean]
        have hfile := h.clean hbacked hclean
        exact ⟨⟨books.working, books.working⟩, pageCount, stored, ⟨rfl, rfl⟩, h.linked, h.sound, h.size,
          h.fetches, h.count, h.working, hfile⟩
      · rw [if_neg hclean]
        set started : LocalDatabase ω :=
          { db with source := { db.source with world := (bridge.now db.source.world).2 } } with hstarted
        have hnow : onWorld (fun world => (.ok (bridge.now world).1, (bridge.now world).2)) db =
            ((.ok (bridge.now db.source.world).1, started) : Outcome Broken Nat × LocalDatabase ω) := rfl
        rw [bind_ok _ hnow]
        have hsized : ∀ entry ∈ db.pages.dirtyBlocks, entry.2.length = unit := by
          intro entry hmem
          obtain ⟨index, -, hentry⟩ := List.mem_filterMap.mp hmem
          obtain ⟨data, hdata, rfl⟩ := Option.map_eq_some_iff.mp hentry
          exact (h.sound.sized index data hdata).trans h.size
        have hcommit := keeper.commits db.source.epoch unit pageCount stored db.pages.pageCount
          db.pages.dirtyBlocks hsized started.source.world (keeper.now hholds)
        rw [bind_apply]
        unfold Prog.handle
        have hworld : onWorld (bridge.commit db.source.epoch db.pages.pageCount db.pages.dirtyBlocks) started =
            ((bridge.commit db.source.epoch db.pages.pageCount db.pages.dirtyBlocks started.source.world).1,
              { started with source := { started.source with world :=
                (bridge.commit db.source.epoch db.pages.pageCount db.pages.dirtyBlocks
                  started.source.world).2 } }) := rfl
        rw [hworld]
        generalize bridge.commit db.source.epoch db.pages.pageCount db.pages.dirtyBlocks
          started.source.world = run at hcommit
        obtain ⟨value | refusal | _, world⟩ := run
        · set ended : LocalDatabase ω := { started with source :=
            { started.source with world := (bridge.now world).2 } } with hended
          have hthen : onWorld (fun world => (.ok (bridge.now world).1, (bridge.now world).2))
              { started with source := { started.source with world := world } } =
              ((.ok (bridge.now world).1, ended) : Outcome Broken Nat × LocalDatabase ω) := rfl
          obtain ⟨stats, hdone⟩ := commitDone_eq db.pages.dirtyBlocks.length
            ((bridge.now world).1 - (bridge.now db.source.world).1) ended
          dsimp only
          rw [bind_ok _ hthen, hdone]
          refine ⟨⟨books.working, books.working⟩, db.pages.pageCount, _, ⟨rfl, rfl⟩,
            h.published hbacked rfl (keeper.now hcommit) ?_⟩
          exact Reloads.makeRoom _ _ _
        · refine ⟨books, pageCount, stored, ⟨rfl, Option.some_ne_none _, rfl⟩, ?_⟩
          exact ⟨⟨rfl, hcommit, fun hnone => by cases hnone⟩, h.sound, h.size, h.fetches, h.count, h.working,
            h.committed⟩
        · exact hcommit.elim

theorem Stands.step (h : Stands keeper unit books pageCount stored db) (hu : 0 < unit) (op : Op)
    (hblank : db.source.broken = none → op.Blank keeper db) :
    ∃ next pageCount' stored', TxStep unit hu books op (op.perform bridge db).1 next ∧
      Stands keeper unit next pageCount' stored' (op.perform bridge db).2 := by
  cases op with
  | Read offset length =>
      obtain ⟨next, hstep, hnext⟩ := h.read hu offset length
      exact ⟨next, _, _, hstep, hnext⟩
  | Write offset data =>
      obtain ⟨next, hstep, hnext⟩ := h.write hu offset data hblank
      exact ⟨next, _, _, hstep, hnext⟩
  | Truncate size =>
      obtain ⟨next, hstep, hnext⟩ := h.truncate hu size hblank
      exact ⟨next, _, _, hstep, hnext⟩
  | Commit => exact h.commit hu hblank

-- The operations in their order, each with its outcome.
def trace (bridge : LocalBridge ω) : List Op → LocalDatabase ω →
    List (Op × Outcome Broken Pages.Answer) × LocalDatabase ω
  | [], db => ([], db)
  | op :: ops, db =>
    let (o, db) := op.perform bridge db
    let (rest, db) := trace bridge ops db
    ((op, o) :: rest, db)

def Blanks (keeper : Keeper bridge) : List Op → LocalDatabase ω → Prop
  | [], _ => True
  | op :: ops, db =>
    (db.source.broken = none → op.Blank keeper db) ∧ Blanks keeper ops (op.perform bridge db).2

-- A run of a file with transactions.
inductive TxRun (unit : Nat) (hu : 0 < unit) : Books → List (Op × Outcome Broken Pages.Answer) → Books → Prop
  | nil (books : Books) : TxRun unit hu books [] books
  | cons {books next last : Books} {op : Op} {o : Outcome Broken Pages.Answer}
      {rest : List (Op × Outcome Broken Pages.Answer)} (step : TxStep unit hu books op o next)
      (run : TxRun unit hu next rest last) : TxRun unit hu books ((op, o) :: rest) last

theorem Stands.trace (ops : List Op) (h : Stands keeper unit books pageCount stored db) (hu : 0 < unit)
    (hblank : Blanks keeper ops db) :
    ∃ last pageCount' stored', TxRun unit hu books (LocalDatabase.trace bridge ops db).1 last ∧
      Stands keeper unit last pageCount' stored' (LocalDatabase.trace bridge ops db).2 := by
  induction ops generalizing books pageCount stored db with
  | nil => exact ⟨books, pageCount, stored, .nil books, h⟩
  | cons op ops ih =>
      obtain ⟨next, count, blocks, hstep, hnext⟩ := h.step hu op hblank.1
      obtain ⟨last, count', blocks', hrun, hlast⟩ := ih hnext hblank.2
      exact ⟨last, count', blocks', .cons hstep hrun, hlast⟩

-- A database that has just been opened shows what is stored.
theorem stands_of_clean {load : Load ω} {pages : Pages} {stats : Stats}
    (hlinked : Linked keeper load.epoch unit pageCount stored load) (hs : Sound stored pages)
    (hsize : pages.pageSize = unit) (hfetches : Fetches pages.blocksPerFetch)
    (hcount : pages.pageCount = pageCount) (hclean : ∀ i, i ∉ pages.dirty)
    (hbacked : pages.Backed stored) :
    Stands keeper unit ⟨.ofBlocks unit pageCount stored, .ofBlocks unit pageCount stored⟩ pageCount stored
      ⟨pages, stats, load⟩ := by
  refine ⟨hlinked, hs, hsize, hfetches, fun _ => hcount, ?_, rfl⟩
  change FlatFile.ofBlocks _ _ _ = _
  rw [hsize, hcount]
  exact FlatFile.ofBlocks_congr (hsize ▸ hs.pos) fun i hi =>
    content_of_clean hs hbacked (hcount.symm ▸ hi) (hclean i)

-- The first blocks were loaded, and all of them if none is loaded later.
def Preloaded (stored : Nat → Bytes) (fresh pages : Pages) : Prop :=
  ∃ count ≤ fresh.pageCount, pages = fresh.keepAll (loadRun stored 0 count) ∧
    (fresh.whole = true → count = fresh.pageCount)

theorem preload_spec (hsized : ∀ i, (stored i).length = unit) {loaded : LocalDatabase ω}
    (hlinked : Linked keeper epoch unit pageCount stored db.source) (hsize : db.pages.pageSize = unit)
    (hrun : (if !db.pages.onDemand && decide (0 < db.pages.pageCount) then
      Load.fill bridge 0 db.pages.pageCount db else (.ok (), db)) = (.ok (), loaded)) :
    Linked keeper epoch unit pageCount stored loaded.source ∧ Preloaded stored db.pages loaded.pages := by
  split_ifs at hrun with hpreload
  · have hfill := fill_spec hsized db.pages hsize 0 db.pages.pageCount db ⟨hlinked, rfl⟩
    rw [hrun] at hfill
    obtain ⟨count, hle, ⟨hafter, hpages⟩, hall⟩ := hfill
    exact ⟨hafter, count, hle, hpages, fun _ => hall⟩
  · cases hrun
    refine ⟨hlinked, 0, Nat.zero_le _, rfl, fun hwhole => ?_⟩
    have hdemand : db.pages.onDemand = false := by
      rw [Pages.whole, Bool.and_eq_true, Option.isNone_iff_eq_none] at hwhole
      simp [Pages.onDemand, hwhole.1]
    have hzero : ¬0 < db.pages.pageCount := by simpa [hdemand] using hpreload
    exact (Nat.eq_zero_of_not_pos hzero).symm

theorem Preloaded.sound {fresh pages : Pages} (h : Preloaded stored fresh pages) (hs : Sound stored fresh) :
    Sound stored pages := by
  obtain ⟨count, hle, rfl, -⟩ := h
  refine hs.keepAll fun entry hentry => ?_
  obtain ⟨hdata, -, hbelow⟩ := mem_loadRun.mp hentry
  exact ⟨hdata, by omega⟩

theorem Preloaded.backed {fresh pages : Pages} (h : Preloaded stored fresh pages) : pages.Backed stored := by
  obtain ⟨count, hle, rfl, hall⟩ := h
  intro hwhole i hi hnone
  have hshape := shape_keepAll fresh (loadRun stored 0 count)
  rw [Pages.whole, hshape.perFetch, hshape.cap] at hwhole
  rw [(keepAll_same _).2, ← hall hwhole] at hi
  refine absurd hnone ((block_keepAll_ne_none _ _ _).mpr (Or.inr ⟨stored i, mem_loadRun.mpr ?_⟩))
  exact ⟨rfl, Nat.zero_le _, by omega⟩

-- Without a memory limit nothing is evicted.
theorem backed_reloads {pages after : Pages} (h : pages.Backed stored) (hr : Reloads stored pages after) :
    after.Backed stored := by
  intro hwhole i hi hnone
  rw [hr.whole] at hwhole
  rw [hr.pageCount] at hi
  rw [hr.pageSize]
  rcases hr.block i with hsame | ⟨-, hlimited, -⟩
  · exact h hwhole i hi (hsame ▸ hnone)
  · rw [hwhole] at hlimited
    cases hlimited

-- `opening` returns a database only if a preload is complete.
theorem stands_opening {options : LocalOptions} {opened : LocalOpened} {desk desk' : Desk ω}
    (hholds : keeper.Holds opened.epoch opened.pageSize opened.pageCount stored desk.world)
    (hpos : 0 < opened.pageSize) (hperFetch : Fetches options.blocksPerFetch)
    (hopen : opening bridge options opened desk = (.ok db, desk')) :
    db.pages.pageSize = opened.pageSize ∧
      keeper.shown db.source.world = .ofBlocks opened.pageSize opened.pageCount stored ∧
      Stands keeper opened.pageSize ⟨.ofBlocks opened.pageSize opened.pageCount stored,
        .ofBlocks opened.pageSize opened.pageCount stored⟩ opened.pageCount stored db := by
  set fresh := Pages.new opened.pageSize opened.pageCount options.blocksPerFetch options.cap with hfresh
  set first : LocalDatabase ω := ⟨fresh, desk.stats, ⟨opened.epoch, none, desk.world⟩⟩ with hfirst
  have hsized := keeper.sized hholds
  have hlinked : Linked keeper opened.epoch opened.pageSize opened.pageCount stored first.source :=
    linked_of_holds rfl hholds
  have hsound : Sound stored fresh := Sound.new hpos hsized
  have hloaded := fun loaded => @preload_spec _ _ keeper _ _ _ _ first hsized loaded hlinked rfl
  rw [opening] at hopen
  dsimp only at hopen
  generalize (if !first.pages.onDemand && decide (0 < first.pages.pageCount) then
    Load.fill bridge 0 first.pages.pageCount first else (.ok (), first)) = run at hloaded hopen
  obtain ⟨value | reason | _, loaded⟩ := run
  · obtain ⟨hafter, hpre⟩ := hloaded loaded rfl
    cases hopen
    have hroom : Reloads stored loaded.pages (Held.makeRoom 0 loaded).pages := Reloads.makeRoom _ _ _
    have hkept : loaded.pages.dirty = fresh.dirty ∧ loaded.pages.pageCount = fresh.pageCount ∧
        SameShape fresh loaded.pages := by
      obtain ⟨count, -, hpages, -⟩ := hpre
      rw [hpages]
      exact ⟨(keepAll_same _).1, (keepAll_same _).2, shape_keepAll _ _⟩
    obtain ⟨hdirty, hcount, hshape⟩ := hkept
    have hsize := hroom.pageSize.trans hshape.pageSize
    have hfetches : Fetches (Held.makeRoom 0 loaded).pages.blocksPerFetch := by
      rw [hroom.perFetch, hshape.perFetch]
      exact hperFetch
    refine ⟨hsize, hafter.shown, stands_of_clean (hafter.same.symm ▸ hafter)
      ((hpre.sound hsound).reloads hroom) hsize hfetches (hroom.pageCount.trans hcount)
      (fun i => ?_) (backed_reloads hpre.backed hroom)⟩
    rw [hroom.dirty, hdirty]
    exact SortedSet.notMem_empty i
  · cases hopen
  · cases hopen

-- The database that `open` returns, and what the operations on it do until its end.
theorem openOn_trace {name : String} {options : LocalOptions} {desk desk' : Desk ω}
    (hfree : keeper.Free desk.world) (htakeover : options.takeover = false)
    (hperFetch : Fetches options.blocksPerFetch)
    (hopen : openOn bridge name options desk = (.ok db, desk')) (ops : List Op)
    (hblank : Blanks keeper ops db) :
    ∃ hu : 0 < db.pages.pageSize, ∃ last,
      TxRun db.pages.pageSize hu ⟨keeper.shown db.source.world, keeper.shown db.source.world⟩
        (LocalDatabase.trace bridge ops db).1 last ∧
      keeper.shown (LocalDatabase.trace bridge ops db).2.source.world = last.committed := by
  have hworld := keeper.opens name options.pageSize options.create desk.world hfree
  rw [openOn, htakeover, bind_apply] at hopen
  unfold Prog.zoom at hopen
  generalize bridge.openDatabase name options.pageSize options.create false desk.world = run at hworld hopen
  obtain ⟨opened | refusal | _, world⟩ := run
  · obtain ⟨stored, hholds⟩ := hworld opened rfl
    dsimp only at hopen
    split_ifs at hopen with hhead
    · cases hopen
    · have hpos : 0 < opened.pageSize := by omega
      have hdesk : keeper.Holds opened.epoch opened.pageSize opened.pageCount stored
          (Desk.mk desk.stats world).world := hholds
      obtain ⟨hsize, hshown, hstands⟩ := stands_opening hdesk hpos hperFetch hopen
      rw [hsize, hshown]
      obtain ⟨last, count, blocks, hrun, hlast⟩ := hstands.trace ops hpos hblank
      exact ⟨hpos, last, hrun, hlast.linked.shown.trans hlast.committed.symm⟩
  · cases hopen
  · cases hopen

end LocalDatabase

end RemoteVfs
