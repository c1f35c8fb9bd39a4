import RemoteVfs.Loads
import RemoteVfs.Session.Copy

namespace RemoteVfs

open Base Base.Prog Link Pages

namespace Pages

variable {image : Image} {before after : Pages}

-- Pages that hold nothing but blocks of the image.
structure Stocked (image : Image) (before after : Pages) : Prop where
  sound : Sound image.block after
  clean : after.dirty = .empty
  count : after.pageCount = before.pageCount
  shape : SameShape before after

theorem Stocked.block (h : Stocked image before after) {i : Nat} {data : Bytes}
    (hdata : after.block i = some data) : data = image.block i :=
  h.sound.clean i data (by rw [h.clean]; exact SortedSet.notMem_empty i) hdata

theorem Stocked.keepAll (h : Stocked image before after) {loaded : List (Nat × Bytes)}
    (hloaded : ∀ entry ∈ loaded, entry.2 = image.block entry.1 ∧ entry.1 < before.pageCount) :
    Stocked image before (after.keepAll loaded) := by
  obtain ⟨hdirty, hcount⟩ := keepAll_same (a := after) loaded
  refine ⟨h.sound.keepAll fun entry hentry => ?_, hdirty.trans h.clean, hcount.trans h.count,
    h.shape.trans (shape_keepAll _ _)⟩
  rw [h.count]
  exact hloaded entry hentry

end Pages

namespace Remote

open Database

variable (setup : Net.Setup) {start : Database Net} {ε : Type}

theorem loads_stops {α : Type} {body : Prog (Database Net) ε α} {pre keep : Database Net → Prop}
    {good : α → Database Net → Prop} (h : Triple pre body (Stops keep good))
    (hmoves : Moves (Loaded NoCommit) body) :
    Triple (fun db => Loads NoCommit start db ∧ pre db) body
      (Stops (fun db => Loads NoCommit start db ∧ keep db) fun value db =>
        Loads NoCommit start db ∧ good value db) := by
  rintro db ⟨hloads, hpre⟩
  have hspec := h db hpre
  have hafter := hloads.trans (hmoves db hloads.link.ready)
  generalize body db = run at hspec hafter ⊢
  rcases run with ⟨value | reason | _, after⟩
  · exact ⟨hafter, hspec⟩
  · exact ⟨hafter, hspec⟩
  · exact hspec

-- Blocks were loaded since `start`: those in memory meet `K`, and the disk meets `G` as long as the
-- copy is in use, and `T` at all times.
structure Stock (start : Database Net) (K : Pages → Prop) (T G : Disk → Prop) (db : Database Net) :
    Prop where
  loads : Loads NoCommit start db
  pages : K db.pages
  copy : CopyHolds setup T G db

-- What makes taking the copy keep all of this, if the disk meets `F` before: `K` allows the server's
-- blocks and those of a copy that meets `G`, and a copy meets `G` once it is at the client's version.
structure Supply (start : Database Net) (K : Pages → Prop) (T F G : Disk → Prop) : Prop where
  ready : start.source.link.Ready NoCommit
  version : start.remote.version ≤ start.world.server.version
  fits : start.pages.pageCount ≤ 2 ^ 64
  blank : K start.pages
  count : ∀ pages, K pages → pages.pageCount = start.pages.pageCount
  fetched : ∀ pages blocks, K pages → (∀ entry ∈ blocks,
    entry.2 = start.image.block entry.1 ∧ entry.1 < start.pages.pageCount) → K (pages.keepAll blocks)
  copied : ∀ pages first (blocks : List Bytes), K pages → first + blocks.length ≤ start.pages.pageCount →
    Disk.Shown G first blocks →
    K (pages.keepAll (blocks.mapIdx fun offset data => (first + offset, data)))
  allows : Disk.Allows T G
  before : ∀ disk, F disk → T disk
  empty : G .empty
  write : ∀ pages (indexes : List Nat) disk, K pages → G disk → G (disk.write (start.remote.copyHead pages)
    (indexes.filterMap fun index => (pages.block index).map (index, ·)))
  current : ∀ disk head, F disk → disk.head = some head →
    usable start.remote start.pages head = true → head.version = start.remote.version → G disk
  behind : ∀ disk head changes server, F disk → disk.head = some head →
    usable start.remote start.pages head = true → start.world.server.Extends server →
    server.ChangesAt ⟨start.remote.dbId, head.version⟩ changes → changes.complete = true →
    changes.toVersion = start.remote.version →
    G (disk.forget (start.remote.copyHead start.pages) changes.blocks)

variable {K : Pages → Prop} {T F G : Disk → Prop} {db after : Database Net} {setup}

theorem Stock.imp (h : Stock setup start K T G db) (hGF : ∀ disk, G disk → F disk) :
    Stock setup start K T F db :=
  ⟨h.loads, h.pages, LocalCopy.Holds.imp h.copy (fun _ h => h) hGF⟩

theorem Stock.of_same (h : Stock setup start K T G db) (hpages : after.pages = db.pages)
    (hsource : after.source = db.source) : Stock setup start K T G after := by
  obtain ⟨pages, stats, source⟩ := after
  subst hpages hsource
  exact ⟨⟨h.loads.link, h.loads.remote, h.loads.broken, h.loads.shape⟩, h.pages, h.copy⟩

theorem Stock.keepAll (h : Stock setup start K T G db) {loaded : List (Nat × Bytes)}
    (hloaded : K (db.pages.keepAll loaded)) {stats : Stats} :
    Stock setup start K T G (Held.mapPages (Pages.keepAll · loaded) { db with stats := stats }) :=
  ⟨⟨h.loads.link, h.loads.remote, h.loads.broken, h.loads.shape.trans (shape_keepAll _ _)⟩, hloaded, h.copy⟩

-- A copy that is not used any more may hold anything.
theorem Stock.dropCopy (hloads : Loads NoCommit start after) (hpages : K after.pages)
    (hdisk : T after.world.disk) :
    Stock setup start K T G ((Remote.dropCopy : Prog (Database Net) ε Unit) after).2 :=
  ⟨hloads.trans (dropCopy_loaded after hloads.link.ready), hpages, hdisk⟩

theorem preloadStep_stock (h : Supply start K T F G) (first : Nat) :
    Moves (Carries (Stock setup start K T G))
      (preloadStep (Net.env setup) first : Prog (Database Net) ε (Nat ⊕ Bool)) := by
  intro db hstock
  unfold preloadStep
  rw [get_bind]
  split_ifs with hend
  · exact hstock
  rw [h.count _ hstock.pages] at hend ⊢
  generalize hblocks : min (blocksPerRead db.pages.pageSize) (start.pages.pageCount - first) = blocks
  have hread := readCopy_spec setup h.allows first blocks db ⟨rfl, rfl, hstock.copy⟩
  have hmoved := onWorld_loaded (P := NoCommit) ((Net.storeMoves setup).copyRead db.remote.copy first blocks)
    db hstock.loads.link.ready
  dsimp only
  rw [bind_apply]
  unfold Prog.attempt
  generalize onWorld (db.remote.copy.read (Net.env setup) first blocks) db = run at hread hmoved ⊢
  rcases run with ⟨⟨read, copy⟩ | reason | _, after⟩
  · obtain ⟨hpages, -, hholds, -, hshown⟩ := hread
    change after.pages = db.pages at hpages
    have hloads := hstock.loads.trans hmoved
    have hset : Stock setup start K T G (after.mapRemote fun remote => { remote with copy := copy }) :=
      ⟨hloads.trans (setCopy_loaded (ε := ε) copy after hloads.link.ready), hpages ▸ hstock.pages, hholds⟩
    dsimp only
    unfold setCopy
    rw [modify_bind]
    split_ifs with hfull
    · exact hset.of_same rfl rfl
    · have hbelow : first + read.length ≤ start.pages.pageCount := by
        rw [not_not] at hfull
        omega
      exact (hset.keepAll (h.copied _ _ _ hset.pages hbelow hshown)).of_same rfl rfl
  · obtain ⟨hpages, -, hdisk⟩ := hread
    exact Stock.dropCopy (ε := ε) (hstock.loads.trans hmoved) (hpages ▸ hstock.pages) hdisk
  · exact hread.elim

theorem useCopy_stock (h : Supply start K T F G) :
    Moves (Carries (Stock setup start K T G)) (useCopy (Net.env setup) : Prog (Database Net) ε Bool) := by
  refine Moves.bind (Moves.gets _) fun db => Moves.ite (Moves.pure _) ?_
  refine Moves.bind (Moves.gets _) fun db => ?_
  refine Moves.bind (Moves.loop (preloadStep_stock h) _ _) fun loaded => ?_
  exact Moves.ite (Moves.bind (fun _ h => h.of_same rfl rfl) fun _ => Moves.pure _) (Moves.pure _)

-- The copy cannot be brought to the client's version.
structure Stale (start : Database Net) (K : Pages → Prop) (T : Disk → Prop) (db : Database Net) : Prop where
  loads : Loads NoCommit start db
  pages : K db.pages
  copy : db.remote.copy = .Ready ∨ db.remote.copy = .None
  disk : T db.world.disk

theorem giveCopyUp_stock (hempty : G .empty) :
    Triple (Stale start K T) (giveCopyUp (Net.env setup) : Prog (Database Net) ε Bool)
      (Returns fun _ => Stock setup start K T G) := by
  refine Stops.bind (fun db h => ?_) fun _ _ h => h
  unfold forgetCopy
  rw [get_bind]
  rcases h.copy with hcopy | hcopy
  · rw [hcopy]
    refine Stops.bind (Stops.attempt (loads_stops clearCopy_spec (onWorld_loaded Net.quiet_clear))) ?_
      db ⟨h.loads, rfl, rfl, h.disk⟩
    rintro (_ | _)
    · rintro after ⟨hloads, hstate⟩
      exact Stock.dropCopy (ε := ε) hloads (hstate.pages ▸ h.pages) hstate.disk
    · rintro after ⟨hloads, hstate⟩
      have hholds : CopyHolds setup T G after := by
        rw [CopyHolds, hstate.remote, hcopy, hstate.disk]
        exact hempty
      exact ⟨hloads, hstate.pages ▸ h.pages, hholds⟩
  · rw [hcopy]
    have hholds : CopyHolds setup T G db := by
      rw [CopyHolds, hcopy]
      exact h.disk
    exact ⟨h.loads, h.pages, hholds⟩

theorem kept_any {D : Disk → Disk → Prop} {before after : Link Net} (h : Kept NoCommit D before after) :
    Kept NoCommit AnyDisk before after := ⟨h.ready, h.later, h.sent, trivial⟩

-- Talking to the server leaves the blocks and the copy alone.
theorem onLink_loads {α : Type} {body : Prog (Link Net) ε α} {good : α → Link Net → Prop}
    (hloads : Loads NoCommit start db)
    (h : Triple (Kept NoCommit Eq db.source.link) body (Ends (Kept NoCommit Eq db.source.link) good)) :
    Ends (fun after => Loads NoCommit start after ∧ after.pages = db.pages ∧ after.remote = db.remote ∧
        after.world.disk = db.world.disk) (fun value after => good value after.source.link)
      (onLink body db).1 (onLink body db).2 := by
  obtain ⟨hkept, hgood⟩ := h db.source.link (Kept.refl hloads.link.ready)
  have hdisk : db.world.disk = _ := hkept.disk
  exact ⟨⟨hloads.trans (.of_remote (kept_any hkept) rfl (SameShape.refl _)), rfl, rfl, hdisk.symm⟩, hgood⟩

theorem stock_onLink {α : Type} {body : Prog (Link Net) ε α} {good : α → Link Net → Prop}
    (h : ∀ link, Triple (Kept NoCommit Eq link) body (Ends (Kept NoCommit Eq link) good)) :
    Triple (Stock setup start K T G) (onLink body)
      (Ends (Stock setup start K T G) fun value db => good value db.source.link) := by
  intro db hdb
  obtain ⟨⟨hloads, hpages, hremote, hdisk⟩, hgood⟩ := onLink_loads hdb.loads (h db.source.link)
  have hholds : CopyHolds setup T G (onLink body db).2 := by
    rw [CopyHolds, hremote, hdisk]
    exact hdb.copy
  exact ⟨⟨hloads, hpages ▸ hdb.pages, hholds⟩, hgood⟩

theorem stock_now :
    Triple (Stock setup start K T G) (onLink (Client.now (Net.env setup)) : Prog (Database Net) ε Nat)
      (Ends (Stock setup start K T G) fun _ _ => True) :=
  (stock_onLink fun link => (Kept.triple (now_moved setup) link lasting_true).mono
    (fun _ h => ⟨h, trivial⟩) fun _ _ h => h).mono (fun _ h => h) fun o _ h => ⟨h.1, by cases o <;> trivial⟩

theorem stock_writeCopy (h : Supply start K T F G) (indexes : List Nat) :
    Moves (Carries (Stock setup start K T G))
      (writeCopy (Net.env setup) indexes : Prog (Database Net) ε Unit) := by
  intro db hstock
  have hhead : db.remote.copyHead db.pages = start.remote.copyHead db.pages := by
    obtain ⟨login, broken, copy, hremote⟩ := hstock.loads.remote
    rw [hremote]
    rfl
  have hwrite := writeCopy_spec (ε := ε) (G := G) setup h.allows h.allows h.empty indexes (fun _ _ h => h)
    (fun disk hdisk => hhead ▸ h.write _ indexes disk hstock.pages hdisk) db ⟨rfl, rfl, hstock.copy⟩
  have hloads := hstock.loads.trans (writeCopy_loaded (ε := ε) setup indexes db hstock.loads.link.ready)
  generalize writeCopy (Net.env setup) indexes db = run at hwrite hloads ⊢
  rcases run with ⟨_ | _ | _, last⟩
  · exact ⟨hloads, hwrite.1 ▸ hstock.pages, hwrite.2⟩
  · exact hwrite.elim
  · exact hwrite.elim

theorem mem_slices {image : Image} {ranges : List (Nat × Nat)} {pageCount : Nat} {entry : Nat × Bytes}
    (hbelow : ∀ range ∈ ranges, range.1 + range.2 ≤ pageCount) (h : entry ∈ image.slices ranges) :
    entry.2 = image.block entry.1 ∧ entry.1 < pageCount := by
  unfold Image.slices at h
  simp only [List.mem_flatMap, List.mem_map, List.mem_range'_1] at h
  obtain ⟨range, hrange, i, hi, rfl⟩ := h
  have := hbelow range hrange
  exact ⟨rfl, by omega⟩

-- The ranges of a catch-up end at the page count.
theorem below_of_clipped {runs : List (Nat × Nat)} {pageCount : Nat} {range : Nat × Nat}
    (h : range ∈ runs.filterMap fun range =>
      if 0 < min range.2 (pageCount - range.1) then some (range.1, min range.2 (pageCount - range.1))
      else none) : range.1 + range.2 ≤ pageCount := by
  obtain ⟨run, -, hrun⟩ := List.mem_filterMap.mp h
  split_ifs at hrun
  cases hrun
  dsimp only
  omega

-- The blocks that the copy has forgotten are fetched and written to it.
theorem refetch_stock (h : Supply start K T F G) {ranges : List (Nat × Nat)} (hne : ranges ≠ [])
    (hbelow : ∀ range ∈ ranges, range.1 + range.2 ≤ start.pages.pageCount) (dbId : String)
    (blockSize : Nat) :
    Triple (Stock setup start K T G)
      (do
        let started ← onLink (Client.now (Net.env setup))
        let blocks ← onLink (Client.fetchRanges (Net.env setup) dbId start.remote.version ranges blockSize)
        let ended ← onLink (Client.now (Net.env setup))
        count fun stats =>
          { stats with
            fetches := stats.fetches + 1
            fetchedBlocks := stats.fetchedBlocks + blocks.length
            fetchTime := stats.fetchTime + (ended - started) }
        Prog.modify (Held.mapPages (Pages.keepAll · blocks))
        writeCopy (Net.env setup) (blocks.map Prod.fst)
        return true : Prog (Database Net) ClientError Bool)
      (Ends (Stock setup start K T G) fun caught _ => caught = true) := by
  refine Ends.bind stock_now fun started => ?_
  refine Ends.bind ((stock_onLink fun link => (fetchRanges_spec setup link lasting_true dbId
    start.remote.version ranges hne (fun range hrange => (hbelow range hrange).trans h.fits) blockSize).mono
    (fun _ h => ⟨h, trivial⟩) fun _ _ h => h).mono (fun _ h => h.1) fun _ _ h => h) ?_
  rintro blocks db ⟨hstock, -, -, rfl⟩
  have hlater : db.source.link.world.server.imageAt start.remote.version = start.image :=
    hstock.loads.link.later.ext.imageAt h.version
  rw [hlater]
  refine Ends.bind stock_now (fun ended => ?_) db hstock
  rintro last ⟨hlast, -⟩
  rw [Database.count, modify_bind, modify_bind]
  refine Ends.bind (Carries.ends (stock_writeCopy h _) fun _ h => h) ?_ _
    (hlast.keepAll (h.fetched _ _ hlast.pages fun entry hentry => mem_slices hbelow hentry))
  exact fun _ _ h => ⟨h.1, rfl⟩

-- A copy at an earlier version loses the blocks that have changed since.
theorem coherent_forget {disk : Disk} {behind : Head} {changes : Pb.Changes} {server : Server}
    (hversion : start.remote.version ≤ start.world.server.version)
    (hstable : start.pages.stablePageCount ≤ start.image.pageCount)
    (hext : start.world.server.Extends server) (hdisk : start.trusted disk)
    (hhead : disk.head = some behind) (hsubject : behind.subject = start.remote.subject)
    (hdbId : behind.dbId = start.remote.dbId)
    (hchanges : server.ChangesAt ⟨start.remote.dbId, behind.version⟩ changes)
    (hcomplete : changes.complete = true) (hto : changes.toVersion = start.remote.version) :
    start.coherent (disk.forget (start.remote.copyHead start.pages) changes.blocks) := by
  refine coherent_of_exact hversion rfl rfl fun i data hheld => ?_
  rw [Disk.holds_forget] at hheld
  split_ifs at hheld with hi
  obtain ⟨hreached, hexact⟩ := hdisk behind hhead hsubject hdbId
  have hlt : i < start.pages.stablePageCount := hi.1
  have hcovers := hchanges.covers hcomplete i
  rw [hto, hext.imageAt hversion, hext.imageAt hreached] at hcovers
  rcases hcovers (Nat.lt_of_lt_of_le hlt hstable) with hsame | hchanged
  · rw [hexact i data hheld]
    exact hsame
  · exact absurd hchanged hi.2

-- What `catch_copy_up` leaves behind.
def Caught (setup : Net.Setup) (start : Database Net) (K : Pages → Prop) (T G : Disk → Prop) :
    Bool → Database Net → Prop
  | true, db => Stock setup start K T G db
  | false, db => Stale start K T db

theorem catchCopyUp_stock (h : Supply start K T F G) (hcopy : start.remote.copy = .Ready) {behind : Head}
    (husable : usable start.remote start.pages behind = true)
    (hbehind : behind.version ≤ start.remote.version) :
    Triple (fun db => Loads NoCommit start db ∧ OnDisk start.pages start.remote
        (fun disk => F disk ∧ disk.head = some behind) db)
      (catchCopyUp (Net.env setup) behind)
      (Ends (Stock setup start K T fun disk => F disk ∨ G disk) (Caught setup start K T G)) := by
  rintro db ⟨hloads, hpages, hremote, hdisk, hhead⟩
  unfold catchCopyUp
  rw [get_bind, hpages, hremote]
  have hchanges := onLink_loads hloads (changes_spec setup db.source.link start.remote.dbId
    (hbehind.trans (h.version.trans hloads.link.later.ext.version_le)))
  rw [bind_apply]
  generalize onLink (Client.changes (Net.env setup) start.remote.dbId behind.version) db = run
    at hchanges ⊢
  obtain ⟨result, (mid : Database Net)⟩ := run
  obtain ⟨⟨hloadsMid, hpagesMid, hremoteMid, hdiskMid⟩, hat⟩ := hchanges
  change mid.pages = db.pages at hpagesMid
  change mid.remote = db.remote at hremoteMid
  change mid.world.disk = db.world.disk at hdiskMid
  rw [hpages] at hpagesMid
  rw [hremote] at hremoteMid
  have hcopyMid : mid.remote.copy = .Ready := (congrArg Remote.copy hremoteMid).trans hcopy
  have hasked : Stock setup start K T (fun disk => F disk ∨ G disk) mid := by
    refine ⟨hloadsMid, hpagesMid ▸ h.blank, ?_⟩
    rw [CopyHolds, hcopyMid, hdiskMid]
    exact Or.inl hdisk
  cases result with
  | err reason => exact ⟨hasked, trivial⟩
  | hang => exact ⟨hasked, trivial⟩
  | ok changes =>
      have hstale : Stale start K T mid :=
        ⟨hloadsMid, hasked.pages, Or.inl hcopyMid, by rw [hdiskMid]; exact h.before _ hdisk⟩
      dsimp only
      generalize hranges : ((runs changes.blocks).filterMap fun range =>
        if 0 < min range.2 (start.pages.pageCount - range.1) then
          some (range.1, min range.2 (start.pages.pageCount - range.1)) else none) = ranges
      split
      · exact ⟨hasked, hstale⟩
      rename_i hincomplete
      split
      · exact ⟨hasked, hstale⟩
      rw [Bool.or_eq_true, not_or, Bool.not_eq_true', decide_eq_true_eq, not_not, Bool.not_eq_false]
        at hincomplete
      rw [hcopy]
      have hforgotten := loads_stops (forgetBlocks_spec (I := fun disk => F disk ∧ disk.head = some behind)
        setup h.allows (fun disk hdisk => h.before disk hdisk.1) fun disk hdisk =>
          h.behind disk behind changes _ hdisk.1 hdisk.2 husable hloadsMid.link.later.ext hat hincomplete.1
            hincomplete.2) (onWorld_loaded ((Net.storeMoves setup).catchUp _ _ _)) mid
        ⟨hloadsMid, hpagesMid, hremoteMid, by rw [hdiskMid]; exact ⟨hdisk, hhead⟩⟩
      rw [bind_apply]
      unfold Prog.attempt
      generalize onWorld (LocalCopy.Ready.catchUp (Net.env setup) (start.remote.copyHead start.pages)
        changes.blocks) mid = run at hforgotten ⊢
      rcases run with ⟨_ | _ | _, after⟩
      · obtain ⟨hloadsAfter, hafter⟩ := hforgotten
        have hstock : Stock setup start K T G after := by
          refine ⟨hloadsAfter, hafter.pages ▸ h.blank, ?_⟩
          rw [CopyHolds, hafter.remote, hcopy]
          exact hafter.disk
        dsimp only
        unfold Database.count
        rw [modify_bind]
        split
        · rename_i hwanted
          have hne : ranges ≠ [] := by
            rintro rfl
            simp at hwanted
          refine Triple.mono (refetch_stock h hne (fun _ hrange => below_of_clipped (hranges ▸ hrange)) _ _)
            (fun _ h => h) (fun o last hends => ⟨hends.1.imp fun _ => Or.inr, ?_⟩) _ (hstock.of_same rfl rfl)
          cases o with
          | err reason => trivial
          | hang => trivial
          | ok caught =>
              have htrue : caught = true := hends.2
              rw [htrue]
              exact hends.1
        · exact Triple.pure (fun s (h : Stock setup start K T G s) => ⟨h.imp fun _ => Or.inr, h⟩) _
            (hstock.of_same rfl rfl)
      · obtain ⟨hloadsAfter, hafter⟩ := hforgotten
        have hdropped : Stock setup start K T (fun disk => F disk ∨ G disk) _ :=
          Stock.dropCopy (ε := ClientError) hloadsAfter (hafter.pages ▸ h.blank) hafter.disk
        exact ⟨hdropped, hdropped.loads, hdropped.pages, Or.inr rfl, hdropped.copy⟩
      · exact hforgotten.elim

-- A copy that has not been written yet is brought to the client's version, or given up.
theorem takeCopy_stock (setup : Net.Setup) (h : Supply start K T F G) (hcopy : start.remote.copy = .Ready)
    (hdisk : F start.world.disk) :
    Ends (Stock setup start K T fun disk => F disk ∨ G disk) (fun _ => Stock setup start K T G)
      (takeCopy (Net.env setup) start).1 (takeCopy (Net.env setup) start).2 := by
  have hready : Loads NoCommit start start := .of_remote (Kept.refl h.ready) rfl (SameShape.refl _)
  have huse : Triple (Stock setup start K T G)
      (useCopy (Net.env setup) : Prog (Database Net) ClientError Bool)
      (Ends (Stock setup start K T fun disk => F disk ∨ G disk) fun _ => Stock setup start K T G) :=
    Moves.triple (useCopy_stock h) fun _ o _ h hcarries => ⟨(hcarries h).imp fun _ => Or.inr, by
      cases o with
      | ok value => exact hcarries h
      | err reason => trivial
      | hang => trivial⟩
  have hgive : Triple (Stale start K T)
      (giveCopyUp (Net.env setup) : Prog (Database Net) ClientError Bool)
      (Ends (Stock setup start K T fun disk => F disk ∨ G disk) fun _ => Stock setup start K T G) :=
    (giveCopyUp_stock h.empty).mono (fun _ h => h) fun o _ h => by
      cases o with
      | ok value => exact ⟨h.imp fun _ => Or.inr, h⟩
      | err reason => exact h.elim
      | hang => exact h.elim
  unfold takeCopy
  rw [get_bind, if_neg (by simp [hcopy])]
  refine Stops.followed (Stops.attempt (loads_stops headCopy_spec (onWorld_loaded Net.quiet_head))) ?_
    start ⟨hready, rfl, rfl, hdisk⟩
  rintro (_ | head)
  · rintro db ⟨hloads, hdb⟩
    have hdropped : ∀ G, Stock setup start K T G
        ((Remote.dropCopy : Prog (Database Net) ClientError Unit) db).2 :=
      fun _ => Stock.dropCopy hloads (hdb.pages ▸ h.blank) (h.before _ hdb.disk)
    exact ⟨hdropped _, hdropped _⟩
  rintro db ⟨hloads, hdb⟩
  have hcopyDb : db.remote.copy = .Ready := (congrArg Remote.copy hdb.remote).trans hcopy
  have hholds : ∀ {P : Disk → Prop}, P db.world.disk → CopyHolds setup T P db := fun hmeets => by
    rw [CopyHolds, hcopyDb]
    exact hmeets
  have hstale : Stale start K T db :=
    ⟨hloads, hdb.pages ▸ h.blank, Or.inl hcopyDb, h.before _ hdb.disk.1⟩
  dsimp only
  cases hfilter : head.filter (usable start.remote start.pages) with
  | none => exact hgive db hstale
  | some behind =>
      obtain ⟨rfl, husable⟩ := Option.filter_eq_some_iff.mp hfilter
      dsimp only
      split_ifs with hahead hbehind
      · exact ⟨⟨hloads, hstale.pages, hholds (Or.inl hdb.disk.1)⟩, trivial⟩
      · refine Ends.bind (catchCopyUp_stock h hcopy husable hbehind.le) (fun caught => ?_) db ⟨hloads, hdb⟩
        cases caught with
        | true => exact huse.mono (fun _ h => h.2) fun _ _ h => h
        | false => exact hgive.mono (fun _ h => h.2) fun _ _ h => h
      · exact huse db ⟨hloads, hstale.pages,
          hholds (h.current _ behind hdb.disk.1 hdb.disk.2 husable (by omega))⟩

-- A database before its blocks are loaded. A copy that can still be checked may be at an
-- earlier version. A copy that is being written is either at the client's version already, or
-- every block of it will be written again.
structure Fillable (setup : Net.Setup) (start : Database Net) : Prop where
  ready : start.source.link.Ready NoCommit
  version : start.remote.version ≤ start.world.server.version
  count : start.pages.pageCount = start.image.pageCount
  stable : start.pages.stablePageCount = start.image.pageCount
  blank : Stocked start.image start.pages start.pages
  fits : start.pages.pageCount ≤ 2 ^ 64
  copy : CopyHolds setup start.trusted (fun disk => start.trusted disk ∧
    (start.remote.copy ≠ .Ready → start.pages.onDemand = true → disk.Coherent start.image)) start

-- What a load leaves behind: blocks of the client's version, in memory and in the copy.
abbrev Restocked (setup : Net.Setup) (start : Database Net) : Database Net → Prop :=
  Stock setup start (Stocked start.image start.pages) start.trusted start.coherent

theorem Fillable.supply (h : Fillable setup start) :
    Supply start (Stocked start.image start.pages) start.trusted start.trusted start.coherent where
  ready := h.ready
  version := h.version
  fits := h.fits
  blank := h.blank
  count _ hpages := hpages.count
  fetched _ _ hpages hblocks := hpages.keepAll hblocks
  copied pages first blocks hpages hbelow hshown := by
    refine hpages.keepAll fun entry hentry => ?_
    obtain ⟨k, -, hindex, hk⟩ := Fetch.mem_mapIdx_offset hentry
    have hlt : entry.1 < start.pages.pageCount := by omega
    exact ⟨Fetch.shown_block hshown hentry (h.count ▸ hlt), hlt⟩
  allows := allows_coherent start
  before _ h := h
  empty := coherent_empty start
  write pages indexes disk hpages hdisk := by
    refine coherent_write h.version (fun entry hentry _ => hpages.block (mem_held hentry).2) ?_
    intro i data hi _ hheld
    rw [hpages.shape.stable, h.stable] at hi
    exact hdisk.2 i data hi hheld
  current disk head hdisk hhead husable hat := by
    simp only [usable, Bool.and_eq_true, beq_iff_eq] at husable
    have hexact := (hdisk head hhead husable.1.1 husable.1.2).2
    rw [hat] at hexact
    exact coherent_of_exact h.version hhead hat hexact
  behind disk head changes server hdisk hhead husable hext hchanges hcomplete hto := by
    simp only [usable, Bool.and_eq_true, beq_iff_eq] at husable
    exact coherent_forget h.version (le_of_eq h.stable) hext hdisk hhead husable.1.1 husable.1.2 hchanges
      hcomplete hto

theorem mem_indexes {pages : Pages} {i : Nat} : i ∈ pages.indexes ↔ pages.block i ≠ none := by
  rw [indexes, ne_eq, block_eq_none_iff, ← ne_eq, ← Option.isSome_iff_ne_none, AList.lookup_isSome]
  exact AList.mem_keys.symm

-- All blocks are in memory, and all of them are written to the copy.
theorem writeAll_spec (h : Fillable setup start) (hloads : Loads NoCommit start db)
    (hpages : Stocked start.image start.pages db.pages) (hall : Until start.pages.pageCount db)
    (hpos : 0 < start.pages.pageCount) (hcopy : CopyHolds setup start.trusted start.trusted db) :
    ∃ after, (writeCopy (Net.env setup) db.pages.indexes : Prog (Database Net) ε Unit) db = (.ok (), after) ∧
      Restocked setup start after := by
  have htrusted : Disk.Allows start.trusted start.trusted :=
    ⟨fun _ h => h, (allows_coherent start).interrupted⟩
  have hhead : db.remote.copyHead db.pages = start.remote.copyHead db.pages := by
    obtain ⟨login, broken, copy, hremote⟩ := hloads.remote
    rw [hremote]
    rfl
  have hwrite := writeCopy_spec (ε := ε) (G := start.coherent) setup htrusted (allows_coherent start)
    (coherent_empty start) db.pages.indexes ?_ ?_ db ⟨rfl, rfl, hcopy⟩
  · have hmoved := hloads.trans
      (writeCopy_loaded (ε := ε) setup db.pages.indexes db hloads.link.ready)
    generalize writeCopy (Net.env setup) db.pages.indexes db = run at hwrite hmoved ⊢
    rcases run with ⟨_ | _ | _, after⟩
    · exact ⟨after, rfl, hmoved, hwrite.1 ▸ hpages, hwrite.2⟩
    · exact hwrite.elim
    · exact hwrite.elim
  · intro hempty
    have hfirst := mem_indexes.mpr (hall 0 hpos)
    rw [hempty] at hfirst
    cases hfirst
  · intro disk _
    rw [hhead]
    refine coherent_write h.version (fun entry hentry _ => hpages.block (mem_held hentry).2) ?_
    intro i data hi hnot _
    rw [hpages.shape.stable, h.stable, ← h.count] at hi
    obtain ⟨block, hblock⟩ := Option.ne_none_iff_exists'.mp (hall i hi)
    exact absurd (List.mem_map.mpr ⟨(i, block), List.mem_filterMap.mpr
      ⟨i, mem_indexes.mpr (hall i hi), by simp [hblock]⟩, rfl⟩) hnot

-- The end of `fill`.
theorem Stock.makeRoom (h : Restocked setup start db) :
    Restocked setup start (Held.count (Held.makeRoom 0 db)) := by
  have hroom : Reloads start.image.block db.pages (db.pages.makeRoom 0 db.stats).1 :=
    Reloads.makeRoom _ _ _
  exact ⟨⟨h.loads.link, h.loads.remote, h.loads.broken, h.loads.shape.trans hroom.shape⟩,
    ⟨h.pages.sound.reloads hroom, hroom.dirty.trans h.pages.clean, hroom.pageCount.trans h.pages.count,
    h.pages.shape.trans hroom.shape⟩, h.copy⟩

-- After a load of everything.
theorem loadAll_spec (h : Fillable setup start) (hloads : Loads NoCommit start db)
    (hpages : Stocked start.image start.pages db.pages)
    (hcopy : CopyHolds setup start.trusted start.trusted db) :
    Ends (fun _ => True) (fun _ after => Loads NoCommit start after ∧
        Stocked start.image start.pages after.pages ∧ Until start.pages.pageCount after ∧
        CopyHolds setup start.trusted start.trusted after)
      (load (Net.env setup) 0 db.pages.pageCount db).1 (load (Net.env setup) 0 db.pages.pageCount db).2 := by
  have hsame : db.remote.version = start.remote.version := by
    obtain ⟨login, broken, copy, hremote⟩ := hloads.remote
    rw [hremote]
  have himage : db.image = start.image := image_later h.version hloads.link.later.ext hsame
  have hversion : db.remote.version ≤ db.world.server.version := by
    rw [hsame]
    exact h.version.trans hloads.link.later.ext.version_le
  have hload := load_spec (P := NoCommit) (D := Eq) setup hversion 0 db.pages.pageCount db
    ⟨Waits.refl hloads.link.ready, rfl⟩
  have hbrings := load_brings (E := Net.env setup) 0 db.pages.pageCount db trivial
  generalize load (Net.env setup) 0 db.pages.pageCount db = run at hload hbrings ⊢
  rcases run with ⟨_ | _ | _, after⟩
  · obtain ⟨⟨hlink, hremote⟩, hafter⟩ := hload
    change after.pages = _ at hafter
    rw [himage] at hafter
    have hdisk : db.world.disk = after.world.disk := hlink.disk
    refine ⟨trivial, hloads.trans (.of_remote (kept_any hlink) hremote ?_), ?_, fun i hi => ?_, ?_⟩
    · change SameShape db.pages after.pages
      exact hafter ▸ shape_keepAll _ _
    · change Stocked _ _ after.pages
      rw [hafter]
      refine hpages.keepAll fun entry hentry => ?_
      obtain ⟨hdata, -, hhi⟩ := mem_loadRun.mp hentry
      exact ⟨hdata, by rw [← hpages.count]; omega⟩
    · exact hbrings.2 i (Nat.zero_le i) (by rw [hpages.count]; omega)
    · change after.remote.copy.Holds _ _ _ after.world.disk
      change after.remote = db.remote at hremote
      rw [hremote, ← hdisk]
      exact hcopy
  · exact ⟨trivial, trivial⟩
  · exact ⟨trivial, trivial⟩

-- After the copy was tried: unless everything will be loaded and written again, the copy is
-- the one of the client's version.
structure Tried (setup : Net.Setup) (start : Database Net) (fromCopy : Bool) (db : Database Net) : Prop where
  loads : Loads NoCommit start db
  pages : Stocked start.image start.pages db.pages
  trusted : CopyHolds setup start.trusted start.trusted db
  copy : start.pages.onDemand = true ∨ start.pages.pageCount = 0 ∨ fromCopy = true →
    CopyHolds setup start.trusted start.coherent db

theorem takeCopy_tried (h : Fillable setup start) :
    Ends (fun _ => True) (Tried setup start) (takeCopy (Net.env setup) start).1
      (takeCopy (Net.env setup) start).2 := by
  by_cases hcopy : start.remote.copy = .Ready
  · have hdisk : start.trusted start.world.disk := by
      have hholds := h.copy
      rw [CopyHolds, hcopy] at hholds
      exact hholds.1
    have htook := takeCopy_stock setup h.supply hcopy hdisk
    generalize takeCopy (Net.env setup) start = run at htook ⊢
    rcases run with ⟨fromCopy | _ | _, db⟩
    · obtain ⟨-, hstock⟩ := htook
      exact ⟨trivial, hstock.loads, hstock.pages, hstock.copy.imp (fun _ h => h) fun _ h => h.1,
        fun _ => hstock.copy⟩
    · exact ⟨trivial, trivial⟩
    · exact ⟨trivial, trivial⟩
  · have hrun : takeCopy (Net.env setup) start = (.ok false, start) := by
      rw [takeCopy, get_bind, if_pos hcopy]
      rfl
    rw [hrun]
    refine ⟨trivial, .of_remote (Kept.refl h.ready) rfl (SameShape.refl _), h.blank,
      h.copy.imp (fun _ h => h) fun _ h => h.1, fun hcase => h.copy.imp (fun _ h => h) fun disk hdisk => ?_⟩
    refine ⟨hdisk.1, ?_⟩
    rcases hcase with hdemand | hzero | hfrom
    · exact hdisk.2 hcopy hdemand
    · intro i _ hi
      rw [← h.count, hzero] at hi
      exact absurd hi (Nat.not_lt_zero i)
    · cases hfrom

-- What a successful `fill` leaves behind: pages that are never loaded again are complete.
theorem fill_stock (h : Fillable setup start) (hfill : fill (Net.env setup) start = (.ok (), after)) :
    Restocked setup start after ∧ (start.pages.whole = true → Until start.pages.pageCount after) := by
  have hends : Ends (fun _ => True) (fun _ => Restocked setup start) (fill (Net.env setup) start).1
      (fill (Net.env setup) start).2 := by
    have htried := takeCopy_tried h
    unfold fill
    rw [bind_apply]
    generalize takeCopy (Net.env setup) start = run at htried ⊢
    rcases run with ⟨fromCopy | _ | _, db⟩
    · obtain ⟨-, htried⟩ := htried
      change Tried setup start fromCopy db at htried
      dsimp only
      rw [get_bind]
      have hdemand : db.pages.onDemand = start.pages.onDemand := by
        simp only [Pages.onDemand, htried.pages.shape.perFetch]
      split_ifs with hload
      · simp only [Bool.and_eq_true, decide_eq_true_eq, htried.pages.count] at hload
        have hloaded := loadAll_spec h htried.loads htried.pages htried.trusted
        rw [bind_apply]
        generalize load (Net.env setup) 0 db.pages.pageCount db = run at hloaded ⊢
        rcases run with ⟨_ | _ | _, mid⟩
        · obtain ⟨-, hloads, hpages, hall, hcopy⟩ := hloaded
          obtain ⟨last, hwrite, hlast⟩ :=
            writeAll_spec (ε := ClientError) h hloads hpages hall hload.1.2 hcopy
          dsimp only
          rw [get_bind, bind_ok _ hwrite]
          exact ⟨trivial, hlast.makeRoom⟩
        · exact ⟨trivial, trivial⟩
        · exact ⟨trivial, trivial⟩
      · have hcase : start.pages.onDemand = true ∨ start.pages.pageCount = 0 ∨ fromCopy = true := by
          simp only [Bool.and_eq_true, Bool.not_eq_true', decide_eq_true_eq, htried.pages.count, hdemand]
            at hload
          by_cases hd : start.pages.onDemand = true
          · exact Or.inl hd
          · by_cases hf : fromCopy = true
            · exact Or.inr (Or.inr hf)
            · refine Or.inr (Or.inl ?_)
              by_contra hne
              exact hload ⟨⟨eq_false_of_ne_true hd, by omega⟩, eq_false_of_ne_true hf⟩
        have hstock : Restocked setup start db := ⟨htried.loads, htried.pages, htried.copy hcase⟩
        exact ⟨trivial, hstock.makeRoom⟩
    · exact ⟨trivial, trivial⟩
    · exact ⟨trivial, trivial⟩
  have hcomplete := fill_complete (E := Net.env setup) start trivial
  rw [hfill] at hends hcomplete
  obtain ⟨-, hstock⟩ := hends
  change Restocked setup start after at hstock
  refine ⟨hstock, fun hwhole => ?_⟩
  rw [← hstock.pages.count]
  exact hcomplete.2 (hstock.pages.shape.whole.trans hwhole)

end Remote

end RemoteVfs
