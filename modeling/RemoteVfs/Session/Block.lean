import RemoteVfs.Session.Mend

namespace RemoteVfs

open Base Base.Prog Link Pages

-- One block of the file and what its content is always like. The file never has fewer than
-- `floor` blocks; a block that may be cut off may be blank.
structure Watch where
  index : Nat
  size : Nat
  floor : Nat
  good : Bytes → Prop
  blank : floor ≤ index → good (zeros size)

namespace Watch

variable (w : Watch)

structure OfPart (part : Pb.Commit) : Prop where
  block : ∀ block ∈ part.blocks, block.index = w.index → w.good block.data
  floor : w.floor ≤ part.pageCount

structure OfImage (image : Image) : Prop where
  size : image.pageSize = w.size
  block : w.good (image.block w.index)
  floor : w.floor ≤ image.pageCount

structure InMemory (pages : Pages) : Prop where
  size : pages.pageSize = w.size
  block : ∀ data, pages.block w.index = some data → w.good data
  floor : w.floor ≤ pages.pageCount

def OnDisk (disk : Disk) : Prop := ∀ data, disk.holds w.index = some data → w.good data

variable {w}

theorem OfImage.store {image : Image} (h : w.OfImage image) {pageCount : Nat} {blocks : List Pb.Block}
    (hblocks : ∀ block ∈ blocks, block.index = w.index → w.good block.data) (hfloor : w.floor ≤ pageCount) :
    w.OfImage (image.store pageCount blocks) := by
  refine ⟨h.size, ?_, hfloor⟩
  unfold Image.store
  dsimp only
  split_ifs with hi
  · cases hfind : blocks.reverse.find? (·.index = w.index) with
    | none => exact h.block
    | some block =>
        have hmem := List.mem_reverse.mp (List.mem_of_find?_eq_some hfind)
        exact hblocks block hmem (by simpa using List.find?_some hfind)
  · rw [h.size]
    exact w.blank (by omega)

-- The client's own commit comes next in the log.
theorem OfImage.next {net : Net} {n k version : Nat} {entry : Entry} (hwf : net.Wf n)
    (hsent : ∀ part, net.asked.Sent part → w.OfPart part) (h : w.OfImage (net.server.imageAt version))
    (hentry : net.server.log[version]? = some entry) (hid : entry.commitId = net.ids k) :
    w.OfImage (net.server.imageAt (version + 1)) := by
  rw [Server.imageAt_succ _ hentry]
  cases entry with
  | Commit parts =>
      have hcomplete := hwf.log version parts hentry
      obtain ⟨last, hlast, -, -⟩ := hcomplete.last
      obtain ⟨first, rest, rfl⟩ : ∃ first rest, parts = first :: rest :=
        List.exists_cons_of_ne_nil (by rintro rfl; cases hlast)
      have hgood : ∀ part ∈ first :: rest, w.OfPart part :=
        fun part hpart => hsent part (hcomplete.sent part hpart)
      refine h.store (fun block hblock => ?_) (hgood first List.mem_cons_self).floor
      obtain ⟨part, hpart, hmem⟩ := List.mem_flatMap.mp hblock
      exact (hgood part hpart).block block hmem
  | Other commitId pageCount blocks =>
      exact absurd hid.symm ((hwf.others version commitId pageCount blocks hentry).2 k)
  | Deleted pageSize => exact absurd hid.symm (hwf.distinct.nonempty k)

-- The parts of a commit carry the dirty blocks in memory.
theorem InMemory.parts {pages : Pages} (h : w.InMemory pages) {remote : Remote} {commitId : Bytes}
    {maxFrameBytes : Nat} : ∀ part ∈ remote.parts pages commitId maxFrameBytes, w.OfPart part := by
  intro part hpart
  refine ⟨fun block hblock hindex => ?_, ?_⟩
  · have hmem : block ∈ (remote.parts pages commitId maxFrameBytes).flatMap (·.blocks) :=
      List.mem_flatMap.mpr ⟨part, hpart, hblock⟩
    rw [Remote.blocks_parts] at hmem
    obtain ⟨entry, hentry, rfl⟩ := List.mem_map.mp hmem
    obtain ⟨-, hdata⟩ := Remote.mem_held hentry
    change entry.1 = w.index at hindex
    exact h.block entry.2 (hindex ▸ hdata)
  · rw [(Remote.mem_parts _ _ _ _ hpart).2.2]
    exact h.floor

theorem block_keepAll {pages : Pages} {loaded : List (Nat × Bytes)} {i : Nat} {data : Bytes}
    (h : (pages.keepAll loaded).block i = some data) :
    pages.block i = some data ∨ (i, data) ∈ loaded := by
  induction loaded generalizing pages with
  | nil => exact Or.inl h
  | cons entry rest ih =>
      have hrest : ((pages.keep entry.1 entry.2).keepAll rest).block i = some data := h
      rcases ih hrest with hkept | hmem
      · rw [block_keep] at hkept
        split_ifs at hkept with hentry
        · cases hkept
          rw [hentry.1]
          exact Or.inr List.mem_cons_self
        · exact Or.inl hkept
      · exact Or.inr (List.mem_cons_of_mem _ hmem)

theorem InMemory.keepAll {pages : Pages} (h : w.InMemory pages) {loaded : List (Nat × Bytes)}
    (hloaded : ∀ entry ∈ loaded, entry.1 = w.index → w.good entry.2) :
    w.InMemory (pages.keepAll loaded) := by
  refine ⟨(shape_keepAll _ _).pageSize.trans h.size, fun data hdata => ?_, ?_⟩
  · rcases block_keepAll hdata with hold | hnew
    · exact h.block data hold
    · exact hloaded _ hnew rfl
  · rw [(keepAll_same loaded).2]
    exact h.floor

theorem InMemory.drops {before after : Pages} (h : w.InMemory before) (hdrops : Drops before after) :
    w.InMemory after := by
  refine ⟨hdrops.shape.pageSize.trans h.size, fun data hdata => ?_, by rw [hdrops.pageCount]; exact h.floor⟩
  rcases hdrops.block w.index with hsame | ⟨-, -, hnone⟩
  · exact h.block data (hsame ▸ hdata)
  · rw [hnone] at hdata
    cases hdata

theorem InMemory.truncate {pages : Pages} (h : w.InMemory pages) {size : Nat}
    (hfloor : w.floor ≤ divCeil size w.size) : w.InMemory (pages.truncate size) := by
  refine ⟨(shape_truncate _ _).pageSize.trans h.size, fun data hdata => h.block data ?_, ?_⟩
  · unfold Pages.truncate at hdata
    dsimp only at hdata
    split_ifs at hdata
    · simp only [Pages.block, AList.lookup_retain] at hdata ⊢
      split_ifs at hdata
      · exact hdata
      · cases hdata
    · exact hdata
  · rw [pageCount_truncate, h.size]
    exact hfloor

-- Writing these bytes leaves the block good, also if it is blank before.
def Keeps (w : Watch) (offset : Nat) (data : Bytes) : Prop :=
  ∀ within chunk block, Chunk offset data w.size w.index within chunk →
    w.good block ∨ block = zeros w.size → within + chunk.length ≤ block.length →
    w.good (overlay block within chunk)

theorem InMemory.put {pages : Pages} (h : w.InMemory pages) {offset index within : Nat} {data chunk : Bytes}
    (hkeeps : w.Keeps offset data) (hchunk : Chunk offset data w.size index within chunk)
    (hfit : ∀ block, pages.block index = some block → within + chunk.length ≤ block.length) :
    w.InMemory (pages.put index within chunk) := by
  refine ⟨(shape_put _ _ _ _).pageSize.trans h.size, fun block hblock => ?_, ?_⟩
  · rw [block_put] at hblock
    split_ifs at hblock with hindex
    · subst hindex
      cases hblock
      cases hold : pages.block w.index with
      | some old => exact hkeeps within chunk old hchunk (Or.inl (h.block old hold)) (hfit old hold)
      | none =>
          rw [Option.getD_none, h.size]
          refine hkeeps within chunk _ hchunk (Or.inr rfl) ?_
          have hlength := hchunk.length
          rw [length_zeros]
          omega
    · exact h.block block hblock
  · rw [pageCount_put]
    exact h.floor.trans (le_max_left _ _)

theorem allows (w : Watch) : Disk.Allows (fun _ => True) w.OnDisk := ⟨fun _ _ => trivial, fun _ _ _ => trivial⟩

theorem onDisk_empty : w.OnDisk .empty := fun _ h => by cases h

theorem OnDisk.forget {disk : Disk} (h : w.OnDisk disk) (head : Head) (blocks : List Nat) :
    w.OnDisk (disk.forget head blocks) := by
  intro data hdata
  rw [Disk.holds_forget] at hdata
  split_ifs at hdata
  exact h data hdata

theorem OnDisk.write {disk : Disk} (h : w.OnDisk disk) (head : Head) {blocks : List (Nat × Bytes)}
    (hblocks : ∀ entry ∈ blocks, entry.1 = w.index → w.good entry.2) : w.OnDisk (disk.write head blocks) := by
  intro data hdata
  rw [Disk.holds_write] at hdata
  split_ifs at hdata
  cases hfind : blocks.reverse.find? (·.1 = w.index) with
  | none =>
      rw [hfind] at hdata
      exact h data hdata
  | some entry =>
      rw [hfind] at hdata
      obtain rfl : entry.2 = data := by simpa using hdata
      have hmem := List.mem_reverse.mp (List.mem_of_find?_eq_some hfind)
      exact hblocks entry hmem (by simpa using List.find?_some hfind)

-- Blocks that the copy shows.
theorem good_of_shown {first : Nat} {blocks : List Bytes} (hshown : Disk.Shown w.OnDisk first blocks) :
    ∀ entry ∈ blocks.mapIdx fun offset data => (first + offset, data), entry.1 = w.index → w.good entry.2 := by
  intro entry hentry hindex
  obtain ⟨k, hk, hoffset, -⟩ := Fetch.mem_mapIdx_offset hentry
  obtain ⟨disk, hdisk, hholds⟩ := hshown k entry.2 hk
  exact hdisk entry.2 (by rw [← hindex, hoffset]; exact hholds)

end Watch

namespace Session

open Database

variable (setup : Net.Setup) (w : Watch) (F : Disk → Prop)

-- The block is good wherever it is: on the server at the client's version, in memory and in
-- every commit that was sent. The disk meets `F` as long as the local copy is in use.
structure Watched (db : Database Net) : Prop where
  live : Live db
  sent : ∀ part, db.world.asked.Sent part → w.OfPart part
  image : w.OfImage db.image
  memory : w.InMemory db.pages
  copy : Remote.CopyHolds setup (fun _ => True) F db

variable {setup w F} {G : Disk → Prop} {db after : Database Net} {ε α : Type}

theorem Watched.loads (h : Watched setup w F db) (hloads : Loads NoCommit db after)
    (hmemory : w.InMemory after.pages) (hcopy : Remote.CopyHolds setup (fun _ => True) G after) :
    Watched setup w G after where
  live := h.live.loads hloads
  sent part hpart := h.sent part ((hloads.link.sent part hpart).resolve_right id)
  image := by
    rw [image_later h.live.version hloads.link.later.ext hloads.sameVersion.version]
    exact h.image
  memory := hmemory
  copy := hcopy

-- Only the pages and the counters change.
theorem Watched.pages (h : Watched setup w F db) (hsource : after.source = db.source)
    (hmemory : w.InMemory after.pages) : Watched setup w F after := by
  obtain ⟨pages, stats, source⟩ := after
  subst hsource
  exact ⟨⟨h.live.ready, h.live.version, h.live.pending⟩, h.sent, h.image, hmemory, h.copy⟩

theorem Watched.waits (h : Watched setup w F db) (hwaits : Waits NoCommit Eq db after) :
    Watched setup w F after := by
  refine ⟨h.live.waits hwaits, fun part hpart => h.sent part ((hwaits.link.sent part hpart).resolve_right id),
    ?_, hwaits.pages ▸ h.memory, copyHolds_waits h.copy hwaits⟩
  rw [image_later h.live.version hwaits.link.later.ext hwaits.version]
  exact h.image

theorem Watched.imp (h : Watched setup w F db) (hFG : ∀ disk, F disk → G disk) : Watched setup w G db :=
  ⟨h.live, h.sent, h.image, h.memory, h.copy.imp (fun _ h => h) hFG⟩

-- Talking to the server leaves the blocks and the copy alone.
theorem onLink_watched {body : Prog (Link Net) ε α} (hbody : Moves (Moved NoCommit Eq) body) :
    Moves (Carries (Watched setup w F)) (onLink body) := by
  intro db h
  have hkept := hbody db.source.link h.live.ready
  have hdisk : db.world.disk = (onLink body db).2.world.disk := hkept.disk
  refine h.loads (.of_remote (Remote.kept_any hkept) rfl (SameShape.refl _)) h.memory ?_
  change db.remote.copy.Holds _ _ _ _
  rw [← hdisk]
  exact h.copy

theorem takeFromCopy_watched (first count : Nat) :
    Moves (Carries (Watched setup w w.OnDisk))
      (Remote.takeFromCopy (Net.env setup) first count : Prog (Database Net) ε Bool) := by
  intro db h
  have htake := Remote.takeFromCopy_spec (ε := ε) setup w.allows first count db ⟨rfl, rfl, h.copy⟩
  have hloads := Remote.takeFromCopy_loaded (P := NoCommit) (ε := ε) setup first count db h.live.ready
  generalize Remote.takeFromCopy (Net.env setup) first count db = run at htake hloads ⊢
  rcases run with ⟨taken | _ | _, after⟩
  · obtain ⟨hcopy, htaken⟩ := htake
    refine h.loads hloads ?_ hcopy
    change w.InMemory after.pages
    cases taken with
    | true =>
        obtain ⟨read, -, -, hshown, hpages⟩ := htaken
        rw [hpages]
        exact h.memory.keepAll (Watch.good_of_shown hshown)
    | false =>
        rw [show after.pages = db.pages from htaken]
        exact h.memory
  · exact htake.elim
  · exact htake.elim

theorem load_watched (first count : Nat) :
    Moves (Carries (Watched setup w F)) (Remote.load (Net.env setup) first count) := by
  intro db h
  have hload := Remote.load_spec (P := NoCommit) (D := Eq) setup h.live.version first count db
    ⟨Waits.refl h.live.ready, rfl⟩
  generalize Remote.load (Net.env setup) first count db = run at hload ⊢
  rcases run with ⟨_ | _ | _, after⟩
  all_goals
    obtain ⟨⟨hlink, hremote⟩, hafter⟩ := hload
    have hdisk : db.world.disk = after.world.disk := hlink.disk
    change after.remote = db.remote at hremote
    have hcopy : Remote.CopyHolds setup (fun _ => True) F after := by
      rw [Remote.CopyHolds, hremote, ← hdisk]
      exact h.copy
  · change after.pages = _ at hafter
    have hshape : SameShape db.pages after.pages := hafter ▸ shape_keepAll _ _
    refine h.loads (.of_remote (Remote.kept_any hlink) hremote hshape) ?_ hcopy
    rw [hafter]
    refine h.memory.keepAll fun entry hentry hindex => ?_
    rw [(mem_loadRun.mp hentry).1, hindex]
    exact h.image.block
  all_goals
    change after.pages = db.pages at hafter
    exact h.loads (.of_remote (Remote.kept_any hlink) hremote (hafter ▸ SameShape.refl _))
      (hafter ▸ h.memory) hcopy

theorem writeCopy_watched (indexes : List Nat) :
    Moves (Carries (Watched setup w w.OnDisk))
      (Remote.writeCopy (Net.env setup) indexes : Prog (Database Net) ε Unit) := by
  intro db h
  have hwrite := Remote.writeCopy_spec (ε := ε) (G := w.OnDisk) setup w.allows w.allows
    Watch.onDisk_empty indexes (fun _ _ h => h) (fun disk hdisk => ?_) db ⟨rfl, rfl, h.copy⟩
  · have hloads := Remote.writeCopy_loaded (P := NoCommit) (ε := ε) setup indexes db h.live.ready
    generalize Remote.writeCopy (Net.env setup) indexes db = run at hwrite hloads ⊢
    rcases run with ⟨_ | _ | _, after⟩
    · obtain ⟨hpages, hcopy⟩ := hwrite
      change after.pages = db.pages at hpages
      exact h.loads hloads (hpages ▸ h.memory) hcopy
    · exact hwrite.elim
    · exact hwrite.elim
  · refine hdisk.write _ fun entry hentry hindex => ?_
    have hheld := (Remote.mem_held hentry).2
    rw [hindex] at hheld
    exact h.memory.block entry.2 hheld

theorem fill_watched (first count : Nat) :
    Moves (Carries (Watched setup w w.OnDisk)) (Fetch.fill (Net.env setup) first count) := by
  have hreconnected : Moves (Carries (Watched setup w w.OnDisk)) (Fetch.reconnected (Net.env setup)) :=
    fun db h => h.waits (Fetch.reconnected_spec setup db (Waits.refl h.live.ready)).1
  have hbreak : ∀ broken, Moves (Carries (Watched setup w w.OnDisk))
      (breakWith broken : Prog (Database Net) Broken Unit) :=
    fun broken db h => h.waits ((Waits.refl h.live.ready).broken broken)
  refine Moves.bind (Moves.gets _) fun db => ?_
  cases db.remote.broken with
  | some broken => exact Moves.fail _
  | none =>
      refine Moves.bind (takeFromCopy_watched _ _) fun taken => Moves.ite (Moves.pure _) ?_
      refine Moves.bind hreconnected fun _ => ?_
      refine Moves.bind (Moves.handle (load_watched _ _) fun err => ?_) fun _ => writeCopy_watched _
      exact Moves.ite (hbreak _) (Moves.fail _)

theorem source_watched :
    Pages.Admits (Carries (Watched setup w w.OnDisk)) (Fetch.source (Net.env setup)) where
  drops _ _ hsource hdrops h := h.pages hsource (h.memory.drops hdrops)
  fill db first count _ := fill_watched first count db

-- A copy that meets `G` shows a good block once it is at the client's version.
structure Brings (w : Watch) (db : Database Net) (G : Disk → Prop) : Prop where
  current : ∀ disk head, G disk → disk.head = some head →
    Remote.usable db.remote db.pages head = true → head.version = db.remote.version → w.OnDisk disk
  behind : ∀ disk head changes server, G disk → disk.head = some head →
    Remote.usable db.remote db.pages head = true → db.world.server.Extends server →
    server.ChangesAt ⟨db.remote.dbId, head.version⟩ changes → changes.complete = true →
    changes.toVersion = db.remote.version →
    w.OnDisk (disk.forget (db.remote.copyHead db.pages) changes.blocks)

theorem brings_onDisk : Brings w db w.OnDisk :=
  ⟨fun _ _ h _ _ _ => h, fun _ _ _ _ h _ _ _ _ _ _ => h.forget _ _⟩

theorem brings_trusted (himage : w.OfImage db.image)
    (hversion : db.remote.version ≤ db.world.server.version)
    (hstable : db.pages.stablePageCount ≤ db.image.pageCount) : Brings w db db.trusted where
  current disk head hdisk hhead husable hat data hdata := by
    simp only [Remote.usable, Bool.and_eq_true, beq_iff_eq] at husable
    have hexact := (hdisk head hhead husable.1.1 husable.1.2).2 w.index data hdata
    rw [hat] at hexact
    rw [hexact]
    exact himage.block
  behind disk head changes server hdisk hhead husable hext hchanges hcomplete hto data hdata := by
    simp only [Remote.usable, Bool.and_eq_true, beq_iff_eq] at husable
    have hcoherent := Remote.coherent_forget hversion hstable hext hdisk hhead husable.1.1 husable.1.2
      hchanges hcomplete hto
    have hbelow : w.index < db.pages.stablePageCount := by
      rw [Disk.holds_forget] at hdata
      split_ifs at hdata with hi
      exact hi.1
    rw [hcoherent.2 w.index data (by omega) hdata]
    exact himage.block

-- The blocks that are loaded keep the block good.
theorem Watched.supply {start : Database Net} (h : Watched setup w G start) (hbrings : Brings w start G)
    (hfits : start.pages.pageCount ≤ 2 ^ 64) :
    Remote.Supply start (fun pages => w.InMemory pages ∧ pages.pageCount = start.pages.pageCount)
      (fun _ => True) G w.OnDisk where
  ready := h.live.ready
  version := h.live.version
  fits := hfits
  blank := ⟨h.memory, rfl⟩
  count _ hpages := hpages.2
  fetched pages blocks hpages hblocks := by
    refine ⟨hpages.1.keepAll fun entry hentry hindex => ?_, (keepAll_same blocks).2.trans hpages.2⟩
    rw [(hblocks entry hentry).1, hindex]
    exact h.image.block
  copied pages first blocks hpages _ hshown :=
    ⟨hpages.1.keepAll (Watch.good_of_shown hshown), (keepAll_same _).2.trans hpages.2⟩
  allows := w.allows
  before _ _ := trivial
  empty := Watch.onDisk_empty
  write pages indexes disk hpages hdisk := by
    refine hdisk.write _ fun entry hentry hindex => hpages.1.block entry.2 ?_
    rw [← hindex]
    exact (Remote.mem_held hentry).2
  current := hbrings.current
  behind := hbrings.behind

theorem takeCopy_watched {start : Database Net} (h : Watched setup w G start) (hbrings : Brings w start G)
    (hfits : start.pages.pageCount ≤ 2 ^ 64)
    (hcopy : start.remote.copy ≠ .Ready → Watched setup w w.OnDisk start) :
    Ends (Watched setup w fun disk => G disk ∨ w.OnDisk disk) (fun _ => Watched setup w w.OnDisk)
      (Remote.takeCopy (Net.env setup) start).1 (Remote.takeCopy (Net.env setup) start).2 := by
  by_cases hready : start.remote.copy = .Ready
  · have hdisk : G start.world.disk := by
      have hholds := h.copy
      rw [Remote.CopyHolds, hready] at hholds
      exact hholds
    obtain ⟨hkeep, htook⟩ := Remote.takeCopy_stock setup (h.supply hbrings hfits) hready hdisk
    refine ⟨h.loads hkeep.loads hkeep.pages.1 hkeep.copy, ?_⟩
    generalize Remote.takeCopy (Net.env setup) start = run at htook ⊢
    rcases run with ⟨fromCopy | _ | _, after⟩
    · exact h.loads htook.loads htook.pages.1 htook.copy
    · trivial
    · trivial
  · have hrun : Remote.takeCopy (Net.env setup) start = (.ok false, start) := by
      rw [Remote.takeCopy, get_bind, if_pos hready]
      rfl
    rw [hrun]
    exact ⟨h.imp fun _ => Or.inl, hcopy hready⟩

-- The end of `fill` and of `commit`.
theorem makeRoom_watched :
    Moves (Carries (Watched setup w F)) (do
      Prog.modify (Held.makeRoom 0)
      Prog.modify Held.count : Prog (Database Net) ε Unit) :=
  Moves.bind (Moves.modify fun _ h => h.pages rfl (h.memory.drops (drops_makeRoom _ _ _))) fun _ =>
    Moves.modify fun _ h => h.pages rfl h.memory

theorem loadBlocks_watched {start : Database Net} (h : Watched setup w G start) (hbrings : Brings w start G)
    (hfits : start.pages.pageCount ≤ 2 ^ 64)
    (hcopy : start.remote.copy ≠ .Ready → Watched setup w w.OnDisk start) :
    Ends (Watched setup w fun disk => G disk ∨ w.OnDisk disk) (fun _ => Watched setup w w.OnDisk)
      (Remote.fill (Net.env setup) start).1 (Remote.fill (Net.env setup) start).2 := by
  refine Ends.bind (fun _ heq => heq ▸ takeCopy_watched h hbrings hfits hcopy) (fun fromCopy => ?_) start rfl
  refine Triple.mono (Carries.ends ?_ fun _ h => h.2) (fun _ h => h) fun o db hends =>
    ⟨hends.1.imp fun _ => Or.inr, ?_⟩
  · refine Moves.bind (Moves.gets _) fun db => ?_
    refine Moves.ite ?_ makeRoom_watched
    refine Moves.bind (load_watched _ _) fun _ => Moves.bind (Moves.gets _) fun db => ?_
    exact Moves.bind (writeCopy_watched _) fun _ => makeRoom_watched
  · cases o with
    | ok value => exact hends.1
    | err reason => trivial
    | hang => trivial

theorem loadBlocks_carries (h : Watched setup w w.OnDisk db) (hfits : db.pages.pageCount ≤ 2 ^ 64) :
    Watched setup w w.OnDisk (Remote.fill (Net.env setup) db).2 :=
  (loadBlocks_watched h brings_onDisk hfits fun _ => h).1.imp fun _ h => h.elim id id

-- The parts of a commit have been sent, or some of them.
theorem Watched.begun {begun : Database Net} {commitId : Bytes} {parts : List Pb.Commit}
    (h : Watched setup w F db) (hbegun : db.Begun commitId parts begun)
    (hwaits : Waits (· ∈ parts) Eq begun after) : Watched setup w F after := by
  have hhalted := hbegun.halted hwaits
  obtain ⟨login, broken, pending, hremote⟩ := hhalted.remote
  refine ⟨h.live.begun hbegun hwaits, fun part hpart => ?_, ?_, ?_, ?_⟩
  · rcases hwaits.link.sent part hpart with hbefore | hnew
    · exact h.sent part ((hbegun.kept.sent part hbefore).resolve_right id)
    · rw [hbegun.parts] at hnew
      exact h.memory.parts part hnew
  · rw [image_later h.live.version hhalted.later.ext (by rw [hremote])]
    exact h.image
  · rw [hhalted.pages]
    exact h.memory
  · rw [Remote.CopyHolds, hremote, hhalted.disk]
    exact h.copy

theorem Watched.published {mid : Database Net} {base version k : Nat} {commitId : Bytes}
    (h : Watched setup w w.OnDisk mid) (hversion : mid.remote.version = base)
    (happlied : Applied base commitId version mid.source.link) (hid : commitId = mid.world.ids k)
    (parts time : Nat) :
    Watched setup w w.OnDisk (Database.published parts time commitId version mid) := by
  have hlive := Live.published h.live.ready happlied parts time
  obtain ⟨rfl, entry, hentry, hentryId⟩ := happlied
  subst hversion
  exact ⟨hlive, h.sent, h.image.next h.live.ready.wf h.sent hentry (hentryId.trans hid),
    ⟨h.memory.size, h.memory.block, h.memory.floor⟩, h.copy⟩

theorem commitDone_watched {mid : Database Net} {parts time version : Nat} {commitId : Bytes}
    (h : Watched setup w w.OnDisk (Database.published parts time commitId version mid)) :
    Watched setup w w.OnDisk (commitDone (Net.env setup) parts time commitId version mid).2 := by
  rw [commitDone_eq]
  exact Moves.bind (writeCopy_watched _) (fun _ => makeRoom_watched) _ h

theorem commitChanges_watched (timeout : Nat) :
    Moves (Carries (Watched setup w w.OnDisk)) (commitChanges (Net.env setup) timeout) := by
  intro db h
  obtain ⟨commitId, parts, begun, hbegun, ⟨-, hwaits⟩ | ⟨version, time, mid, hwaits, happlied, heq⟩⟩ :=
    commitChanges_cases setup timeout h.live.ready
  · exact h.begun hbegun hwaits
  · obtain ⟨login, broken, pending, hremote⟩ := (hbegun.halted hwaits).remote
    obtain ⟨k, -, -, hid⟩ := hbegun.drawn
    rw [heq]
    refine commitDone_watched ((h.begun hbegun hwaits).published (k := k) ?_ happlied ?_ _ _)
    · rw [hremote]
    · exact hid.trans (congrFun hwaits.link.later.ids k).symm

theorem commit_watched (timeout : Nat) :
    Moves (Carries (Watched setup w w.OnDisk)) (Database.commit (Net.env setup) timeout) := by
  refine unlessBroken_moves (Moves.bind (Moves.gets _) fun db => Moves.ite (Moves.pure _) ?_)
  refine Moves.ite (fun db h => ?_) (commitChanges_watched timeout)
  exact h.waits ((Waits.refl h.live.ready).broken _)

-- The database as the server opened it again, before its blocks are loaded.
theorem Watched.restarted {opened : Pb.Opened} {mid : Database Net} (h : Watched setup w F db)
    (hmid : Waits NoCommit Eq db mid) (hresumed : Remote.Resumed db opened mid.source.link)
    (haccepted : opened.version = db.remote.version ∨ db.wasApplied opened = true) :
    Watched setup w F (Database.restarted opened mid) := by
  have hwatched := h.waits hmid
  have himage : w.OfImage (Database.restarted opened mid).image := by
    have hbefore : w.OfImage (mid.world.server.imageAt db.remote.version) := by
      have hsame : mid.world.server.imageAt db.remote.version = db.image :=
        hmid.link.later.ext.imageAt h.live.version
      rw [hsame]
      exact h.image
    change w.OfImage (mid.world.server.imageAt opened.version)
    rcases haccepted with hversion | happlied
    · rw [hversion]
      exact hbefore
    · obtain ⟨hversion, entry, hentry, hpending⟩ := entry_of_applied hresumed.1 happlied
      obtain ⟨k, parts, -, hid, -, -, -⟩ := h.live.pending _ hpending
      rw [hversion]
      exact hbefore.next hmid.link.ready.wf hwatched.sent hentry
        (hid.trans (congrFun hmid.link.later.ids k).symm)
  refine ⟨⟨hmid.link.ready, hresumed.1.reached, fun _ h => by cases h⟩, hwatched.sent, himage, ?_,
    hwatched.copy⟩
  refine ⟨hwatched.memory.size, fun _ hdata => (by cases hdata), ?_⟩
  change w.floor ≤ opened.pageCount
  rw [hresumed.1.pageCount]
  exact himage.floor

theorem heal_watched : Moves (Carries (Watched setup w w.OnDisk)) (Database.heal (Net.env setup)) := by
  intro db h
  rcases heal_cases setup h.live.ready with
    ⟨-, -, -, hwaits⟩ | ⟨opened, mid, hmid, hresumed, ⟨-, -, -, -, -, hwaits⟩ | ⟨haccepted, -, heq⟩⟩
  · exact h.waits hwaits
  · exact h.waits hwaits
  · rw [heq, reload_eq]
    have hfill := loadBlocks_carries (h.restarted hmid hresumed haccepted) (checked_count hresumed.2)
    generalize Remote.fill (Net.env setup) (Database.restarted opened mid) = run at hfill ⊢
    rcases run with ⟨_ | err | _, after⟩
    · exact ⟨⟨hfill.live.ready, hfill.live.version, hfill.live.pending⟩, hfill.sent, hfill.image,
        hfill.memory, hfill.copy⟩
    · exact ⟨⟨hfill.live.ready, hfill.live.version, hfill.live.pending⟩, hfill.sent, hfill.image,
        (h.waits hmid).memory, hfill.copy⟩
    · exact hfill

theorem write_watched {offset : Nat} {data : Bytes} (hkeeps : w.Keeps offset data) :
    Moves (Carries (Watched setup w w.OnDisk)) (Database.write (Net.env setup) offset data) := by
  refine unlessBroken_moves (write_carries source_watched.stays (fun _ h => h.memory.size) ?_)
  exact fun _ _ _ _ h hchunk hfit => h.pages rfl (h.memory.put hkeeps hchunk hfit)

-- The operations of a session that leave the block good.
def Sparing (w : Watch) (_ : Database Net) : Op → Prop
  | .Write offset data => w.Keeps offset data
  | .Truncate size => w.floor ≤ divCeil size w.size
  | _ => True

theorem read_watched (offset length : Nat) :
    Moves (Carries (Watched setup w w.OnDisk)) (Database.read (Net.env setup) offset length) :=
  unlessBroken_moves (read_admits source_watched offset length)

theorem truncate_watched {size : Nat} (hsize : w.floor ≤ divCeil size w.size) :
    Moves (Carries (Watched setup w w.OnDisk)) (Database.truncate size) :=
  unlessBroken_moves (Moves.modify fun _ h => h.pages rfl (h.memory.truncate hsize))

theorem Watched.step (h : Watched setup w w.OnDisk db) {op : Op} (hop : Sparing w db op) :
    Watched setup w w.OnDisk (op.run (Net.env setup) db) := by
  cases op with
  | Read offset length => exact read_watched offset length db h
  | Write offset data => exact write_watched hop db h
  | Truncate size => exact truncate_watched hop db h
  | Commit timeout => exact commit_watched timeout db h
  | Heal =>
      simp only [Op.run]
      split_ifs
      · exact heal_watched db h
      · exact h
  | Label label => exact onLink_watched (label_moved setup label) db h

-- The block is good on the server when the database is opened.
theorem OpenedCoherent.watched {options : OpenOptions} (h : OpenedCoherent setup options db)
    (himage : w.OfImage db.image) : Watched setup w w.OnDisk db := by
  obtain ⟨config, started, dbId, net, hfresh, htrusted, hopened⟩ := h.fresh
  obtain ⟨opened, link, hkept, hat, hchecked, hfill⟩ := opened_ok setup hfresh hopened
  set start : Database Net :=
    ⟨.new opened.pageSize opened.pageCount options.blocksPerFetch options.cap, {},
      ⟨openedRemote dbId options opened link.client.logins, link⟩⟩ with hstart
  have hversion : start.remote.version ≤ start.world.server.version := hat.reached
  have hloads := Remote.fill_loaded (P := NoCommit) setup start hkept.ready
  rw [hfill] at hloads
  have hsame : db.image = start.image :=
    image_later hversion hloads.link.later.ext hloads.sameVersion.version
  rw [hsame] at himage
  have hdisk : link.world.disk.Trusted link.world.server options.subject dbId := by
    have hunchanged : net.disk = link.world.disk := hkept.disk
    rw [← hunchanged]
    exact htrusted.extend hkept.later.ext
  have hstarted : Watched setup w start.trusted start := by
    refine ⟨⟨hkept.ready, hversion, fun _ h => by cases h⟩, fun part hpart => ?_, himage, ?_, ?_⟩
    · obtain ⟨id, stamp, hsent⟩ := (hkept.sent part hpart).resolve_right id
      exact absurd hsent (by simp [hfresh.asked id])
    · refine ⟨hat.pageSize.trans himage.size, fun _ hdata => (by cases hdata), ?_⟩
      change w.floor ≤ opened.pageCount
      rw [hat.pageCount]
      exact himage.floor
    · change (if options.hasLocal then LocalCopy.Ready else .None).Holds _ _ _ _
      split_ifs
      · exact hdisk
      · trivial
  have hwatched := loadBlocks_watched hstarted (brings_trusted himage hversion (le_of_eq hat.pageCount))
    (checked_count hchecked)
    fun hcopy => ⟨hstarted.live, hstarted.sent, himage, hstarted.memory, ?_⟩
  · rw [hfill] at hwatched
    exact hwatched.2
  · change (if options.hasLocal then LocalCopy.Ready else .None) ≠ _ at hcopy
    change (if options.hasLocal then LocalCopy.Ready else .None).Holds _ _ _ _
    split_ifs at hcopy ⊢
    · exact absurd rfl hcopy
    · trivial

end Session

end RemoteVfs
