import RemoteVfs.Loads.Complete
import RemoteVfs.Session.Block

namespace RemoteVfs.Session

open Base Base.Prog Pages Database

variable (setup : Net.Setup) {db : Database Net} {options : OpenOptions} {image : Image} {i : Nat}

-- A block of the file that stays as it is in this version.
def sameBlock (image : Image) (i : Nat) : Watch where
  index := i
  size := image.pageSize
  floor := i + 1
  good data := data = image.block i
  blank h := absurd h (by omega)

-- The operation neither writes to the block nor cuts it off.
def Leaves (i size : Nat) : Op → Prop
  | .Write offset data => ∀ p, offset ≤ p → p < offset + data.length → p / size ≠ i
  | .Truncate bytes => i < divCeil bytes size
  | _ => True

theorem Leaves.sparing {op : Op} (h : Leaves i image.pageSize op) : Sparing (sameBlock image i) db op := by
  cases op with
  | Write offset data =>
      intro within chunk block hchunk
      obtain ⟨done, hdone, -, hindex, -⟩ := hchunk.round
      exact absurd hindex.symm (h (offset + done) (by omega) (by omega))
  | Truncate bytes => exact h
  | _ => trivial

-- The block is the version's wherever it is, and it is never shown as zeros in its place.
structure Unwritten (image : Image) (i : Nat) (db : Database Net) : Prop where
  watched : Watched setup (sameBlock image i) (sameBlock image i).OnDisk db
  resident : Resident i db.pages

variable {setup}

theorem Unwritten.step (h : Unwritten setup image i db) {op : Op} (hleaves : Leaves i image.pageSize op)
    (hreturns : op.Returns (Net.env setup) db) : Unwritten setup image i (op.run (Net.env setup) db) := by
  have hwatched := h.watched.step hleaves.sparing
  refine ⟨hwatched, Op.resident h.resident hreturns ?_ hwatched.memory.floor⟩
  rintro size rfl
  rw [h.watched.memory.size]
  exact hleaves

theorem source_unwritten :
    Pages.Admits (Carries (Unwritten setup image i)) (Fetch.source (Net.env setup)) where
  drops a b hsource hdrops h :=
    ⟨source_watched.drops a b hsource hdrops h.watched, h.resident.drops hdrops⟩
  fill db first count hasks h :=
    ⟨source_watched.fill db first count hasks h.watched, source_resident.fill db first count hasks h.resident⟩

-- What a read returns of the block.
theorem Unwritten.read (h : Unwritten setup image i db) {offset length : Nat} {value : Bytes × Bool}
    {after : Database Net}
    (hread : Database.read (Net.env setup) offset length db = (.ok value, after)) :
    value.1.length = length ∧ ShowsBlock image.pageSize i (image.block i) offset value.1 := by
  have hstays : Stays (Carries (Unwritten setup image i)) (Fetch.source (Net.env setup)) :=
    source_unwritten.stays
  have hspec := read_block hstays Fetch.source_brings (fun _ h => h.resident) (fun _ h => h.watched.memory.size)
    (fun _ data h hdata => h.watched.memory.block data hdata) offset length db h
  unfold Database.read unlessBroken at hread
  rw [get_bind] at hread
  cases hbroken : db.remote.broken with
  | some broken =>
      rw [hbroken] at hread
      cases hread
  | none =>
      rw [hbroken] at hread
      dsimp only at hread
      rw [hread] at hspec
      exact hspec.2

theorem Reached.unwritten {start : Database Net}
    (h : Reached setup (· = start)
      (fun db op => Leaves i image.pageSize op ∧ op.Returns (Net.env setup) db) db)
    (hstart : Unwritten setup image i start) : Unwritten setup image i db := by
  induction h with
  | Open h => exact h ▸ hstart
  | Step op _ hop ih => exact ih.step hop.1 hop.2

-- What an open leaves in memory.
theorem OpenedCoherent.stock (h : OpenedCoherent setup options db) :
    Stocked db.image (.new db.image.pageSize db.image.pageCount options.blocksPerFetch options.cap)
      db.pages ∧
    (options.blocksPerFetch = none → options.cap = none → ∀ i < db.image.pageCount,
      db.pages.block i ≠ none) := by
  obtain ⟨start, hfillable, hpages, hfill⟩ := h.filled
  obtain ⟨hstock, hall⟩ := Remote.fill_stock hfillable hfill
  have himage : db.image = start.image :=
    image_later hfillable.version hstock.loads.link.later.ext hstock.loads.sameVersion.version
  rw [himage, ← hpages]
  refine ⟨hstock.pages, fun hmode hcap => ?_⟩
  rw [← hfillable.count]
  refine hall ?_
  rw [hpages]
  simp [Pages.whole, Pages.new, hmode, hcap]

theorem OpenedCoherent.unwritten (h : OpenedCoherent setup options db)
    (hfetches : Fetches options.blocksPerFetch) (hi : i < db.image.pageCount) :
    Unwritten setup db.image i db := by
  obtain ⟨hstock, hall⟩ := h.stock
  refine ⟨h.watched ⟨rfl, rfl, hi⟩, ⟨?_, fun hdirty => ?_, fun hwhole => ?_, ?_⟩⟩
  · rw [hstock.count]
    exact hi
  · rw [hstock.clean] at hdirty
    exact absurd hdirty (SortedSet.notMem_empty i)
  · rw [hstock.shape.whole] at hwhole
    simp only [Pages.whole, Pages.new, Bool.and_eq_true, Option.isNone_iff_eq_none] at hwhole
    exact hall hwhole.1 hwhole.2 i hi
  · rw [hstock.shape.perFetch]
    exact hfetches

-- Everything is in memory.
theorem OpenedCoherent.block (h : OpenedCoherent setup options db) (hmode : options.blocksPerFetch = none)
    (hcap : options.cap = none) (i : Nat) :
    db.pages.block i = if i < db.image.pageCount then some (db.image.block i) else none := by
  obtain ⟨hstock, hall⟩ := h.stock
  split_ifs with hi
  · obtain ⟨data, hdata⟩ := Option.ne_none_iff_exists'.mp (hall hmode hcap i hi)
    rw [hdata, hstock.block hdata]
  · refine block_none_of_le hstock.sound ?_
    rw [hstock.count]
    exact Nat.le_of_not_lt hi

-- A copy that is ahead of the server.
theorem takeCopy_ahead {ω : Type} {E : Env ω} {db : Database ω} {head : Head} {world : ω}
    (hcopy : db.remote.copy = .Ready) (hhead : E.store.head db.world = (.ok (some head), world))
    (husable : Remote.usable db.remote db.pages head = true) (hahead : db.remote.version < head.version) :
    ∃ reason, (Remote.takeCopy E db).1 = .err reason := by
  have hworld : (onWorld E.store.head : Prog (Database ω) String (Option Head)) db =
      (.ok (some head), { db with source := { db.source with
        link := { db.source.link with world := world } } }) := by
    unfold onWorld onLink Link.outside Prog.zoom
    rw [show E.store.head db.source.link.world = _ from hhead]
  unfold Remote.takeCopy
  rw [get_bind, if_neg (by simp [hcopy]), bind_apply]
  unfold Prog.attempt
  rw [hworld]
  dsimp only
  rw [Option.filter_some, if_pos husable]
  dsimp only
  rw [if_pos hahead]
  exact ⟨_, rfl⟩

theorem openOn_ahead {ω : Type} {E : Env ω} {dbId : String} {desk : Desk ω} {opened : Pb.Opened}
    {link : Link ω} {head : Head} {world : ω} (hlocal : options.hasLocal = true)
    (hopen : Client.call E (.Open ⟨dbId, options.pageSize, options.create, options.takeover, none⟩)
      desk.link = (.ok (.Opened opened), link))
    (hhead : E.store.head link.world = (.ok (some head), world)) (hsubject : head.subject = options.subject)
    (hdbId : head.dbId = dbId) (hsize : head.pageSize = opened.pageSize)
    (hahead : opened.version < head.version) : ∃ reason, (openOn E dbId options desk).1 = .err reason := by
  unfold openOn
  rw [bind_apply]
  unfold onDesk Prog.zoom
  rw [hopen]
  dsimp only
  cases hchecked : checked opened none with
  | error err => exact ⟨err, rfl⟩
  | ok value =>
      obtain rfl := Remote.checked_ok hchecked
      dsimp only
      rw [gets_bind]
      set start : Database ω :=
        ⟨.new value.pageSize value.pageCount options.blocksPerFetch options.cap, desk.stats,
          ⟨openedRemote dbId options value link.client.logins, link⟩⟩ with hstart
      have hcopy : start.remote.copy = .Ready := by
        change (if options.hasLocal then LocalCopy.Ready else .None) = _
        rw [if_pos hlocal]
      have husable : Remote.usable start.remote start.pages head = true := by
        simp only [Remote.usable, Bool.and_eq_true, beq_iff_eq]
        exact ⟨⟨hsubject, hdbId⟩, hsize⟩
      obtain ⟨reason, hreason⟩ := takeCopy_ahead hcopy hhead husable hahead
      refine ⟨reason, ?_⟩
      unfold opening Prog.zoom
      dsimp only
      rw [← hstart, bind_apply]
      unfold Remote.fill
      rw [bind_apply]
      generalize Remote.takeCopy E start = run at hreason ⊢
      rcases run with ⟨_ | _ | _, after⟩
      · cases hreason
      · cases hreason
        rfl
      · cases hreason

-- Whatever the store holds and whichever of its calls fail: the file that was opened is the
-- server's, and is read as that if blocks are loaded. A copy that turns out to be ahead of the server
-- is not opened at all.
theorem opened_file_is_servers :
    (∀ (setup : Net.Setup) (options : OpenOptions) (db : Database Net), OpenedCoherent setup options db →
      (options.blocksPerFetch = none → options.cap = none → ∀ i,
        db.pages.block i = if i < db.image.pageCount then some (db.image.block i) else none) ∧
      db.pages.pageCount = db.image.pageCount ∧
      (Fetches options.blocksPerFetch → ∀ i < db.image.pageCount, ∀ later, Reached setup (· = db)
          (fun now op => Leaves i db.image.pageSize op ∧ op.Returns (Net.env setup) now) later →
        ∀ offset length value after,
          Database.read (Net.env setup) offset length later = (.ok value, after) →
            value.1.length = length ∧
              ShowsBlock db.image.pageSize i (db.image.block i) offset value.1)) ∧
    ∀ (ω : Type) (E : Env ω) (dbId : String) (options : OpenOptions) (desk : Desk ω) (opened : Pb.Opened)
      (link : Link ω) (head : Head) (world : ω), options.hasLocal = true →
      Client.call E (.Open ⟨dbId, options.pageSize, options.create, options.takeover, none⟩) desk.link =
        (.ok (.Opened opened), link) →
      E.store.head link.world = (.ok (some head), world) →
      head.subject = options.subject → head.dbId = dbId → head.pageSize = opened.pageSize →
      opened.version < head.version → ∃ reason, (openOn E dbId options desk).1 = .err reason := by
  refine ⟨fun setup options db h => ⟨h.block, h.stock.1.count, ?_⟩, ?_⟩
  · intro hfetches i hi later hlater offset length value after hread
    exact (Reached.unwritten hlater (h.unwritten hfetches hi)).read hread
  · intro ω E dbId options desk opened link head world hlocal hopen hhead hsubject hdbId hsize hahead
    exact openOn_ahead hlocal hopen hhead hsubject hdbId hsize hahead

-- A server with one block at version 1, and a copy of that block whose head says `version`.
def copiedNet (turns : Nat → Turn) (version : Nat) : Net :=
  { emptyNet turns with
    server := ⟨512, [.Other [1] 1 [⟨0, List.replicate 512 7⟩]], 0, none⟩
    disk := ⟨some (⟨"", "db", 512, 1, version⟩, true),
      fun i => if i = 0 then some (List.replicate 512 7) else none⟩ }

theorem copiedNet_fresh {turns : Nat → Turn} (h : (emptyNet turns).Fresh) (version : Nat) :
    (copiedNet turns version).Fresh where
  distinct := ⟨h.distinct.injective, h.distinct.nonempty, h.distinct.others⟩
  conns := rfl
  asked _ := rfl
  log j parts h := by
    cases j with
    | zero => cases h
    | succ j => cases h
  others j commitId pageCount blocks hj := by
    cases j with
    | succ j => cases hj
    | zero =>
        cases hj
        refine ⟨fun block hblock => ?_, fun k => ?_⟩
        · rw [List.mem_singleton.mp hblock]
          exact ⟨Nat.zero_lt_one, List.length_replicate⟩
        · change List.replicate (k + 1) 0 ≠ [1]
          simp [List.replicate_succ]

theorem copiedNet_trusted (turns : Nat → Turn) :
    (copiedNet turns 1).disk.Trusted (copiedNet turns 1).server "" "db" := by
  intro head hhead _ _
  cases hhead
  refine ⟨Nat.le_refl 1, fun i data hdata => ?_⟩
  change (if i < 1 then (if i = 0 then some (List.replicate 512 7) else none) else none) = some data at hdata
  split_ifs at hdata with hlt hzero
  · subst hzero
    cases hdata
    rfl

-- The store fails the first call, the one for its head.
def headless (n : Nat) : Turn where
  moves := [.Serve 0 {}]
  fail := if n = 11 then some "unreadable" else none

-- A store whose head is at version 2, and a server that is at version 1.
def aheadStore : LocalStore Client.Inbox :=
  { Client.noStore with head := pure (some ⟨"", "db", 512, 1, 2⟩) }

def olderServer : Client.Inbox := [.ok ⟨1, some (.Opened ⟨[], 1, 1, 512, 1, []⟩)⟩]

-- The copy is current in the first open and ahead in the second.
theorem opened_file_is_servers_copied :
    (∃ db value after,
      opened (Net.env sampleSetup) sampleConfig 0 "db" cachedOptions (copiedNet calm 1) = some db ∧
      db.image.pageCount = 1 ∧ db.pages.block 0 = some (db.image.block 0) ∧ db.pages.block 1 = none ∧
      Database.read (Net.env sampleSetup) 3 1 db = (.ok value, after) ∧
      value.1.getD 0 0 = (db.image.block 0).getD 3 0) ∧
    ∃ reason, (openOn (Client.scripted 2 aheadStore) "db" cachedOptions
      ⟨{}, Client.listening olderServer⟩).1 = .err reason := by
  refine ⟨?_, opened_file_is_servers.2 _ _ _ _ _ ⟨[], 1, 1, 512, 1, []⟩ _ ⟨"", "db", 512, 1, 2⟩ _ rfl rfl rfl
    rfl rfl rfl (by decide)⟩
  have hfacts : (opened (Net.env sampleSetup) sampleConfig 0 "db" cachedOptions (copiedNet calm 1)).any
      (fun db => decide (db.image.pageCount = 1 ∧ db.image.pageSize = 512) &&
        (Database.read (Net.env sampleSetup) 3 1 db).1.any fun _ => true) = true := by decide +kernel
  obtain ⟨db, hdb, hfacts⟩ := (Option.any_eq_true _ _).mp hfacts
  rw [Bool.and_eq_true, decide_eq_true_eq] at hfacts
  obtain ⟨⟨hcount, hsize⟩, hread⟩ := hfacts
  have hcoherent : OpenedCoherent sampleSetup cachedOptions db :=
    ⟨⟨sampleConfig, 0, "db", _, copiedNet_fresh calm_fresh 1, copiedNet_trusted calm, hdb⟩⟩
  obtain ⟨hblocks, -, hreads⟩ := opened_file_is_servers.1 sampleSetup cachedOptions db hcoherent
  have hblocks := hblocks rfl rfl
  rw [hcount] at hblocks hreads
  obtain ⟨value, hvalue, -⟩ := Outcome.of_any hread
  have hrun : Database.read (Net.env sampleSetup) 3 1 db = (.ok value, _) := Prod.ext hvalue rfl
  obtain ⟨hlength, hshows⟩ := hreads (by decide) 0 (by decide) db (.Open rfl) 3 1 value _ hrun
  have hbyte := hshows 0 (by omega) (by rw [hsize])
  rw [hsize] at hbyte
  exact ⟨db, value, _, hdb, hcount, hblocks 0, hblocks 1, hrun, hbyte⟩

-- The store's head cannot be read: the copy is dropped although it is ahead of the server. Where
-- `usize` has 32 bits, 2^32 blocks per fetch are none: a block of sevens is read as zeros.
theorem unreadable_head_is_opened :
    ((copiedNet headless 5).disk.head = some ⟨"", "db", 512, 1, 5⟩ ∧
      (opened (Net.env sampleSetup) sampleConfig 0 "db" cachedOptions (copiedNet headless 5)).any
        (fun db => decide (db.remote.version = 1 ∧ db.world.server.version = 1 ∧ db.pages.pageSize = 512 ∧
          db.remote.subject = "" ∧ db.remote.dbId = "db")) = true) ∧
    (opened (Net.env { sampleSetup with native := false }) sampleConfig 0 "db"
        { cachedOptions with blocksPerFetch := some ⟨2 ^ 32, 32⟩ } (copiedNet calm 1)).any
      (fun db => decide ((db.image.block 0).getD 0 0 = 7) &&
        (Database.read (Net.env { sampleSetup with native := false }) 0 1 db).1.any (·.1 = [0])) = true := by
  decide +kernel

end RemoteVfs.Session
