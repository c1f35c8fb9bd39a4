import RemoteVfs.Instance.Keeper
import RemoteVfs.MainFile
import RemoteVfs.Session.Block

namespace RemoteVfs

open Base Base.Prog Link Pages Database

-- Only the first 92 bytes count.
theorem plaintextHeader_congr {page other : Bytes} (h : page.take 92 = other.take 92) :
    plaintextHeader page = plaintextHeader other := by
  have hlength : 92 ≤ page.length ↔ 92 ≤ other.length := by
    have := congrArg List.length h
    simp only [List.length_take] at this
    omega
  have htake : page.take 16 = other.take 16 := by
    simpa [List.take_take] using congrArg (List.take 16) h
  have hfixed : (page.drop 21).take 3 = (other.drop 21).take 3 := by
    simpa [List.drop_take, List.take_take] using congrArg (fun bytes => (bytes.drop 21).take 3) h
  have hreserved : (page.drop 72).take 20 = (other.drop 72).take 20 := by
    simpa [List.drop_take] using congrArg (List.drop 72) h
  unfold plaintextHeader
  rw [htake, hfixed, hreserved]
  simp only [hlength]

theorem plaintextHeader_zeros (size : Nat) : plaintextHeader (zeros size) = false := by
  have hmagic : ((zeros size).take 16 == SQLITE_MAGIC) = false := by
    rw [beq_eq_false_iff_ne]
    intro h
    have hhead := congrArg List.head? h
    cases size with
    | zero => simp [zeros, SQLITE_MAGIC] at hhead
    | succ size => simp [zeros, SQLITE_MAGIC, List.replicate_succ] at hhead
  simp [plaintextHeader, hmagic]

theorem plaintextHeader_of_short {page : Bytes} (h : page.length < 92) : plaintextHeader page = false := by
  simp [plaintextHeader, Nat.not_le.mpr h]

-- SQLite writes one page, at a multiple of its size.
structure WholePage (offset : Nat) (data : Bytes) : Prop where
  low : 512 ≤ data.length
  high : data.length ≤ 65536
  aligned : data.length ∣ offset

-- A page that is written into block 0 brings its own header, or leaves the header alone.
theorem plaintextHeader_overlay {offset size within : Nat} {data chunk block : Bytes}
    (hpage : WholePage offset data) (hplain : offset = 0 → plaintextHeader data = false) (hsize : 92 ≤ size)
    (hchunk : Chunk offset data size 0 within chunk) (hfit : within + chunk.length ≤ block.length)
    (hblock : plaintextHeader block = false) : plaintextHeader (overlay block within chunk) = false := by
  obtain ⟨done, hdone, hstart, hindex, rfl, rfl⟩ := hchunk.round
  have hlow := hpage.low
  have hwhole : offset + done = (offset + done) % size := by
    have hdiv := Nat.div_add_mod (offset + done) size
    rw [← hindex, Nat.mul_zero, Nat.zero_add] at hdiv
    exact hdiv.symm
  obtain rfl : done = 0 := by omega
  rw [Nat.add_zero] at hwhole hfit ⊢
  by_cases hoffset : offset = 0
  · rw [← hplain hoffset]
    subst hoffset
    apply plaintextHeader_congr
    simp only [overlay, Nat.zero_mod, Nat.sub_zero, List.drop_zero, List.take_zero, List.nil_append]
    rw [List.take_append_of_le_length (by rw [List.length_take]; omega), List.take_take]
    congr 1
    omega
  · rw [← hblock]
    apply plaintextHeader_congr
    have hwithin : 92 ≤ offset % size := by
      obtain ⟨factor, rfl⟩ := hpage.aligned
      have hfactor : 0 < factor := Nat.pos_of_ne_zero (by rintro rfl; simp at hoffset)
      have := Nat.le_mul_of_pos_right data.length hfactor
      omega
    rw [overlay, List.append_assoc, List.take_append_of_le_length (by rw [List.length_take]; omega),
      List.take_take]
    congr 1
    omega

-- A block of `size` bytes. In block 0 there is no plaintext header.
def headerWatch (index size : Nat) : Watch where
  index := index
  size := size
  floor := 0
  good data := (index = 0 → plaintextHeader data = false) ∧ data.length = size
  blank _ := ⟨fun _ => plaintextHeader_zeros size, length_zeros size⟩

theorem keeps_page {index size offset : Nat} {data : Bytes} (hpage : WholePage offset data)
    (hplain : offset = 0 → plaintextHeader data = false) : (headerWatch index size).Keeps offset data := by
  intro within chunk block hchunk hblock hfit
  have hgood : (headerWatch index size).good block := by
    rcases hblock with hgood | rfl
    · exact hgood
    · exact (headerWatch index size).blank (Nat.zero_le _)
  have hlength := (length_overlay block chunk within hfit).trans hgood.2
  refine ⟨fun hindex => ?_, hlength⟩
  by_cases hsize : 92 ≤ size
  · have hfirst : Chunk offset data size 0 within chunk := hindex ▸ hchunk
    exact plaintextHeader_overlay hpage hplain hsize hfirst hfit (hgood.1 hindex)
  · exact plaintextHeader_of_short (by omega)

-- What a bridge to the connection worker keeps of a local database: its blocks, and the commits
-- that were stored. In an `Open` world the database is open with an epoch and a page size, and all
-- requests were answered. A read returns what is stored, a missing block as zeros, and a commit
-- stores nothing but its blocks. `Free` are the worlds in which it can be opened, with a takeover
-- or without.
structure BridgeStore {τ : Type} (bridge : LocalBridge τ) where
  Free : Bool → τ → Prop
  Open : Nat → Nat → τ → Prop
  block : τ → Nat → Option Bytes
  commits : τ → List (List (Nat × Bytes))
  opens : ∀ name pageSize create takeover,
    Triple (Free takeover) (bridge.openDatabase name pageSize create takeover) fun o world =>
      ∀ opened, o = .ok opened → Open opened.epoch opened.pageSize world
  now : ∀ {epoch pageSize world}, Open epoch pageSize world → Open epoch pageSize (bridge.now world).2 ∧
    block (bridge.now world).2 = block world ∧ commits (bridge.now world).2 = commits world
  read : ∀ epoch pageSize stored made first count,
    Triple (fun world => Open epoch pageSize world ∧ block world = stored ∧ commits world = made)
      (bridge.read first count) fun o world => commits world = made ∧
        ((∀ refusal, o = .err refusal → refusal.loses = false) →
          Open epoch pageSize world ∧ block world = stored) ∧
        o.Meets (fun _ => True) fun blocks => ∀ k data, blocks[k]? = some data →
          stored (first + k) = some data ∨ ∃ size, data = zeros size
  commit : ∀ epoch pageSize stored made pageCount blocks, (∀ entry ∈ blocks, entry.2.length = pageSize) →
    Triple (fun world => Open epoch pageSize world ∧ block world = stored ∧ commits world = made)
      (bridge.commit epoch pageCount blocks) fun o world =>
        (commits world = made ∨ commits world = made ++ [blocks]) ∧
        ((∀ refusal, o ≠ .err refusal) → Open epoch pageSize world ∧ ∀ i data, block world i = some data →
          stored i = some data ∨ (i, data) ∈ blocks ∨ ∃ size, data = zeros size)

-- The bridge, with the commits that were handed to it.
def LocalBridge.logged {τ : Type} (bridge : LocalBridge τ) : LocalBridge (τ × List (List (Nat × Bytes))) where
  openDatabase name pageSize create takeover :=
    Prog.zoom Prod.fst (fun world logged => (world, logged.2)) (bridge.openDatabase name pageSize create takeover)
  read first count := Prog.zoom Prod.fst (fun world logged => (world, logged.2)) (bridge.read first count)
  commit epoch pageCount blocks :=
    Prog.zoom Prod.fst (fun world logged => (world, logged.2 ++ [blocks])) (bridge.commit epoch pageCount blocks)
  close logged := (bridge.close logged.1, logged.2)
  now logged := ((bridge.now logged.1).1, (bridge.now logged.1).2, logged.2)
  debugBroken := bridge.debugBroken

theorem logged_read {τ : Type} (bridge : LocalBridge τ) (first count : Nat)
    (logged : τ × List (List (Nat × Bytes))) : bridge.logged.read first count logged =
      ((bridge.read first count logged.1).1, (bridge.read first count logged.1).2, logged.2) := rfl

theorem logged_commit {τ : Type} (bridge : LocalBridge τ) (epoch pageCount : Nat) (blocks : List (Nat × Bytes))
    (logged : τ × List (List (Nat × Bytes))) : bridge.logged.commit epoch pageCount blocks logged =
      ((bridge.commit epoch pageCount blocks logged.1).1, (bridge.commit epoch pageCount blocks logged.1).2,
        logged.2 ++ [blocks]) := rfl

theorem overlaid_cases {pageSize pageCount i : Nat} {blocks : List (Nat × Bytes)} {stored : Nat → Bytes} :
    stored i = overlaid pageSize pageCount blocks stored i ∨
      (i, overlaid pageSize pageCount blocks stored i) ∈ blocks ∨
      ∃ size, overlaid pageSize pageCount blocks stored i = zeros size := by
  unfold overlaid
  split_ifs
  · cases hfind : blocks.reverse.find? (·.1 = i) with
    | none => exact Or.inl rfl
    | some entry =>
        have hindex : entry.1 = i := by simpa using List.find?_some hfind
        have hmem := List.mem_reverse.mp (List.mem_of_find?_eq_some hfind)
        refine Or.inr (Or.inl ?_)
        rw [← hindex]
        exact hmem
  · exact Or.inr (Or.inr ⟨pageSize, rfl⟩)

-- The store behind a local database that nobody takes over.
def Keeper.bridgeStore {τ : Type} {bridge : LocalBridge τ} (keeper : Keeper bridge) :
    BridgeStore bridge.logged where
  Free takeover logged := takeover = false ∧ keeper.Free logged.1
  Open epoch pageSize logged := ∃ pageCount stored, keeper.Holds epoch pageSize pageCount stored logged.1
  block logged i := some (keeper.blocks logged.1 i)
  commits logged := logged.2
  opens name pageSize create takeover := by
    rintro logged ⟨rfl, hfree⟩ opened hopened
    obtain ⟨stored, hholds⟩ := keeper.opens name pageSize create logged.1 hfree opened hopened
    exact ⟨opened.pageCount, stored, hholds⟩
  now := by
    rintro epoch pageSize logged ⟨pageCount, stored, hholds⟩
    have hnow := keeper.now hholds
    exact ⟨⟨pageCount, stored, hnow⟩,
      funext fun i => congrArg (fun blocks => some (blocks i))
        ((keeper.stores hnow).trans (keeper.stores hholds).symm), rfl⟩
  read epoch pageSize shown made first count := by
    rintro logged ⟨⟨pageCount, stored, hholds⟩, rfl, rfl⟩
    have hread := keeper.reads epoch pageSize pageCount stored first count logged.1 hholds
    have hkept : ∀ {world}, keeper.Holds epoch pageSize pageCount stored world →
        (∃ pageCount stored, keeper.Holds epoch pageSize pageCount stored world) ∧
          (fun i => some (keeper.blocks world i)) = fun i => some (keeper.blocks logged.1 i) := by
      intro world h
      rw [keeper.stores h, keeper.stores hholds]
      exact ⟨⟨pageCount, stored, h⟩, rfl⟩
    rw [logged_read]
    generalize bridge.read first count logged.1 = run at hread ⊢
    obtain ⟨blocks | refusal | _, world⟩ := run
    · obtain ⟨hafter, rfl⟩ := hread
      refine ⟨rfl, fun _ => hkept hafter, fun k data hk => Or.inl ?_⟩
      simp only [List.getElem?_map, Option.map_eq_some_iff] at hk
      obtain ⟨i, hi, rfl⟩ := hk
      obtain ⟨hlt, rfl⟩ := List.getElem?_eq_some_iff.mp hi
      rw [List.getElem_range', Nat.one_mul, keeper.stores hholds]
    · exact ⟨rfl, fun hloses => hkept (hread.2 (hloses refusal rfl)), trivial⟩
    · exact hread.elim
  commit epoch pageSize shown made pageCount blocks hsized := by
    rintro logged ⟨⟨before, stored, hholds⟩, rfl, rfl⟩
    have hcommit := keeper.commits epoch pageSize before stored pageCount blocks hsized logged.1 hholds
    rw [logged_commit]
    generalize bridge.commit epoch pageCount blocks logged.1 = run at hcommit ⊢
    obtain ⟨_ | refusal | _, world⟩ := run
    · refine ⟨Or.inr rfl, fun _ => ⟨⟨pageCount, _, hcommit⟩, fun i data hdata => ?_⟩⟩
      dsimp only at hdata ⊢
      rw [keeper.stores hcommit] at hdata
      rw [keeper.stores hholds]
      cases hdata
      exact overlaid_cases.imp_left (congrArg some)
    · exact ⟨Or.inr rfl, fun hok => absurd rfl (hok refusal)⟩
    · exact hcommit.elim

-- None of these blocks is a block 0 with a plaintext header.
def Sealed (blocks : List (Nat × Bytes)) : Prop :=
  ∀ entry ∈ blocks, entry.1 = 0 → plaintextHeader entry.2 = false

-- Nor is the stored one.
def Clean (stored : Nat → Option Bytes) : Prop := ∀ data, stored 0 = some data → plaintextHeader data = false

namespace LocalDatabase

variable {τ : Type} {bridge : LocalBridge τ} (store : BridgeStore bridge) {α : Type}

-- The database is broken, or it is open with these blocks, and so many commits are stored. If the
-- blocks have no plaintext header, there is none in memory.
structure Rests (epoch size : Nat) (stored : Nat → Option Bytes) (made : List (List (Nat × Bytes)))
    (db : LocalDatabase τ) : Prop where
  same : db.source.epoch = epoch
  holds : db.source.broken = none →
    store.Open epoch size db.source.world ∧ store.block db.source.world = stored
  commits : store.commits db.source.world = made
  memory : Clean stored → ∀ i, (headerWatch i size).InMemory db.pages
  size : db.pages.pageSize = size

-- Neither the memory nor the store has a plaintext header, and nor has any commit that was
-- stored after those in `before`.
def Sealing (epoch size : Nat) (before : List (List (Nat × Bytes))) (db : LocalDatabase τ) : Prop :=
  ∃ stored made, Clean stored ∧ (∀ blocks ∈ made, Sealed blocks) ∧
    Rests store epoch size stored (before ++ made) db

variable {store} {epoch size : Nat} {stored : Nat → Option Bytes} {made before : List (List (Nat × Bytes))}

-- Only the pages and the counters change.
theorem Rests.pages {db after : LocalDatabase τ} (h : Rests store epoch size stored made db)
    (hsource : after.source = db.source) (hsize : after.pages.pageSize = db.pages.pageSize)
    (hmemory : (∀ i, (headerWatch i size).InMemory db.pages) → ∀ i, (headerWatch i size).InMemory after.pages) :
    Rests store epoch size stored made after :=
  ⟨hsource ▸ h.same, hsource ▸ h.holds, hsource ▸ h.commits, fun hclean => hmemory (h.memory hclean),
    hsize.trans h.size⟩

theorem Sealing.pages {db after : LocalDatabase τ} (h : Sealing store epoch size before db)
    (hsource : after.source = db.source)
    (hmemory : ∀ i, (headerWatch i size).InMemory db.pages → (headerWatch i size).InMemory after.pages) :
    Sealing store epoch size before after := by
  obtain ⟨stored, made, hclean, hsealed, hrests⟩ := h
  have hpages := hrests.memory hclean
  refine ⟨stored, made, hclean, hsealed, hrests.pages hsource ?_ fun h i => hmemory i (h i)⟩
  exact (hmemory 0 (hpages 0)).size.trans (hpages 0).size.symm

-- A broken database does not use the store any more.
theorem Rests.lost {db after : LocalDatabase τ} (h : Rests store epoch size stored made db)
    (hepoch : after.source.epoch = db.source.epoch) (hbroken : after.source.broken ≠ none)
    (hcommits : store.commits after.source.world = made) (hpages : after.pages = db.pages) :
    Rests store epoch size stored made after :=
  ⟨hepoch.trans h.same, fun hnone => absurd hnone hbroken, hcommits, hpages ▸ h.memory, hpages ▸ h.size⟩

theorem readBlocks_rests (first count : Nat) :
    Triple (fun db => Rests store epoch size stored made db ∧ db.source.broken = none)
      (Prog.handle (onWorld (bridge.read first count)) Load.refuseRead)
      (Ends (Rests store epoch size stored made) fun blocks db => db.source.broken = none ∧
        ∀ k data, blocks[k]? = some data → stored (first + k) = some data ∨ ∃ size, data = zeros size) := by
  rintro db ⟨h, hbroken⟩
  obtain ⟨hopen, hblock⟩ := h.holds hbroken
  have hread := store.read epoch size stored made first count db.source.world ⟨hopen, hblock, h.commits⟩
  unfold Prog.handle onWorld Prog.zoom
  generalize bridge.read first count db.source.world = run at hread ⊢
  obtain ⟨o, world⟩ := run
  obtain ⟨hcommits, hkept, hmeets⟩ := hread
  have hafter : (∀ refusal, o = .err refusal → refusal.loses = false) → Rests store epoch size stored made
      { db with source := { db.source with world := world } } :=
    fun hloses => ⟨h.same, fun _ => hkept hloses, hcommits, h.memory, h.size⟩
  have hlost (broken : Broken) : Rests store epoch size stored made
      { db with source := { db.source with world := world, broken := some broken } } :=
    h.lost rfl nofun hcommits rfl
  cases o with
  | ok blocks => exact ⟨hafter nofun, hbroken, hmeets⟩
  | hang => exact ⟨hafter nofun, trivial⟩
  | err refusal =>
      cases refusal with
      | Busy => exact ⟨hlost _, trivial⟩
      | NoAnswer reason => exact ⟨hlost _, trivial⟩
      | _ =>
          refine ⟨hafter fun other heq => ?_, trivial⟩
          cases heq
          rfl

theorem fillStep_rests (last next : Nat) :
    Triple (fun db => Rests store epoch size stored made db ∧ db.source.broken = none)
      (Load.fillStep bridge last next)
      (Ends (Rests store epoch size stored made)
        (orDone (fun _ db => db.source.broken = none) fun _ db => db.source.broken = none)) := by
  intro db h
  unfold Load.fillStep
  split_ifs with hend
  · exact h
  rw [gets_bind]
  generalize hcount : min (maxRead db.pages.pageSize) (last - next) = count
  have hblocks := readBlocks_rests next count db h
  rw [bind_apply]
  generalize Prog.handle (onWorld (bridge.read next count)) Load.refuseRead db = run at hblocks ⊢
  rcases run with ⟨blocks | reason | _, after⟩
  · obtain ⟨hafter, hbroken, hread⟩ := hblocks
    dsimp only
    cases hfind : blocks.find? (·.length ≠ db.pages.pageSize) with
    | some data => exact ⟨hafter, trivial⟩
    | none =>
        refine ⟨⟨hafter.same, hafter.holds, hafter.commits, fun hclean i => ?_, ?_⟩, hbroken⟩
        · refine (hafter.memory hclean i).keepAll fun entry hentry hindex => ?_
          obtain ⟨k, hk, hoffset, -⟩ := Fetch.mem_mapIdx_offset hentry
          have hlength := List.find?_eq_none.mp hfind entry.2 (List.mem_of_getElem? hk)
          rw [decide_eq_true_eq, not_not, h.1.size] at hlength
          refine ⟨fun hzero => ?_, hlength⟩
          rcases hread k entry.2 hk with hstored | ⟨size, hzeros⟩
          · exact hclean _ ((hoffset.symm.trans (hindex.trans hzero)) ▸ hstored)
          · rw [hzeros]
            exact plaintextHeader_zeros size
        · exact (shape_keepAll _ _).pageSize.trans hafter.size
  · exact ⟨hblocks.1, trivial⟩
  · exact ⟨hblocks.1, trivial⟩

theorem fill_rests (first count : Nat) :
    Triple (Rests store epoch size stored made) (Load.fill bridge first count)
      (Ends (Rests store epoch size stored made) fun _ db => db.source.broken = none) := by
  intro db h
  unfold Load.fill
  rw [get_bind]
  cases hbroken : db.source.broken with
  | some broken => exact ⟨h, trivial⟩
  | none => exact Ends.loop (fun _ db => db.source.broken = none) (fillStep_rests _) _ _ db ⟨h, hbroken⟩

theorem source_sealing : Pages.Admits (Carries (Sealing store epoch size before)) (Load.source bridge) where
  drops _ _ hsource hdrops h := h.pages hsource fun _ hmemory => hmemory.drops hdrops
  fill db first count _ h := by
    obtain ⟨stored, made, hclean, hsealed, hrests⟩ := h
    exact ⟨stored, made, hclean, hsealed, (fill_rests first count db hrests).1⟩

theorem unlessBroken_sealing {body : Prog (LocalDatabase τ) Broken α}
    (hbody : ∀ db, db.source.broken = none → Carries (Sealing store epoch size before) db (body db).2) :
    Moves (Carries (Sealing store epoch size before)) (unlessBroken body) := by
  intro db h
  unfold unlessBroken
  rw [get_bind]
  cases hbroken : db.source.broken with
  | some broken => exact h
  | none => exact hbody db hbroken h

theorem now_sealing :
    Triple (fun db => Sealing store epoch size before db ∧ db.source.broken = none)
      (onWorld fun world => (.ok (bridge.now world).1, (bridge.now world).2) :
        Prog (LocalDatabase τ) Broken Nat)
      (Ends (Sealing store epoch size before) fun _ db => db.source.broken = none) := by
  rintro db ⟨⟨stored, made, hclean, hmade, h⟩, hbroken⟩
  obtain ⟨hopen, hblock⟩ := h.holds hbroken
  obtain ⟨hafter, hsame, hcommits⟩ := store.now hopen
  exact ⟨⟨stored, made, hclean, hmade, h.same, fun _ => ⟨hafter, hsame.trans hblock⟩,
    hcommits.trans h.commits, h.memory, h.size⟩, hbroken⟩

theorem storeCommit_sealing {blocks : List (Nat × Bytes)} (hsealed : Sealed blocks)
    (hsized : ∀ entry ∈ blocks, entry.2.length = size) (pageCount : Nat) :
    Triple (fun db => Sealing store epoch size before db ∧ db.source.broken = none)
      (Prog.handle (onWorld (bridge.commit epoch pageCount blocks)) fun refusal => breakWith (reasonOf refusal) :
        Prog (LocalDatabase τ) Broken Unit)
      (Ends (Sealing store epoch size before) fun _ db => db.source.broken = none) := by
  rintro db ⟨⟨stored, made, hclean, hmade, hrests⟩, hbroken⟩
  obtain ⟨hopen, hblock⟩ := hrests.holds hbroken
  have hcommit := store.commit epoch size stored (before ++ made) pageCount blocks hsized db.source.world
    ⟨hopen, hblock, hrests.commits⟩
  unfold Prog.handle onWorld Prog.zoom
  generalize bridge.commit epoch pageCount blocks db.source.world = run at hcommit ⊢
  obtain ⟨o, world⟩ := run
  obtain ⟨hcommits, hkept⟩ := hcommit
  obtain ⟨more, hlog, hmore⟩ :
      ∃ more, store.commits world = before ++ more ∧ ∀ blocks ∈ more, Sealed blocks := by
    rcases hcommits with hsame | hmore
    · exact ⟨made, hsame, hmade⟩
    · refine ⟨made ++ [blocks], hmore.trans (List.append_assoc ..), fun other hother => ?_⟩
      rcases List.mem_append.mp hother with hold | hnew
      · exact hmade other hold
      · rw [List.mem_singleton.mp hnew]
        exact hsealed
  have hopened : (∀ refusal, o ≠ .err refusal) → Sealing store epoch size before
      { db with source := { db.source with world := world } } := by
    intro hok
    obtain ⟨hopen, hblocks⟩ := hkept hok
    have hstays : Clean (store.block world) := by
      intro data hdata
      rcases hblocks 0 data hdata with hold | hnew | ⟨size, rfl⟩
      · exact hclean data hold
      · exact hsealed (0, data) hnew rfl
      · exact plaintextHeader_zeros size
    exact ⟨_, more, hstays, hmore, hrests.same, fun _ => ⟨hopen, rfl⟩, hlog,
      fun _ => hrests.memory hclean, hrests.size⟩
  cases o with
  | ok value => exact ⟨hopened nofun, hbroken⟩
  | hang => exact ⟨hopened nofun, trivial⟩
  | err refusal =>
      exact ⟨⟨stored, more, hclean, hmore, hrests.same, nofun, hlog, hrests.memory, hrests.size⟩, trivial⟩

theorem commitDone_sealing (blocks time : Nat) : Moves (Carries (Sealing store epoch size before))
    (commitDone blocks time : Prog (LocalDatabase τ) Broken Unit) := by
  refine Moves.bind (Moves.gets _) fun _ => Moves.bind (Moves.modify fun _ h => h.pages rfl fun _ h => h) ?_
  refine fun _ => Moves.bind (Moves.modify fun _ h => h.pages rfl fun _ h => ?_) fun _ => ?_
  · exact ⟨h.size, h.block, h.floor⟩
  · exact Moves.bind (Moves.modify fun _ h => h.pages rfl fun _ h => h.drops (drops_makeRoom _ _ _))
      fun _ => Moves.modify fun _ h => h.pages rfl fun _ h => h

theorem commit_sealing : Moves (Carries (Sealing store epoch size before)) (commit bridge) := by
  refine unlessBroken_sealing fun db hbroken h => ?_
  rw [get_bind]
  split_ifs
  · exact h
  obtain ⟨stored, made, hclean, -, hrests⟩ := id h
  have hgood : ∀ entry ∈ db.pages.dirtyBlocks, (headerWatch entry.1 size).good entry.2 := fun entry hentry =>
    (hrests.memory hclean entry.1).block entry.2 (Remote.mem_held hentry).2
  rw [hrests.same]
  refine (Ends.bind now_sealing (fun started => Ends.bind ?_ fun _ => Ends.bind now_sealing fun ended =>
    Carries.ends (commitDone_sealing _ _) fun _ h => h.1) db ⟨h, hbroken⟩).1
  exact storeCommit_sealing (fun entry hentry => (hgood entry hentry).1)
    (fun entry hentry => (hgood entry hentry).2) _

-- Opening loads blocks of the store.
theorem openOn_sealing {name : String} {options : LocalOptions} {desk after : Desk τ} {db : LocalDatabase τ}
    (hfree : store.Free options.takeover desk.world)
    (h : openOn bridge name options desk = (.ok db, after)) (hclean : Clean (store.block db.source.world)) :
    Sealing store db.source.epoch db.pages.pageSize (store.commits db.source.world) db := by
  unfold openOn at h
  rw [bind_apply] at h
  have hopens := store.opens name options.pageSize options.create options.takeover desk.world hfree
  unfold Prog.zoom at h
  generalize bridge.openDatabase name options.pageSize options.create options.takeover desk.world = run
    at h hopens
  rcases run with ⟨opened | refusal | _, world⟩
  · have hopen : store.Open opened.epoch opened.pageSize world := hopens opened rfl
    dsimp only at h
    split_ifs at h
    · cases h
    unfold opening at h
    dsimp only at h
    set start : LocalDatabase τ :=
      ⟨.new opened.pageSize opened.pageCount options.blocksPerFetch options.cap, desk.stats,
        ⟨opened.epoch, none, world⟩⟩ with hstart
    have hrests : Rests store opened.epoch opened.pageSize (store.block world) (store.commits world) start :=
      ⟨rfl, fun _ => ⟨hopen, rfl⟩, rfl, fun _ _ => ⟨rfl, fun _ hdata => (by cases hdata), Nat.zero_le _⟩, rfl⟩
    have hloaded : Ends (Rests store opened.epoch opened.pageSize (store.block world) (store.commits world))
        (fun _ db => db.source.broken = none)
        (if !start.pages.onDemand && decide (0 < start.pages.pageCount) then
          Load.fill bridge 0 start.pages.pageCount start else (.ok (), start)).1
        (if !start.pages.onDemand && decide (0 < start.pages.pageCount) then
          Load.fill bridge 0 start.pages.pageCount start else (.ok (), start)).2 := by
      split_ifs
      · exact fill_rests _ _ start hrests
      · exact ⟨hrests, rfl⟩
    generalize (if !start.pages.onDemand && decide (0 < start.pages.pageCount) then
      Load.fill bridge 0 start.pages.pageCount start else (.ok (), start)) = loaded at h hloaded
    rcases loaded with ⟨_ | _ | _, last⟩
    · cases h
      obtain ⟨hlast, hbroken⟩ := hloaded
      have hdone : Rests store opened.epoch opened.pageSize (store.block world) (store.commits world)
          (Held.count (Held.makeRoom 0 last)) :=
        hlast.pages rfl (drops_makeRoom _ _ _).shape.pageSize fun h i => (h i).drops (drops_makeRoom _ _ _)
      have hblock := (hdone.holds hbroken).2
      rw [hblock] at hclean
      rw [hdone.same, hdone.size, hdone.commits]
      exact ⟨_, [], hclean, nofun, (List.append_nil _).symm ▸ hdone⟩
    · cases h
    · cases h
  · cases h
  · cases h

theorem write_sealing {offset : Nat} {data : Bytes} (hpage : WholePage offset data)
    (hplain : offset = 0 → plaintextHeader data = false) :
    Moves (Carries (Sealing store epoch size before)) (write bridge offset data) := by
  have hsize : ∀ db, Sealing store epoch size before db → db.pages.pageSize = size := by
    rintro db ⟨_, _, _, _, hrests⟩
    exact hrests.size
  refine unlessBroken_sealing fun db _ => write_carries source_sealing.stays hsize (fun _ _ _ _ h hchunk hfit => ?_) db
  exact h.pages rfl fun _ h => h.put (keeps_page hpage hplain) hchunk hfit

theorem truncate_sealing (newSize : Nat) :
    Moves (Carries (Sealing store epoch size before)) (truncate newSize) :=
  unlessBroken_sealing fun _ _ h => h.pages rfl fun _ h => h.truncate (Nat.zero_le _)

end LocalDatabase

namespace Session

-- Before an operation the file is healed.
theorem healServer_watched {setup : Net.Setup} {w : Watch} {ε : Type} :
    Moves (Carries (Watched setup w w.OnDisk))
      (MainFile.healServer (Net.env setup) : Prog (Database Net) ε (Option (Option Failure))) := by
  have hreachable : Moves (Moved NoCommit Eq)
      (Client.reachable (Net.env setup) : Prog (Link Net) ε Bool) := by
    refine Moves.bind (Moves.gets _) fun client => Moves.ite ?_ (Moves.pure _)
    exact outside_moved (Net.quiet_tick fun turn => .ok turn.yes)
  refine Moves.bind (Moves.gets _) fun db => Moves.ite ?_ (Moves.pure _)
  refine Moves.bind (onLink_watched hreachable) fun reachable => Moves.ite ?_ (Moves.pure _)
  refine Moves.bind (Moves.attempt heal_watched) fun result => ?_
  cases result with
  | ok value => exact Moves.pure _
  | error broken => exact Moves.pure _

end Session

-- The database is not broken by refused plaintext. `broken` looks up why it is broken.
def Unrefused {τ : Type} (broken : τ → Option Broken) (held : Held τ) : Prop :=
  broken held.source ≠ some .Plaintext

def Refusing {τ : Type} (broken : τ → Option Broken) (reason : Broken) (held : Held τ) : Prop :=
  reason = .Plaintext → broken held.source = some .Plaintext

theorem carries_unrefused {τ ε α : Type} {broken : τ → Option Broken} {body : Prog (Held τ) ε α}
    (h : Moves (Same fun held => broken held.source) body) : Moves (Carries (Unrefused broken)) body := by
  intro held hunrefused
  have hsame : broken (body held).2.source = broken held.source := h held
  unfold Unrefused
  rw [hsame]
  exact hunrefused

theorem write_ne_plaintext {τ : Type} {broken : τ → Option Broken} {source : Source τ}
    (hmoves : ∀ first count, Moves (Carries (Unrefused broken)) (source.fill first count))
    (hfails : ∀ first count, Fails (Refusing broken) (source.fill first count)) {held : Held τ}
    (hheld : broken held.source = none) (offset : Nat) (data : Bytes) :
    (Pages.write source offset data held).1 ≠ .err .Plaintext := by
  intro hresult
  have hrespects : Respects (Carries (Unrefused broken)) source := by
    refine ⟨fun a b hsource _ h => ?_, fun held first count _ => hmoves first count held⟩
    unfold Unrefused
    rw [hsource]
    exact h
  have hafter := write_respects hrespects offset data held (by simp [Unrefused, hheld])
  exact hafter (write_fails hfails offset data held _ _ (Prod.ext hresult rfl) rfl)

namespace Fetch

variable {ω : Type} (E : Env ω)

theorem takeFromCopy_same {ε : Type} (first count : Nat) :
    Moves (Same fun db => db.remote.broken) (Remote.takeFromCopy E first count : Prog (Database ω) ε Bool) := by
  have hdrop : Moves (Same fun db => db.remote.broken) (Remote.dropCopy : Prog (Database ω) ε Unit) :=
    fun _ => rfl
  refine Moves.bind (Moves.gets _) fun db => Moves.ite (Moves.pure _) ?_
  refine Moves.bind (Moves.modify fun _ => rfl) fun _ => ?_
  refine Moves.bind (Moves.attempt fun _ => rfl) ?_
  rintro (_ | ⟨read, copy⟩)
  · exact Moves.bind hdrop fun _ => Moves.pure _
  · refine Moves.bind (Moves.modify fun _ => rfl) fun _ => Moves.ite ?_ ?_
    · exact Moves.bind (Moves.modify fun _ => rfl) fun _ => Moves.pure _
    · refine Moves.bind (Moves.modify fun _ => rfl) fun _ => ?_
      exact Moves.bind (Moves.modify fun _ => rfl) fun _ => Moves.pure _

theorem load_same (first count : Nat) : Moves (Same fun db => db.remote.broken) (Remote.load E first count) := by
  refine Moves.bind (fun _ => rfl) fun _ => Moves.bind (Moves.gets _) fun db => ?_
  refine Moves.bind (fun _ => rfl) fun loaded => Moves.bind (fun _ => rfl) fun _ => ?_
  exact Moves.bind (Moves.modify fun _ => rfl) fun _ => Moves.modify fun _ => rfl

theorem breakWith_unrefused {α : Type} {reason : Broken} (hne : reason ≠ .Plaintext) :
    Moves (Carries (Unrefused fun source : Fetch ω => source.remote.broken))
      (Database.breakWith reason : Prog (Database ω) Broken α) :=
  fun _ _ hbroken => hne (Option.some.inj hbroken)

theorem breakWith_fails {α : Type} {reason : Broken} (hne : reason ≠ .Plaintext) :
    Fails (Refusing fun source : Fetch ω => source.remote.broken)
      (Database.breakWith reason : Prog (Database ω) Broken α) :=
  Fails.bind (Fails.modify _) fun _ => Fails.fail fun _ h => absurd h hne

theorem fill_unrefused (first count : Nat) :
    Moves (Carries (Unrefused fun source : Fetch ω => source.remote.broken)) (fill E first count) := by
  have hresume : Moves (Carries (Unrefused fun source : Fetch ω => source.remote.broken)) (reconnected E) := by
    refine Moves.bind (carries_unrefused (Remote.onCurrentConnection_same E)) fun current => ?_
    refine Moves.ite (Moves.pure _) (Moves.bind (Moves.handle (carries_unrefused (Remote.resume_same E)) ?_)
      fun _ => Moves.pure _)
    exact fun err => Moves.ite (breakWith_unrefused (by simp)) (breakWith_unrefused (by simp))
  refine Moves.bind (Moves.gets _) fun db => ?_
  cases db.remote.broken with
  | some broken => exact Moves.fail _
  | none =>
      refine Moves.bind (carries_unrefused (takeFromCopy_same E _ _)) fun taken => ?_
      refine Moves.ite (Moves.pure _) (Moves.bind hresume fun _ => ?_)
      refine Moves.bind (Moves.handle (carries_unrefused (load_same E _ _)) fun err => ?_) fun _ => ?_
      · exact Moves.ite (breakWith_unrefused (by simp)) (Moves.fail _)
      · exact carries_unrefused (Remote.writeCopy_same E _)

theorem takeFromCopy_fails {ε : Type} {bad : ε → Database ω → Prop} (first count : Nat) :
    Fails bad (Remote.takeFromCopy E first count : Prog (Database ω) ε Bool) := by
  refine Fails.bind (Fails.gets _) fun db => Fails.ite (Fails.pure _) ?_
  refine Fails.bind (Fails.modify _) fun _ => Fails.bind (Fails.attempt _) ?_
  rintro (_ | ⟨read, copy⟩)
  · refine Fails.bind (Fails.bind (Fails.modify _) fun _ => Fails.modify _) fun _ => Fails.pure _
  · refine Fails.bind (Fails.modify _) fun _ => Fails.ite ?_ ?_
    · exact Fails.bind (Fails.modify _) fun _ => Fails.pure _
    · exact Fails.bind (Fails.modify _) fun _ => Fails.bind (Fails.modify _) fun _ => Fails.pure _

theorem fill_fails (first count : Nat) :
    Fails (Refusing fun source : Fetch ω => source.remote.broken) (fill E first count) := by
  have hresume : Fails (Refusing fun source : Fetch ω => source.remote.broken) (reconnected E) := by
    refine Fails.bind (Fails.of_raises (Remote.onCurrentConnection_raises E)) fun current => ?_
    refine Fails.ite (Fails.pure _) (Fails.bind (Fails.handle fun err => ?_) fun _ => Fails.pure _)
    exact Fails.ite (breakWith_fails (by simp)) (breakWith_fails (by simp))
  rintro (db : Database ω) reason after hrun
  unfold fill at hrun
  rw [get_bind] at hrun
  cases hbroken : db.remote.broken with
  | some broken =>
      rw [hbroken] at hrun
      cases hrun
      rintro rfl
      exact hbroken
  | none =>
      rw [hbroken] at hrun
      refine Fails.bind (takeFromCopy_fails E first count) (fun taken => ?_) db reason after hrun
      refine Fails.ite (Fails.pure _) (Fails.bind hresume fun _ => ?_)
      refine Fails.bind (Fails.handle fun err => Fails.ite (breakWith_fails (by simp)) ?_) fun _ => ?_
      · exact Fails.fail fun _ h => by cases h
      · exact Fails.of_raises (Remote.writeCopy_raises E _)

end Fetch

namespace Load

open LocalDatabase

variable {ω : Type} (bridge : LocalBridge ω)

theorem refuseRead_fails {α : Type} (refusal : Refusal) :
    Fails (Refusing Load.broken) (refuseRead refusal : Prog (LocalDatabase ω) Broken α) := by
  cases refusal with
  | Busy => exact Fails.bind (Fails.modify _) fun _ => Fails.fail fun _ h => by cases h
  | NoAnswer reason => exact Fails.bind (Fails.modify _) fun _ => Fails.fail fun _ h => by cases h
  | _ => exact Fails.fail fun _ h => by cases h

theorem refuseRead_unrefused {α : Type} (refusal : Refusal) :
    Moves (Carries (Unrefused Load.broken)) (refuseRead refusal : Prog (LocalDatabase ω) Broken α) := by
  cases refusal with
  | Busy => exact fun _ _ hbroken => by cases hbroken
  | NoAnswer reason => exact fun _ _ hbroken => by cases hbroken
  | _ => exact Moves.fail _

theorem fill_fails (first count : Nat) : Fails (Refusing Load.broken) (fill bridge first count) := by
  intro db reason after hrun
  unfold fill at hrun
  rw [get_bind] at hrun
  cases hbroken : db.source.broken with
  | some broken =>
      rw [hbroken] at hrun
      cases hrun
      rintro rfl
      exact hbroken
  | none =>
      rw [hbroken] at hrun
      refine Fails.loop (fun next => Fails.ite (Fails.pure _) ?_) _ _ db reason after hrun
      refine Fails.bind (Fails.gets _) fun pages => Fails.bind (Fails.handle refuseRead_fails) fun blocks => ?_
      cases blocks.find? (·.length ≠ pages.pageSize) with
      | some data => exact Fails.fail fun _ h => by cases h
      | none =>
          refine Fails.bind (Fails.modify _) fun _ => ?_
          exact Fails.bind (Fails.modify _) fun _ => Fails.pure _

theorem fill_unrefused (first count : Nat) :
    Moves (Carries (Unrefused Load.broken)) (fill bridge first count) := by
  refine Moves.bind (Moves.gets _) fun db => ?_
  cases db.source.broken with
  | some broken => exact Moves.fail _
  | none =>
      refine Moves.loop (fun next => Moves.ite (Moves.pure _) (Moves.bind (Moves.gets _) fun pages => ?_)) _ _
      refine Moves.bind (Moves.handle (carries_unrefused fun _ => rfl) refuseRead_unrefused) fun blocks => ?_
      cases blocks.find? (·.length ≠ pages.pageSize) with
      | some data => exact Moves.fail _
      | none =>
          refine Moves.bind (carries_unrefused fun _ => rfl) fun _ => ?_
          exact Moves.bind (carries_unrefused fun _ => rfl) fun _ => Moves.pure _

end Load

namespace MainFile

variable {setup : Net.Setup} {τ ε α : Type} {bridge : LocalBridge τ} {I : Database Net → Prop}
  {J : LocalDatabase τ → Prop}

-- Plaintext is refused, and the database meets `I` or `J`.
structure Holds (I : Database Net → Prop) (J : LocalDatabase τ → Prop) (main : MainFile Net τ) : Prop where
  refuses : main.refusePlaintext = true
  db : match main.db with
    | .Server db => I db
    | .Local db => J db

theorem onDb_holds {server : Prog (Database Net) ε α} {stored : Prog (LocalDatabase τ) ε α}
    (hserver : Moves (Carries I) server) (hstored : Moves (Carries J) stored) :
    Moves (Carries (Holds I J)) (onDb server stored) := by
  rintro ⟨db, failure, refuses, timeout⟩ ⟨hrefuses, h⟩
  cases db with
  | Server db => exact ⟨hrefuses, hserver db h⟩
  | Local db => exact ⟨hrefuses, hstored db h⟩

theorem setFailure_holds (failure : Option Failure) :
    Moves (Carries (Holds I J)) (setFailure failure : Prog (MainFile Net τ) ε Unit) :=
  fun _ h => ⟨h.refuses, h.db⟩

theorem record_holds (result : Except Broken α) :
    Moves (Carries (Holds I J)) (record result : Prog (MainFile Net τ) Broken α) := by
  cases result with
  | ok value => exact Moves.pure _
  | error reason =>
      refine Moves.bind (Moves.gets _) fun main => ?_
      cases main.broken with
      | some broken => exact Moves.bind (setFailure_holds _) fun _ => Moves.fail _
      | none => exact Moves.fail _

theorem refusesPlaintext_holds (page1 : Bytes) :
    Moves (Carries (Holds I J)) (refusesPlaintext page1 : Prog (MainFile Net τ) ε Bool) := by
  refine Moves.bind (Moves.gets _) fun main => ?_
  refine Moves.ite (Moves.bind (setFailure_holds _) fun _ => Moves.pure _) (Moves.pure _)

theorem heal_holds
    (h : Moves (Carries I) (healServer (Net.env setup) : Prog (Database Net) ε (Option (Option Failure)))) :
    Moves (Carries (Holds I J)) (heal (Net.env setup) : Prog (MainFile Net τ) ε Unit) := by
  refine Moves.bind (onDb_holds h (Moves.pure _)) fun healed => ?_
  cases healed with
  | none => exact Moves.pure _
  | some failure => exact setFailure_holds failure

-- The operations keep `I`, on the server. Of the writes only pages without a plaintext header
-- have to.
structure ServerKeeps (setup : Net.Setup) (I : Database Net → Prop) : Prop where
  heal : Moves (Carries I) (healServer (Net.env setup) : Prog (Database Net) Broken (Option (Option Failure)))
  read : ∀ offset length, Moves (Carries I) (Database.read (Net.env setup) offset length)
  write : ∀ offset data, WholePage offset data → (offset = 0 → plaintextHeader data = false) →
    Moves (Carries I) (Database.write (Net.env setup) offset data)
  truncate : ∀ size, Moves (Carries I) (Database.truncate size)
  commit : ∀ timeout, Moves (Carries I) (Database.commit (Net.env setup) timeout)

structure LocalKeeps (bridge : LocalBridge τ) (J : LocalDatabase τ → Prop) : Prop where
  read : ∀ offset length, Moves (Carries J) (LocalDatabase.read bridge offset length)
  write : ∀ offset data, WholePage offset data → (offset = 0 → plaintextHeader data = false) →
    Moves (Carries J) (LocalDatabase.write bridge offset data)
  truncate : ∀ size, Moves (Carries J) (LocalDatabase.truncate size)
  commit : Moves (Carries J) (LocalDatabase.commit bridge)

theorem never_serverKeeps : ServerKeeps setup fun _ => False :=
  ⟨fun _ h => h.elim, fun _ _ _ h => h.elim, fun _ _ _ _ _ h => h.elim, fun _ _ h => h.elim,
    fun _ _ h => h.elim⟩

theorem never_localKeeps : LocalKeeps bridge fun _ => False :=
  ⟨fun _ _ _ h => h.elim, fun _ _ _ _ _ h => h.elim, fun _ _ h => h.elim, fun _ h => h.elim⟩

-- A database that is broken does not write.
theorem onDb_write_broken {main : MainFile Net τ} {reason : Broken} (h : main.broken = some reason)
    (offset : Nat) (data : Bytes) :
    onDb (Database.write (Net.env setup) offset data) (LocalDatabase.write bridge offset data) main =
      (.err reason, main) := by
  obtain ⟨db, failure, refuses, timeout⟩ := main
  cases db with
  | Server db =>
      have hwrite : Database.write (Net.env setup) offset data db = (.err reason, db) :=
        Database.unlessBroken_broken h _
      simp only [onDb, hwrite]
  | Local db =>
      have hwrite : LocalDatabase.write bridge offset data db = (.err reason, db) :=
        LocalDatabase.unlessBroken_broken h _
      simp only [onDb, hwrite]

-- What `write` does after healing.
theorem write_healed (offset : Nat) (data : Bytes) (main : MainFile Net τ) :
    ((do
      let checked := offset = 0 ∧ (← Prog.get).broken = none
      let refused ← if checked then refusesPlaintext data else pure false
      if refused then
        Prog.fail .Plaintext
      else do
        let result ← Prog.attempt (onDb (Database.write (Net.env setup) offset data)
          (LocalDatabase.write bridge offset data))
        record result : Prog (MainFile Net τ) Broken Unit) main) =
      if offset = 0 ∧ main.broken = none ∧ main.refusePlaintext = true ∧ plaintextHeader data = true then
        (.err .Plaintext, { main with failure := some .Plaintext })
      else (do
        let result ← Prog.attempt (onDb (Database.write (Net.env setup) offset data)
          (LocalDatabase.write bridge offset data))
        record result : Prog (MainFile Net τ) Broken Unit) main := by
  rw [get_bind]
  by_cases hchecked : offset = 0 ∧ main.broken = none
  · dsimp only
    rw [if_pos hchecked]
    by_cases hplain : (main.refusePlaintext && plaintextHeader data) = true
    · have hrun : (refusesPlaintext data : Prog (MainFile Net τ) Broken Bool) main =
          (.ok true, { main with failure := some .Plaintext }) := by
        unfold refusesPlaintext
        rw [get_bind]
        simp only [hplain, if_true]
        rfl
      rw [bind_ok _ hrun, if_pos rfl, if_pos ⟨hchecked.1, hchecked.2, Bool.and_eq_true_iff.mp hplain⟩]
      rfl
    · have hrun : (refusesPlaintext data : Prog (MainFile Net τ) Broken Bool) main = (.ok false, main) := by
        unfold refusesPlaintext
        rw [get_bind]
        simp only [hplain]
        rfl
      rw [bind_ok _ hrun, if_neg (by simp), if_neg fun h => hplain (Bool.and_eq_true_iff.mpr h.2.2)]
  · dsimp only
    rw [if_neg hchecked, pure_bind, if_neg (by simp), if_neg fun h => hchecked ⟨h.1, h.2.1⟩]

-- SQLite writes whole pages.
def WholePages : Op → Prop
  | .Write offset data => WholePage offset data
  | _ => True

section

variable (hI : ServerKeeps setup I) (hJ : LocalKeeps bridge J)

include hI hJ

theorem read_holds (offset length : Nat) :
    Moves (Carries (Holds I J)) (read (Net.env setup) bridge offset length) := by
  refine Moves.bind (heal_holds hI.heal) fun _ => ?_
  refine Moves.bind (Moves.attempt (onDb_holds (hI.read _ _) (hJ.read _ _))) fun result => ?_
  cases result with
  | error reason => exact record_holds _
  | ok value =>
      refine Moves.ite (Moves.bind (refusesPlaintext_holds _) fun refused => ?_) (record_holds _)
      exact Moves.ite (Moves.fail _) (record_holds _)

theorem write_holds {offset : Nat} {data : Bytes} (hpage : WholePage offset data) :
    Moves (Carries (Holds I J)) (write (Net.env setup) bridge offset data) := by
  refine Moves.bind (heal_holds hI.heal) fun _ main h => ?_
  rw [write_healed]
  split_ifs with hrefused
  · exact ⟨h.refuses, h.db⟩
  by_cases hplain : offset = 0 → plaintextHeader data = false
  · exact Moves.bind (Moves.attempt (onDb_holds (hI.write _ _ hpage hplain) (hJ.write _ _ hpage hplain)))
      (fun _ => record_holds _) main h
  -- The header is not looked at if the database is broken, but then nothing is written.
  · simp only [Classical.not_imp, Bool.not_eq_false] at hplain
    obtain ⟨reason, hbroken⟩ : ∃ reason, main.broken = some reason :=
      Option.ne_none_iff_exists'.mp fun hnone => hrefused ⟨hplain.1, hnone, h.refuses, hplain.2⟩
    rw [bind_apply]
    unfold Prog.attempt
    rw [onDb_write_broken hbroken]
    exact record_holds _ main h

theorem step_holds {main : MainFile Net τ} (h : Holds I J main) {op : Op} (hop : WholePages op) :
    Holds I J (op.run (Net.env setup) bridge main) := by
  cases op with
  | Read offset length => exact read_holds hI hJ offset length main h
  | Write offset data => exact write_holds hI hJ hop main h
  | Truncate size =>
      refine Moves.bind (heal_holds hI.heal) (fun _ => ?_) main h
      exact Moves.bind (Moves.attempt (onDb_holds (hI.truncate _) (hJ.truncate _))) fun _ => record_holds _
  | Commit =>
      refine Moves.bind (heal_holds hI.heal) (fun _ => Moves.bind (Moves.gets _) fun _ => ?_) main h
      exact Moves.bind (Moves.attempt (onDb_holds (hI.commit _) hJ.commit)) fun _ => record_holds _

theorem run_holds {start main : MainFile Net τ} (h : Holds I J start)
    (hmain : Reached (Net.env setup) bridge (· = start) WholePages main) : Holds I J main := by
  induction hmain with
  | Open heq => exact heq ▸ h
  | Step op _ hop ih => exact step_holds hI hJ ih hop

end

theorem onDb_write_plaintext {main after : MainFile Net τ} {offset : Nat} {data : Bytes}
    (h : onDb (Database.write (Net.env setup) offset data) (LocalDatabase.write bridge offset data) main =
      (.err .Plaintext, after)) : after = main := by
  cases hbroken : main.broken with
  | some reason =>
      rw [onDb_write_broken hbroken] at h
      cases h
      rfl
  | none =>
      obtain ⟨db, failure, refuses, timeout⟩ := main
      cases db with
      | Server db =>
          have hwrite : Database.write (Net.env setup) offset data db =
              Pages.write (Fetch.source (Net.env setup)) offset data db := by
            rw [Database.write, unlessBroken, get_bind, show db.remote.broken = none from hbroken]
          simp only [onDb, hwrite] at h
          obtain ⟨hresult, -⟩ := Prod.mk.inj h
          exact absurd hresult (write_ne_plaintext (Fetch.fill_unrefused _)
            (Fetch.fill_fails _) hbroken offset data)
      | Local db =>
          have hwrite : LocalDatabase.write bridge offset data db =
              Pages.write (Load.source bridge) offset data db := by
            rw [LocalDatabase.write, LocalDatabase.unlessBroken, get_bind,
              show db.source.broken = none from hbroken]
          simp only [onDb, hwrite] at h
          obtain ⟨hresult, -⟩ := Prod.mk.inj h
          exact absurd hresult (write_ne_plaintext (Load.fill_unrefused _)
            (Load.fill_fails _) hbroken offset data)

theorem record_error {main after : MainFile Net τ} {reason other : Broken}
    (h : (record (.error reason) : Prog (MainFile Net τ) Broken Unit) main = (.err other, after)) :
    other = reason ∧ after.pages = main.pages := by
  unfold record at h
  dsimp only at h
  rw [get_bind] at h
  cases hbroken : main.broken with
  | some broken =>
      rw [hbroken] at h
      cases h
      exact ⟨rfl, rfl⟩
  | none =>
      rw [hbroken] at h
      cases h
      exact ⟨rfl, rfl⟩

-- A write that is refused as plaintext changes nothing after the healing.
theorem write_plaintext {main after : MainFile Net τ} {offset : Nat} {data : Bytes}
    (h : write (Net.env setup) bridge offset data main = (.err .Plaintext, after)) :
    after.pages = ((heal (Net.env setup) : Prog (MainFile Net τ) Broken Unit) main).2.pages := by
  unfold write at h
  cases hheal : (heal (Net.env setup) : Prog (MainFile Net τ) Broken Unit) main with
  | mk result healed =>
      cases result with
      | ok value =>
          rw [bind_ok _ hheal, write_healed] at h
          split_ifs at h
          · cases h
            rfl
          · cases hwrite : onDb (Database.write (Net.env setup) offset data)
              (LocalDatabase.write bridge offset data) healed with
            | mk result written =>
                rw [bind_apply] at h
                unfold Prog.attempt at h
                rw [hwrite] at h
                cases result with
                | ok value => cases h
                | hang => cases h
                | err reason =>
                    obtain ⟨rfl, hpages⟩ := record_error h
                    rw [hpages, onDb_write_plaintext hwrite]
      | err reason =>
          rw [bind_err _ hheal] at h
          cases h
          rfl
      | hang =>
          rw [bind_hang _ hheal] at h
          cases h

theorem watched_serverKeeps {size : Nat} :
    ServerKeeps setup (Session.Watched setup (headerWatch 0 size) (headerWatch 0 size).OnDisk) where
  heal := Session.healServer_watched
  read := Session.read_watched
  write _ _ hpage hplain := Session.write_watched (keeps_page hpage hplain)
  truncate _ := Session.truncate_watched (Nat.zero_le _)
  commit := Session.commit_watched

theorem sealing_localKeeps {store : BridgeStore bridge} {epoch size : Nat} {before : List (List (Nat × Bytes))} :
    LocalKeeps bridge (LocalDatabase.Sealing store epoch size before) where
  read := read_admits LocalDatabase.source_sealing
  write _ _ hpage hplain := LocalDatabase.write_sealing hpage hplain
  truncate := LocalDatabase.truncate_sealing
  commit := LocalDatabase.commit_sealing

-- The file as it is opened: plaintext is refused, and the stored block 0 is not plaintext.
def Encrypted (setup : Net.Setup) (store : BridgeStore bridge) (main : MainFile Net τ) : Prop :=
  main.refusePlaintext = true ∧
    match main.db with
    | .Server db => (∃ options, Session.OpenedCoherent setup options db) ∧
        plaintextHeader (db.image.block 0) = false
    | .Local db => (∃ name options desk after, store.Free options.takeover desk.world ∧
          LocalDatabase.openOn bridge name options desk = (.ok db, after)) ∧
        Clean (store.block db.source.world)

-- No Commit frame of any connection has a plaintext block 0, and no local commit that was
-- stored since `start`.
def Withheld (store : BridgeStore bridge) (start main : MainFile Net τ) : Prop :=
  match start.db, main.db with
  | .Server _, .Server db => ∀ conn ∈ db.world.conns, ∀ frame ∈ conn.sent, ∀ part,
      frame.body = .Commit part → ∀ block ∈ part.blocks, block.index = 0 →
        plaintextHeader block.data = false
  | .Local first, .Local db => ∃ made,
      store.commits db.source.world = store.commits first.source.world ++ made ∧
        ∀ blocks ∈ made, Sealed blocks
  | _, _ => False

theorem withheld_of_reached {store : BridgeStore bridge} {start main : MainFile Net τ}
    (hstart : Encrypted setup store start)
    (hmain : Reached (Net.env setup) bridge (· = start) WholePages main) : Withheld store start main := by
  obtain ⟨hrefuses, hdb⟩ := hstart
  obtain ⟨db, failure, refuses, timeout⟩ := start
  cases db with
  | Server first =>
      obtain ⟨⟨options, hopened⟩, hheader⟩ := hdb
      have hsized := hopened.opened.live.ready.wf.sized first.remote.version 0
      have hfirst := hopened.watched (w := headerWatch 0 first.image.pageSize)
        ⟨rfl, ⟨fun _ => hheader, hsized⟩, Nat.zero_le _⟩
      have hholds := run_holds watched_serverKeeps never_localKeeps ⟨hrefuses, hfirst⟩ hmain
      obtain ⟨db, failure, refuses, timeout⟩ := main
      cases db with
      | Server db =>
          intro conn hconn frame hframe part hpart block hblock hindex
          have hwatched := hholds.db
          obtain ⟨-, stamp, -, hasked⟩ :=
            (hwatched.live.ready.wf.conns conn hconn).known frame hframe
          rw [hpart] at hasked
          exact ((hwatched.sent part ⟨_, stamp, hasked⟩).block block hblock hindex).1 rfl
      | Local db => exact hholds.db.elim
  | Local first =>
      obtain ⟨⟨name, options, desk, after, hfree, hopened⟩, hclean⟩ := hdb
      have hfirst := LocalDatabase.openOn_sealing hfree hopened hclean
      have hholds := run_holds never_serverKeeps sealing_localKeeps ⟨hrefuses, hfirst⟩ hmain
      obtain ⟨db, failure, refuses, timeout⟩ := main
      cases db with
      | Server db => exact hholds.db.elim
      | Local db =>
          obtain ⟨stored, made, -, hsealed, hrests⟩ := hholds.db
          exact ⟨made, hrests.commits, hsealed⟩

-- In every run with whole pages no commit carries a plaintext header to the server or into
-- the local store, and a refused write changes nothing after the healing.
theorem refused_plaintext_never_leaves (store : BridgeStore bridge) {start main : MainFile Net τ}
    (hstart : Encrypted setup store start)
    (hmain : Reached (Net.env setup) bridge (· = start) WholePages main) :
    Withheld store start main ∧ ∀ offset data after,
      write (Net.env setup) bridge offset data main = (.err .Plaintext, after) →
        after.pages = ((heal (Net.env setup) : Prog (MainFile Net τ) Broken Unit) main).2.pages :=
  ⟨withheld_of_reached hstart hmain, fun _ _ _ => write_plaintext⟩

-- The store of an instance beside which a second one wants to open the database.
def contendedBridge : LocalBridge (Instance 2 × List (List (Nat × Bytes))) := (Instance.bridge fun _ => "").logged

def contendedStore : BridgeStore contendedBridge := (Instance.keeper fun _ => "").bridgeStore

-- A page of sevens, and an empty page 1 without encryption.
def sevens : Bytes := List.replicate 512 7

def plaintextPage : Bytes := SQLITE_MAGIC ++ zeros 5 ++ [64, 32, 32] ++ zeros 488

example : plaintextHeader plaintextPage = true := by decide +kernel

def sampleFile (db : Db Net (Instance 2 × List (List (Nat × Bytes)))) :
    MainFile Net (Instance 2 × List (List (Nat × Bytes))) :=
  ⟨db, none, true, 0⟩

-- The sevens are written and committed.
def filled (db : Db Net (Instance 2 × List (List (Nat × Bytes)))) :
    MainFile Net (Instance 2 × List (List (Nat × Bytes))) :=
  Op.Commit.run (Net.env Session.sampleSetup) contendedBridge
    ((Op.Write 0 sevens).run (Net.env Session.sampleSetup) contendedBridge (sampleFile db))

theorem filled_reached (db : Db Net (Instance 2 × List (List (Nat × Bytes)))) :
    Reached (Net.env Session.sampleSetup) contendedBridge (· = sampleFile db) WholePages (filled db) := by
  have hpage : WholePage 0 sevens := ⟨by decide +kernel, by decide +kernel, Nat.dvd_zero _⟩
  have hstart : Reached (Net.env Session.sampleSetup) contendedBridge (· = sampleFile db) WholePages
      (sampleFile db) :=
    .Open rfl
  exact (hstart.Step (.Write 0 sevens) hpage).Step .Commit trivial

def wholeOptions : LocalOptions := ⟨512, true, false, none, none⟩

theorem contendedStore_free : contendedStore.Free wholeOptions.takeover (Instance.contended, []) :=
  ⟨rfl, rfl, ⟨rfl, rfl⟩, Browser.twoInstances_fresh.exclusive, Instance.contended_polite, rfl⟩

-- Committed to the server and to the store. After that plaintext is refused.
theorem refused_plaintext_never_leaves_sevens :
    (∃ first db, Encrypted Session.sampleSetup contendedStore (sampleFile (.Server first)) ∧
      (filled (.Server first)).db = .Server db ∧ db.remote.version = 1 ∧
      Withheld contendedStore (sampleFile (.Server first)) (filled (.Server first)) ∧
      ∃ after, write (Net.env Session.sampleSetup) contendedBridge 0 plaintextPage (filled (.Server first)) =
        (.err .Plaintext, after)) ∧
    ∃ first db, Encrypted Session.sampleSetup contendedStore (sampleFile (.Local first)) ∧
      (filled (.Local first)).db = .Local db ∧ db.source.world.2 = [[(0, sevens)]] ∧
      Withheld contendedStore (sampleFile (.Local first)) (filled (.Local first)) := by
  constructor
  · obtain ⟨first, hfirst⟩ : ∃ db, Session.opened (Net.env Session.sampleSetup) Session.sampleConfig 0 "db"
        Session.cachedOptions (Session.emptyNet Session.calm) = some db :=
      Option.isSome_iff_exists.mp (by decide +kernel)
    have hfacts : (Session.opened (Net.env Session.sampleSetup) Session.sampleConfig 0 "db"
        Session.cachedOptions (Session.emptyNet Session.calm)).any (fun db =>
        decide (plaintextHeader (db.image.block 0) = false ∧
          (write (Net.env Session.sampleSetup) contendedBridge 0 plaintextPage (filled (.Server db))).1 =
            .err .Plaintext) &&
          (match (filled (.Server db)).db with
          | .Server db => decide (db.remote.version = 1)
          | .Local _ => false)) = true := by decide +kernel
    rw [hfirst, Option.any_some, Bool.and_eq_true, decide_eq_true_eq] at hfacts
    obtain ⟨⟨hheader, hrefused⟩, hversion⟩ := hfacts
    have hstart : Encrypted Session.sampleSetup contendedStore (sampleFile (.Server first)) :=
      ⟨rfl, ⟨_, Session.calm_coherent hfirst⟩, hheader⟩
    cases hdb : (filled (.Server first)).db with
    | Local db =>
        rw [hdb] at hversion
        cases hversion
    | Server db =>
        rw [hdb] at hversion
        exact ⟨first, db, hstart, hdb, of_decide_eq_true hversion,
          (refused_plaintext_never_leaves contendedStore hstart (filled_reached _)).1, _, Prod.ext hrefused rfl⟩
  · have hfacts : (LocalDatabase.openOn contendedBridge "db" wholeOptions ⟨{}, Instance.contended, []⟩).1.any
        (fun first =>
          decide (plaintextHeader (Stored.blocksOf first.source.world.1.browser.stored 0) = false) &&
          (match (filled (.Local first)).db with
          | .Server _ => false
          | .Local db => decide (db.source.world.2 = [[(0, sevens)]]))) = true := by decide +kernel
    obtain ⟨first, hfirst, hfacts⟩ := Outcome.of_any hfacts
    rw [Bool.and_eq_true, decide_eq_true_eq] at hfacts
    obtain ⟨hheader, hstored⟩ := hfacts
    have hstart : Encrypted Session.sampleSetup contendedStore (sampleFile (.Local first)) := by
      refine ⟨rfl, ⟨"db", wholeOptions, _, _, contendedStore_free, Prod.ext hfirst rfl⟩, fun data hdata => ?_⟩
      cases hdata
      exact hheader
    cases hdb : (filled (.Local first)).db with
    | Server db =>
        rw [hdb] at hstored
        cases hstored
    | Local db =>
        rw [hdb] at hstored
        exact ⟨first, db, hstart, hdb, of_decide_eq_true hstored,
          (refused_plaintext_never_leaves contendedStore hstart (filled_reached _)).1⟩

end MainFile

end RemoteVfs
