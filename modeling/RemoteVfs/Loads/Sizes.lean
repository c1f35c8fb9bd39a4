import RemoteVfs.Loads.Memory
import RemoteVfs.Pages.Progress

namespace RemoteVfs

open Base Base.Prog Held

namespace Pages

-- Every block in memory has exactly the size of a page.
structure Even (size : Nat) (perFetch : Option PerFetch) (pages : Pages) : Prop where
  pageSize : pages.pageSize = size
  perFetch : pages.blocksPerFetch = perFetch
  block : ∀ i block, pages.block i = some block → block.length = size

variable {size : Nat} {perFetch : Option PerFetch} {a b : Pages}

-- Blocks are looked at, dropped or taken over.
theorem Even.of_subset (h : Even size perFetch a) (hshape : SameShape a b)
    (hblock : ∀ i block, b.block i = some block → a.block i = some block) : Even size perFetch b :=
  ⟨hshape.pageSize.trans h.pageSize, hshape.perFetch.trans h.perFetch,
    fun i block hb => h.block i block (hblock i block hb)⟩

theorem Even.makeRoom (h : Even size perFetch a) (incoming : Nat) (stats : Stats) :
    Even size perFetch (a.makeRoom incoming stats).1 := by
  refine h.of_subset (shape_makeRoom _ _ _) fun i block hblock => ?_
  rcases (drops_makeRoom a incoming stats).block i with hsame | ⟨-, -, hnone⟩
  · rwa [hsame] at hblock
  · rw [hnone] at hblock
    cases hblock

theorem Even.keep (h : Even size perFetch a) (index : Nat) {data : Bytes} (hdata : data.length = size) :
    Even size perFetch (a.keep index data) := by
  refine ⟨h.pageSize, h.perFetch, fun i block hblock => ?_⟩
  rw [block_keep] at hblock
  split_ifs at hblock with hnew
  · cases hblock
    exact hdata
  · exact h.block i block hblock

theorem Even.keepAll (h : Even size perFetch a) {loaded : List (Nat × Bytes)}
    (hloaded : Client.Sized size loaded) : Even size perFetch (a.keepAll loaded) := by
  induction loaded generalizing a with
  | nil => exact h
  | cons entry rest ih =>
      refine ih (h.keep entry.1 (hloaded entry List.mem_cons_self)) fun other hother => ?_
      exact hloaded other (List.mem_cons_of_mem _ hother)

theorem Even.put (h : Even size perFetch a) (index : Nat) {within : Nat} {chunk : Bytes}
    (hchunk : within + chunk.length ≤ size) : Even size perFetch (a.put index within chunk) := by
  refine ⟨h.pageSize, h.perFetch, fun i block hblock => ?_⟩
  rw [block_put] at hblock
  split_ifs at hblock with hsame
  · cases hblock
    have hlength : ((a.block index).getD (zeros a.pageSize)).length = size := by
      cases hold : a.block index with
      | none => rw [Option.getD_none, length_zeros, h.pageSize]
      | some data => exact h.block index data hold
    rw [overlay, List.length_append, List.length_append, List.length_take, List.length_drop]
    omega
  · exact h.block i block hblock

theorem even_lasting (size : Nat) (perFetch : Option PerFetch) :
    Lasting (fun _ _ _ => True) size (Even size perFetch) (Even size perFetch) where
  weaken _ h := h
  pageSize _ h := h.pageSize
  touch pages index h := by
    refine h.of_subset (drops_touch pages index).shape fun i block hblock => ?_
    rwa [block_touch] at hblock
  load pages stats first count loaded h _ _ _ hsized :=
    (h.makeRoom count stats).keepAll (h.pageSize ▸ hsized)
  put pages index within chunk h hchunk _ := h.put index hchunk
  truncate pages bytes h := by
    refine h.of_subset (shape_truncate pages bytes) fun i block hblock => ?_
    rcases truncate_cases pages bytes with hsame | ⟨hkept, -⟩
    · rwa [hsame] at hblock
    · rw [hkept] at hblock
      split_ifs at hblock
      exact hblock
  committed pages h := ⟨h.pageSize, h.perFetch, h.block⟩
  emptied pages pageCount h := ⟨h.pageSize, h.perFetch, fun i block hblock => by cases hblock⟩
  room pages stats h := h.makeRoom 0 stats

section Panics

variable {τ : Type} {source : Source τ}

-- A run that hangs here is left inside a load.
def InLoad (source : Source τ) (h : Held τ) : Prop :=
  ∃ first count start, source.fill first count start = (.hang, h)

theorem even_proceeds (hfill : ∀ first count, Moves (Stores fun _ => True) (source.fill first count))
    (hpos : 0 < size) (perFetch : Option PerFetch) :
    Proceeds size (fun h => Even size perFetch h.pages) (InLoad source) source where
  pos := hpos
  pageSize _ h := h.pageSize
  block _ i data h := h.block i data
  count _ h := h
  load index := by
    intro h heven
    have hafter := ensureLoaded_stays ((even_lasting size perFetch).stays hfill) index h heven
    unfold ensureLoaded at hafter ⊢
    rw [gets_bind] at hafter ⊢
    dsimp only at hafter ⊢
    split_ifs at hafter ⊢
    · exact hafter
    · exact hafter
    · exact hafter
    · rw [modify_bind] at hafter ⊢
      generalize hrun : source.fill index _ _ = run at hafter ⊢
      rcases run with ⟨_ | _ | _, after⟩
      · exact hafter
      · exact hafter
      · exact ⟨_, _, _, hrun⟩

end Panics

end Pages

open Pages

variable {ω ε : Type}

-- The store of the local copy returns only blocks of `size` bytes.
def Env.StoreSized (E : Env ω) (size : Nat) : Prop :=
  ∀ first count, E.Reads (fun blocks => ∀ data ∈ blocks, data.length = size) first count

-- The same environment, where a read of the local copy with a block of another size fails.
def Env.onlySized (E : Env ω) (size : Nat) : Env ω :=
  { E with store := { E.store with read := fun first count => do
      let blocks ← E.store.read first count
      if blocks.all (·.length = size) then return blocks else Prog.fail "" } }

theorem Env.onlySized_storeSized (E : Env ω) (size : Nat) : (E.onlySized size).StoreSized size := by
  intro first count world
  change (Prog.bind (E.store.read first count) _ world).1.Meets _ _
  unfold Prog.bind
  rcases E.store.read first count world with ⟨blocks | _ | _, after⟩
  · dsimp only
    split_ifs with h
    · exact fun data hdata => of_decide_eq_true (List.all_eq_true.mp h data hdata)
    · trivial
  · trivial
  · trivial

theorem Env.onlySized_eq {E : Env ω} {size : Nat} (h : E.StoreSized size) : E.onlySized size = E := by
  have hread : (E.onlySized size).store.read = E.store.read := by
    funext first count world
    have hsized := h first count world
    change Prog.bind (E.store.read first count) _ world = _
    unfold Prog.bind
    generalize E.store.read first count world = run at hsized ⊢
    rcases run with ⟨blocks | _ | _, after⟩
    · exact congrFun (if_pos (List.all_eq_true.mpr fun data hdata => decide_eq_true (hsized data hdata))) after
    · rfl
    · rfl
  have hsame : E.onlySized size =
    { E with store := { E.store with read := (E.onlySized size).store.read } } := rfl
  rw [hsame, hread]

namespace Remote

open Database

-- With `Load::OnDemand` nothing is preloaded from the copy.
theorem preloads_even {E : Env ω} {size : Nat} {perFetch : Option PerFetch}
    (hstore : perFetch = none → E.StoreSized size) : Preloads E (Even size perFetch) where
  sized pages loaded h hsized := h.keepAll (h.pageSize ▸ hsized)
  copied pages h hmode first count := by
    have hnone : perFetch = none := by
      rw [Pages.onDemand, h.perFetch, Option.isSome_eq_false_iff, Option.isNone_iff_eq_none] at hmode
      exact hmode
    refine (hstore hnone first count).mono fun blocks hblocks => ?_
    exact h.keepAll (Client.Sized.mapIdx hblocks _)

-- A copy with a block of another size is passed over.
theorem takeFromCopy_passes {E : Env ω} {db : Database ω} {first count : Nat} {read : List Bytes}
    {copy : LocalCopy} {world : ω} (hcopy : db.remote.copy.isNone = false)
    (hread : db.remote.copy.read E first (min count (blocksPerRead db.pages.pageSize)) db.world =
      (.ok (read, copy), world))
    (hother : ∃ data ∈ read, data.length ≠ db.pages.pageSize) :
    ((takeFromCopy E first count : Prog (Database ω) ε Bool) db).1 = .ok false ∧
      ((takeFromCopy E first count : Prog (Database ω) ε Bool) db).2.pages = db.pages := by
  obtain ⟨data, hdata, hlength⟩ := hother
  have hmiss : (read.isEmpty || read.any (·.length ≠ db.pages.pageSize)) = true := by
    rw [Bool.or_eq_true, List.any_eq_true]
    exact Or.inr ⟨data, hdata, by simpa using hlength⟩
  have hattempt : ∀ s : Database ω, s.source.link.world = db.world →
      (Prog.attempt (onWorld (db.remote.copy.read E first (min count (blocksPerRead db.pages.pageSize)))) :
        Prog (Database ω) ε _) s = (.ok (.ok (read, copy)),
          { s with source := { s.source with link := { s.source.link with world := world } } }) := by
    intro s hworld
    unfold Prog.attempt onWorld onLink Link.outside Prog.zoom
    rw [hworld, hread]
  unfold takeFromCopy
  rw [get_bind, if_neg (by simp [hcopy]), Database.count, modify_bind]
  rw [bind_ok _ (hattempt (mapStats _ db) rfl)]
  dsimp only
  rw [setCopy, modify_bind, if_pos hmiss]
  exact ⟨rfl, rfl⟩

end Remote

-- A store with a block of another size fails the load.
theorem Load.fillStep_refuses {bridge : LocalBridge ω} {db : LocalDatabase ω} {last next : Nat}
    {blocks : List Bytes} {world : ω} (hmore : next < last)
    (hread : bridge.read next (min (maxRead db.pages.pageSize) (last - next)) db.source.world =
      (.ok blocks, world))
    (hother : ∃ data ∈ blocks, data.length ≠ db.pages.pageSize) :
    ∃ reason, (fillStep bridge last next db).1 = .err (.Refused reason) := by
  obtain ⟨data, hdata, hlength⟩ := hother
  have hhandle : Prog.handle (LocalDatabase.onWorld
      (bridge.read next (min (maxRead db.pages.pageSize) (last - next)))) refuseRead db =
        (.ok blocks, { db with source := { db.source with world := world } }) := by
    unfold Prog.handle LocalDatabase.onWorld Prog.zoom
    rw [hread]
  unfold fillStep
  rw [if_neg (by omega), gets_bind]
  rw [bind_ok _ hhandle]
  dsimp only
  cases hfind : blocks.find? (·.length ≠ db.pages.pageSize) with
  | some other => exact ⟨_, rfl⟩
  | none => exact absurd (Client.sized_of_find hfind data hdata) hlength

-- No block of another size is in memory, and reading and writing hang only inside a load.
structure Held.Intact {τ : Type} (source : Source τ) (h : Held τ) : Prop where
  block : ∀ i block, h.pages.block i = some block → block.length = h.pages.pageSize
  read : ∀ offset length, (Pages.read source offset length h).1 = .hang →
    InLoad source (Pages.read source offset length h).2
  write : ∀ offset data, (Pages.write source offset data h).1 = .hang →
    InLoad source (Pages.write source offset data h).2

theorem Pages.Even.intact {τ : Type} {source : Source τ} {size : Nat} {perFetch : Option PerFetch} {h : Held τ}
    (heven : Even size perFetch h.pages) (hpos : 0 < size)
    (hfill : ∀ first count, Moves (Stores fun _ => True) (source.fill first count)) : h.Intact source where
  block i block hblock := (heven.block i block hblock).trans heven.pageSize.symm
  read offset length hhang := by
    have hread := read_settles (even_proceeds hfill hpos perFetch) offset length h heven
    rw [hhang] at hread
    exact hread
  write offset data hhang := by
    have hwrite := write_settles (even_proceeds hfill hpos perFetch) offset data
      (fun position chunk _ hfits h heven => heven.put _ hfits) h heven
    rw [hhang] at hwrite
    exact hwrite

theorem Session.even {E : Env ω} {dbId : String} {options : OpenOptions} {desk after : Database.Desk ω}
    {pages : Pages} {remote : Remote}
    (hopen : Database.openOn E dbId options desk = (.ok (pages, remote), after))
    (hstore : options.blocksPerFetch = none → E.StoreSized pages.pageSize) (ops : List Op) :
    0 < pages.pageSize ∧ Even pages.pageSize options.blocksPerFetch
      (ops.foldl (Op.run E) ⟨pages, after.stats, ⟨remote, after.link⟩⟩).pages := by
  obtain ⟨opened, hchecked, hsize, hstart⟩ := Database.openOn_lasts hopen
  rw [hsize] at hstore ⊢
  have hlasting := even_lasting opened.pageSize options.blocksPerFetch
  have hpreloads := Remote.preloads_even hstore
  have hpages := hstart hlasting hpreloads ⟨rfl, rfl, fun i block hblock => by cases hblock⟩
  have hrun : ∀ db : Database ω, Even opened.pageSize options.blocksPerFetch db.pages →
      Even opened.pageSize options.blocksPerFetch (ops.foldl (Op.run E) db).pages := by
    induction ops with
    | nil => exact fun _ h => h
    | cons op rest ih =>
        exact fun db h => ih _ (Op.lasts hlasting Fetch.fill_any hpreloads h op).1
  exact ⟨(checked_size hchecked).1, hrun _ hpages⟩

-- In this run every read of the local copy returns blocks of the page size: where other reads
-- fail, the run is the same.
def Session.ReadsSized (E : Env ω) (dbId : String) (options : OpenOptions) (desk : Database.Desk ω)
    (start : Database ω) (ops : List Op) : Prop :=
  Database.openOn (E.onlySized start.pages.pageSize) dbId options desk = Database.openOn E dbId options desk ∧
    ops.foldl (Op.run (E.onlySized start.pages.pageSize)) start = ops.foldl (Op.run E) start

theorem Session.intact {E : Env ω} {dbId : String} {options : OpenOptions} {desk after : Database.Desk ω}
    {pages : Pages} {remote : Remote} {ops : List Op}
    (hopen : Database.openOn E dbId options desk = (.ok (pages, remote), after))
    (hsized : options.blocksPerFetch = none →
      ReadsSized E dbId options desk ⟨pages, after.stats, ⟨remote, after.link⟩⟩ ops) :
    (ops.foldl (Op.run E) ⟨pages, after.stats, ⟨remote, after.link⟩⟩).Intact (Fetch.source E) := by
  cases hmode : options.blocksPerFetch with
  | some perFetch =>
      obtain ⟨hpos, heven⟩ := even hopen (fun hnone => absurd (hmode.symm.trans hnone) nofun) ops
      exact heven.intact hpos Fetch.fill_any
  | none =>
      obtain ⟨hsame, hrun⟩ := hsized hmode
      obtain ⟨hpos, heven⟩ := even (hsame.trans hopen) (fun _ => E.onlySized_storeSized _) ops
      rw [hrun] at heven
      exact heven.intact hpos Fetch.fill_any

theorem LocalDatabase.intact {bridge : LocalBridge ω} {name : String} {options : LocalOptions}
    {desk after : Desk ω} {db : LocalDatabase ω}
    (hopen : openOn bridge name options desk = (.ok db, after)) (ops : List Op) :
    (ops.foldl (Op.run bridge) db).Intact (Load.source bridge) := by
  obtain ⟨opened, hzero, hstart⟩ := openOn_lasts hopen
  have hlasting := even_lasting opened.pageSize options.blocksPerFetch
  have hpages := hstart hlasting (fun pages loaded h hsized => h.keepAll (h.pageSize ▸ hsized))
    ⟨rfl, rfl, fun i block hblock => by cases hblock⟩
  have hfill : ∀ first count, Moves (Stores fun _ => True) (Load.fill bridge first count) := Load.fill_any
  have hrun : ∀ db : LocalDatabase ω, Even opened.pageSize options.blocksPerFetch db.pages →
      Even opened.pageSize options.blocksPerFetch (ops.foldl (Op.run bridge) db).pages := by
    induction ops with
    | nil => exact fun _ h => h
    | cons op rest ih => exact fun db h => ih _ (Op.lasts hlasting hfill h op).1
  exact (hrun db hpages).intact (Nat.pos_of_ne_zero hzero) hfill

theorem loaded_blocks_have_page_size {ω : Type} (E : Env ω) :
    (∀ dbId (options : OpenOptions) desk pages remote after,
      Database.openOn E dbId options desk = (.ok (pages, remote), after) →
      ∀ ops : List Session.Op, (options.blocksPerFetch = none →
        Session.ReadsSized E dbId options desk ⟨pages, after.stats, ⟨remote, after.link⟩⟩ ops) →
      (ops.foldl (Session.Op.run E) ⟨pages, after.stats, ⟨remote, after.link⟩⟩).Intact (Fetch.source E)) ∧
    (∀ (db : Database ω) first count read copy world, db.remote.copy.isNone = false →
      db.remote.copy.read E first (min count (blocksPerRead db.pages.pageSize)) db.world =
        (.ok (read, copy), world) →
      (∃ data ∈ read, data.length ≠ db.pages.pageSize) →
      ((Remote.takeFromCopy E first count : Prog (Database ω) Broken Bool) db).1 = .ok false ∧
        ((Remote.takeFromCopy E first count : Prog (Database ω) Broken Bool) db).2.pages = db.pages) ∧
    (∀ fetch size link blocks after, Client.fetch E fetch size link = (.ok blocks, after) →
      ∀ data ∈ blocks, data.length = size) ∧
    ∀ (τ : Type) (bridge : LocalBridge τ),
      (∀ name options desk db after, LocalDatabase.openOn bridge name options desk = (.ok db, after) →
        ∀ ops : List LocalDatabase.Op, (ops.foldl (LocalDatabase.Op.run bridge) db).Intact (Load.source bridge)) ∧
      ∀ (db : LocalDatabase τ) last next blocks world, next < last →
        bridge.read next (min (maxRead db.pages.pageSize) (last - next)) db.source.world =
          (.ok blocks, world) →
        (∃ data ∈ blocks, data.length ≠ db.pages.pageSize) →
        ∃ reason, (Load.fillStep bridge last next db).1 = .err (.Refused reason) := by
  refine ⟨?_, ?_, ?_, fun τ bridge => ⟨?_, ?_⟩⟩
  · intro dbId options desk pages remote after hopen ops hsized
    exact Session.intact hopen hsized
  · intro db first count read copy world hcopy hread hother
    exact Remote.takeFromCopy_passes hcopy hread hother
  · intro fetch size link blocks after hfetch
    have hsized : Ends _ _ (Client.fetch E fetch size link).1 _ := Client.fetch_sized fetch size link trivial
    rw [hfetch] at hsized
    exact hsized.2.2
  · intro name options desk db after hopen ops
    exact LocalDatabase.intact hopen ops
  · intro db last next blocks world hmore hread hother
    exact Load.fillStep_refuses hmore hread hother

section Sample

open Client

-- A local copy of one block, which is read as `data`.
def copyOf (data : Bytes) : LocalStore Inbox where
  head := pure (some ⟨"", "db", 512, 1, 1⟩)
  read _ count := pure (List.replicate count data)
  write _ _ := pure ()
  forget _ _ := pure ()
  clear := pure ()
  select _ := pure ()
  flush := pure ()

def preloaded : OpenOptions := ⟨512, false, false, none, none, "", true⟩

-- The server opens a database of one block at version 1.
def oneBlock : Inbox :=
  [.ok ⟨1, some (.Opened
    { version := 1, pageSize := 512, pageCount := 1, leaseId := [], leaseEpoch := 1, lastCommitId := [] })⟩]

def openedCopy (data : Bytes) : Option (Database Inbox) :=
  match Database.openOn (scripted 2 (copyOf data)) "db" preloaded ⟨{}, listening oneBlock⟩ with
  | (.ok (pages, remote), desk) => some ⟨pages, desk.stats, ⟨remote, desk.link⟩⟩
  | _ => none

theorem copyOf_sized (data : Bytes) : (scripted 2 (copyOf data)).StoreSized data.length := by
  intro first count world other hother
  rw [List.eq_of_mem_replicate hother]

theorem loaded_blocks_have_page_size_copy :
    (openedCopy (zeros 512)).map (fun db => db.pages.pageSize) = some 512 ∧
      ∀ db, openedCopy (zeros 512) = some db → ([.Read 0 1, .Write 5 [7]].foldl
        (Session.Op.run (scripted 2 (copyOf (zeros 512)))) db).Intact
          (Fetch.source (scripted 2 (copyOf (zeros 512)))) := by
  have hsize : (openedCopy (zeros 512)).map (fun db => db.pages.pageSize) = some 512 := by decide +kernel
  refine ⟨hsize, fun db hdb => ?_⟩
  rw [hdb] at hsize
  unfold openedCopy at hdb
  split at hdb
  · rename_i pages remote desk hopen
    cases hdb
    refine (loaded_blocks_have_page_size _).1 _ _ _ _ _ _ hopen _ fun _ => ?_
    obtain hpages : pages.pageSize = 512 := Option.some.inj hsize
    have hsized := copyOf_sized (zeros 512)
    rw [length_zeros] at hsized
    unfold Session.ReadsSized
    dsimp only
    rw [hpages, Env.onlySized_eq hsized]
    exact ⟨rfl, rfl⟩
  · cases hdb

-- The preload takes over an empty block, and the first read panics.
theorem short_block_is_preloaded :
    (openedCopy []).map (fun db => db.pages.block 0) = some (some []) ∧
      (openedCopy []).map (fun db => (Database.read (scripted 2 (copyOf [])) 0 1 db).1) = some .hang := by
  decide +kernel

end Sample

end RemoteVfs
