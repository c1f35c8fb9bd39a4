import RemoteVfs.Session.Broken
import RemoteVfs.LocalDatabase
import RemoteVfs.Client.Frames
import RemoteVfs.Pages.Calls

namespace RemoteVfs

open Base Base.Prog Client Pages

variable {τ ω ε α : Type}

namespace Held

-- Nothing happened to the pages but that blocks of their size were stored, all of them at
-- indexes in `wanted`.
def Stores (wanted : Nat → Prop) (before after : Held τ) : Prop :=
  ∃ loaded : List (Nat × Bytes), (∀ entry ∈ loaded, wanted entry.1) ∧
    Sized before.pages.pageSize loaded ∧ after.pages = before.pages.keepAll loaded

namespace Stores

variable {wanted : Nat → Prop}

theorem of_pages {before after : Held τ} (h : after.pages = before.pages) : Stores wanted before after :=
  ⟨[], by simp, by simp [Sized], h⟩

instance : IsPreorder (Held τ) (Stores wanted) where
  refl _ := of_pages rfl
  trans a b c := by
    rintro ⟨loaded, hwanted, hsized, hpages⟩ ⟨more, hmore, hfit, hend⟩
    have hsame : b.pages.pageSize = a.pages.pageSize := by
      rw [hpages]
      exact (Pages.Spares.keepAll a.pages loaded).pageSize
    rw [hsame] at hfit
    refine ⟨loaded ++ more, fun entry hentry => ?_, hsized.append hfit, ?_⟩
    · rcases List.mem_append.mp hentry with hentry | hentry
      · exact hwanted entry hentry
      · exact hmore entry hentry
    · rw [hend, hpages, Pages.keepAll, Pages.keepAll, Pages.keepAll, List.foldl_append]

-- A run of blocks that a source returned.
theorem run {before mid after : Held τ} {first : Nat} {blocks : List Bytes}
    (hwanted : ∀ offset < blocks.length, wanted (first + offset))
    (hsized : ∀ data ∈ blocks, data.length = before.pages.pageSize) (hmid : mid.pages = before.pages)
    (hpages : after.pages =
      mid.pages.keepAll (blocks.mapIdx fun offset data => (first + offset, data))) :
    Stores wanted before after := by
  refine ⟨_, fun entry hentry => ?_, Sized.mapIdx hsized _, hmid ▸ hpages⟩
  obtain ⟨offset, hoffset, rfl⟩ := List.mem_mapIdx.mp hentry
  exact hwanted offset hoffset

end Stores

end Held

open Held

namespace Env

-- What the store of the local copy returns for `count` blocks from `first` on is good.
def Reads (E : Env ω) (good : List Bytes → Prop) (first count : Nat) : Prop :=
  ∀ world, (E.store.read first count world).1.Meets (fun _ => True) good

def ReadsWithin (E : Env ω) (wanted : Nat → Prop) (first count : Nat) : Prop :=
  ∀ n ≤ count, E.Reads (fun blocks => ∀ offset < blocks.length, wanted (first + offset)) first n

-- A read returns at most as many blocks as were asked for.
def Bounded (E : Env ω) : Prop :=
  ∀ first count, E.Reads (fun blocks => blocks.length ≤ count) first count

variable {E : Env ω}

theorem Reads.mono {good good' : List Bytes → Prop} {first count : Nat} (h : E.Reads good first count)
    (hgood : ∀ blocks, good blocks → good' blocks) : E.Reads good' first count := by
  intro world
  have hread := h world
  generalize (E.store.read first count world).1 = result at hread ⊢
  cases result with
  | ok blocks => exact hgood blocks hread
  | err reason => trivial
  | hang => trivial

theorem Bounded.readsWithin (h : E.Bounded) (first count : Nat) :
    E.ReadsWithin (fun i => first ≤ i ∧ i < first + count) first count :=
  fun n hn => (h first n).mono fun blocks hlength offset hoffset => by omega

theorem reads_any {good : List Bytes → Prop} (h : ∀ blocks, good blocks) (first count : Nat) :
    E.Reads good first count := by
  intro world
  cases (E.store.read first count world).1 with
  | ok blocks => exact h blocks
  | err reason => trivial
  | hang => trivial

theorem readsWithin_any (E : Env ω) (first count : Nat) : E.ReadsWithin (fun _ => True) first count :=
  fun n _ => reads_any (fun _ _ _ => trivial) first n

end Env

namespace Remote

open Database

variable {E : Env ω} {wanted : Nat → Prop} {first count : Nat}

theorem onLink_good {body : Prog (Link ω) ε α} {good : α → Prop}
    (h : Triple (fun _ => True) body (Ends (fun _ => True) fun value _ => good value)) (pages : Pages) :
    Triple (fun db : Database ω => db.pages = pages) (onLink body)
      (Ends (fun db => db.pages = pages) fun value _ => good value) :=
  fun db hpages => ⟨hpages, (h db.source.link trivial).2⟩

theorem copyRead_good {good : List Bytes → Prop} (hnil : good []) (hreads : E.Reads good first count)
    (copy : LocalCopy) :
    Triple (fun _ => True) (copy.read E first count) (Ends (fun _ => True) fun read _ => good read.1) := by
  have hstore : Triple (fun _ => True) (E.store.read first count)
      (Ends (fun _ => True) fun blocks _ => good blocks) :=
    fun world _ => ⟨trivial, hreads world⟩
  cases copy with
  | None => exact Ends.pure fun _ _ => ⟨trivial, hnil⟩
  | Ready => exact Ends.bind hstore fun _ => Ends.pure fun _ h => ⟨trivial, h.2⟩
  | Writing writer =>
      have hwriter : Triple (fun _ => True) (writer.read E first count)
          (Ends (fun _ => True) fun read _ => good read.1) := by
        refine Triple.ite (fun _ => ?_) fun _ => Ends.fail fun _ _ => trivial
        refine Ends.bind (Ends.any _) fun writer => ?_
        refine Triple.ite (fun _ => Ends.fail fun _ _ => trivial) fun _ => ?_
        exact Ends.bind (Triple.mono hstore (fun _ _ => trivial) fun _ _ h => h) fun _ =>
          Ends.pure fun _ h => ⟨trivial, h.2⟩
      exact Ends.bind hwriter fun _ => Ends.pure fun _ h => ⟨trivial, h.2⟩

-- The first half of both loads from the copy.
theorem onCopy_good {good : List Bytes → Prop} (hnil : good []) (hreads : E.Reads good first count)
    (copy : LocalCopy) (pages : Pages) :
    Triple (fun db => db.pages = pages)
      (Prog.attempt (onWorld (copy.read E first count)) :
        Prog (Database ω) ε (Except String (List Bytes × LocalCopy)))
      (Ends (fun db => db.pages = pages) fun result _ => ∀ read, result = .ok read → good read.1) :=
  Ends.attempt fun (db : Database ω) hpages =>
    ⟨hpages, (copyRead_good hnil hreads copy db.world trivial).2⟩

-- A block of another size makes the read of the copy count as a miss.
theorem takeFromCopy_stores (hreads : E.ReadsWithin wanted first count) :
    Moves (Stores wanted) (takeFromCopy E first count : Prog (Database ω) ε Bool) := by
  intro db
  unfold takeFromCopy
  rw [get_bind]
  split_ifs
  · exact Stores.of_pages rfl
  refine Ends.followed (onCopy_good (by simp) (hreads _ (Nat.min_le_left _ _)) _ db.pages)
    (fun _ _ h _ => Stores.of_pages h) (fun result => ?_) _ rfl
  rintro s ⟨hpages, hwithin⟩
  rcases result with reason | ⟨read, copy⟩
  · exact Stores.of_pages hpages
  · dsimp only
    rw [setCopy, modify_bind]
    split_ifs with hmiss
    · exact Stores.of_pages hpages
    · rw [Bool.or_eq_true, not_or, List.any_eq_true] at hmiss
      refine Stores.run (hwithin _ rfl) (fun data hdata => ?_) hpages rfl
      simpa using fun hother => hmiss.2 ⟨data, hdata, hother⟩

theorem load_stores (hwanted : ∀ offset < count, wanted (first + offset)) :
    Moves (Stores wanted) (load E first count) := by
  intro (db : Database ω)
  have hfetch : Triple (fun s => s.pages = db.pages)
      (onLink (Client.fetch E ⟨db.remote.dbId, db.remote.version, first, count, []⟩ db.pages.pageSize))
      (Ends (fun s : Database ω => s.pages = db.pages) fun loaded _ =>
        loaded.length = count ∧ ∀ data ∈ loaded, data.length = db.pages.pageSize) :=
    fun s hpages => ⟨hpages, (fetch_sized _ _ s.source.link trivial).2⟩
  refine Ends.followed hfetch (fun _ _ h _ => Stores.of_pages h) (fun loaded => ?_) _ rfl
  rintro s ⟨hpages, hlength, hsized⟩
  exact Stores.run (fun offset hoffset => hwanted offset (hlength ▸ hoffset)) hsized hpages rfl

-- A property of the pages that a preload keeps: it is kept by blocks of the right size, and by
-- the blocks of the copy, whose sizes nothing checks.
structure Preloads (E : Env ω) (inv : Pages → Prop) : Prop where
  sized : ∀ pages loaded, inv pages → Sized pages.pageSize loaded → inv (pages.keepAll loaded)
  copied : ∀ pages, inv pages → pages.onDemand = false → ∀ first count, E.Reads (fun blocks =>
    inv (pages.keepAll (blocks.mapIdx fun offset data => (first + offset, data)))) first count

section Preloads

variable {inv : Pages → Prop}

theorem Preloads.of_keepAll (h : ∀ pages loaded, inv pages → inv (pages.keepAll loaded)) :
    Preloads E inv where
  sized pages loaded hinv _ := h pages loaded hinv
  copied pages hinv _ first count := Env.reads_any (fun _ => h pages _ hinv) first count

-- What is done between two loads.
theorem around_carries {body : Prog (Database ω) ε α} (h : Moves Around body) :
    Moves (Carries fun db : Database ω => inv db.pages) body :=
  h.mono fun _ after h hbefore => show inv after.pages from h.pages ▸ hbefore

variable (hinv : Preloads E inv)

include hinv

theorem Preloads.stores {before after : Database ω} (h : Stores wanted before after)
    (hbefore : inv before.pages) : inv after.pages := by
  obtain ⟨loaded, -, hsized, hpages⟩ := h
  rw [hpages]
  exact hinv.sized _ _ hbefore hsized

theorem preloadStep_carries (first : Nat) :
    Moves (Carries fun db : Database ω => inv db.pages ∧ db.pages.onDemand = false)
      (preloadStep E first : Prog (Database ω) ε (Nat ⊕ Bool)) := by
  intro db hdb
  have hsame : ∀ {s : Database ω}, s.pages = db.pages → inv s.pages ∧ s.pages.onDemand = false :=
    fun hpages => hpages ▸ hdb
  unfold preloadStep
  rw [get_bind]
  split_ifs
  · exact hdb
  refine Ends.followed (onCopy_good (show inv (db.pages.keepAll ([].mapIdx _)) from hdb.1)
    (hinv.copied _ hdb.1 hdb.2 first _) _ db.pages) (fun _ _ h _ => hsame h) (fun result => ?_) _ rfl
  rintro s ⟨hpages, hgood⟩
  rcases result with reason | ⟨read, copy⟩
  · exact hsame hpages
  · dsimp only
    rw [setCopy, modify_bind]
    split_ifs with hmiss
    · exact hsame hpages
    · have hkept : (s.pages.keepAll (read.mapIdx fun offset data => (first + offset, data))).onDemand =
          false := by
        rw [hpages, Pages.onDemand, (Pages.shape_keepAll _ _).perFetch]
        exact hdb.2
      exact ⟨hpages ▸ hgood _ rfl, hkept⟩

theorem catchCopyUp_carries (behind : Head) :
    Moves (Carries fun db : Database ω => inv db.pages) (catchCopyUp E behind) := by
  intro db hdb
  have hsame : ∀ {s : Database ω}, s.pages = db.pages → inv s.pages := fun hpages => hpages ▸ hdb
  unfold catchCopyUp
  rw [get_bind]
  refine Ends.followed (onLink_good (Ends.any _) db.pages) (fun _ _ h _ => hsame h) (fun changes => ?_)
    db rfl
  refine Triple.ite (fun _ => Triple.pure fun _ h => hsame h.1) fun _ => ?_
  refine Triple.ite (fun _ => Triple.pure fun _ h => hsame h.1) fun _ => ?_
  refine Triple.mono ?_ (fun _ h => h.1) fun _ _ h => h
  refine Ends.followed (Ends.attempt (onLink_good (Ends.any _) db.pages)) (fun _ _ h _ => hsame h)
    fun result => ?_
  rintro s ⟨hpages, -⟩
  cases result with
  | error reason => exact hsame hpages
  | ok value =>
      dsimp only
      rw [Database.count, modify_bind]
      split_ifs
      · refine Ends.followed (onLink_good (Ends.any _) db.pages) (fun _ _ h _ => hsame h) (fun _ => ?_) _ hpages
        refine Triple.mono ?_ (fun _ h => h.1) fun _ _ h => h
        refine Ends.followed (onLink_good (fetchRanges_sized _ _ _ _) db.pages) (fun _ _ h _ => hsame h)
          fun blocks => ?_
        rintro s ⟨hpages, -, hsized⟩
        have hkept : inv (s.pages.keepAll blocks) := hpages ▸ hinv.sized _ _ hdb hsized
        exact around_carries (Moves.bind (writeCopy_around E _) fun _ => Moves.pure _) _ hkept
      · exact hsame hpages

theorem useCopy_carries :
    Moves (Carries fun db : Database ω => inv db.pages) (useCopy E : Prog (Database ω) ε Bool) := by
  intro db hdb
  unfold useCopy
  rw [get_bind]
  split_ifs with hmode
  · exact hdb
  rw [Bool.not_eq_true] at hmode
  have hpreload : Moves (Carries fun db : Database ω => inv db.pages ∧ db.pages.onDemand = false)
      (preloadCopy E : Prog (Database ω) ε Bool) := by
    refine Moves.bind (Moves.gets _) fun _ => Moves.bind (Moves.loop (preloadStep_carries hinv) _ _) fun _ => ?_
    exact Moves.ite (Moves.bind (fun _ h => h) fun _ => Moves.pure _) (Moves.pure _)
  exact (hpreload db ⟨hdb, hmode⟩).1

theorem takeCopy_carries : Moves (Carries fun db : Database ω => inv db.pages) (takeCopy E) := by
  have hgive : Moves (Carries fun db : Database ω => inv db.pages)
      (giveCopyUp E : Prog (Database ω) ClientError Bool) :=
    Moves.bind (around_carries (forgetCopy_around E)) fun _ => Moves.pure _
  refine Moves.bind (Moves.gets _) fun db => Moves.ite (Moves.pure _) ?_
  refine Moves.bind (Moves.attempt (around_carries (Around.onLink _))) fun result => ?_
  cases result with
  | error reason => exact Moves.bind (around_carries dropCopy_around) fun _ => Moves.pure _
  | ok head =>
      dsimp only
      cases head.filter (usable db.remote db.pages) with
      | none => exact hgive
      | some head =>
          refine Moves.ite (Moves.fail _) (Moves.ite ?_ (useCopy_carries hinv))
          exact Moves.bind (catchCopyUp_carries hinv head) fun _ => Moves.ite (useCopy_carries hinv) hgive

-- The last thing a preload does is to make room.
theorem fill_preloads :
    Triple (fun db : Database ω => inv db.pages) (Remote.fill E)
      (Halts True (fun db => inv db.pages) fun _ db =>
        ∃ pages stats, inv pages ∧ db.pages = (pages.makeRoom 0 stats).1) := by
  have hroom : Triple (fun db : Database ω => inv db.pages)
      (do Prog.modify (Held.makeRoom 0); Prog.modify Held.count : Prog (Database ω) ClientError Unit)
      (Halts True (fun db => inv db.pages) fun _ db =>
        ∃ pages stats, inv pages ∧ db.pages = (pages.makeRoom 0 stats).1) :=
    fun db hdb => ⟨db.pages, db.stats, hdb, rfl⟩
  refine Halts.bind (Carries.halts (takeCopy_carries hinv)) fun fromCopy => Triple.get fun db => ?_
  refine Triple.mono (Triple.ite (fun _ => ?_) fun _ => hroom) (fun _ h => h.1) fun _ _ h => h
  have hload : Moves (Stores fun _ => True) (load E 0 db.pages.pageCount) := load_stores fun _ _ => trivial
  refine Halts.bind (Carries.halts (hload.mono fun _ _ h => hinv.stores h)) fun _ => Triple.get fun db => ?_
  refine Triple.mono ?_ (fun _ h => h.1) fun _ _ h => h
  exact Halts.bind (Carries.halts (around_carries (writeCopy_around E _))) fun _ => hroom

end Preloads

-- The blocks before this one are in memory.
def Until (first : Nat) (db : Database ω) : Prop := ∀ i < first, db.pages.block i ≠ none

-- A run of blocks that was stored.
theorem block_run {pages : Pages} {blocks : List Bytes} {first i : Nat} (hlo : first ≤ i)
    (hhi : i < first + blocks.length) :
    (pages.keepAll (blocks.mapIdx fun offset data => (first + offset, data))).block i ≠ none := by
  refine (block_keepAll_ne_none _ _ _).mpr (Or.inr ⟨blocks[i - first], List.mem_mapIdx.mpr ?_⟩)
  refine ⟨i - first, by omega, ?_⟩
  rw [Nat.add_sub_cancel' hlo]

theorem load_brings (first count : Nat) :
    Triple (fun _ => True) (load E first count) (Ends (fun _ => True) fun _ db =>
      ∀ i, first ≤ i → i < first + count → db.pages.block i ≠ none) := by
  refine Ends.bind (Ends.any _) fun started => Triple.get fun db => ?_
  have hfetch : Triple (fun _ : Database ω => True)
      (onLink (Client.fetch E ⟨db.remote.dbId, db.remote.version, first, count, []⟩ db.pages.pageSize))
      (Ends (fun _ => True) fun loaded _ => loaded.length = count ∧
        ∀ data ∈ loaded, data.length = db.pages.pageSize) :=
    fun db _ => ⟨trivial, (Client.fetch_sized _ _ db.source.link trivial).2⟩
  refine Triple.mono (Ends.bind hfetch fun loaded => ?_) (fun _ _ => trivial) fun _ _ h => h
  rintro s ⟨-, hlength, -⟩
  exact ⟨trivial, fun i hlo hhi => block_run hlo (hlength ▸ hhi)⟩

theorem preloadStep_complete (first : Nat) :
    Triple (Until first) (preloadStep E first : Prog (Database ω) ε (Nat ⊕ Bool))
      (Ends (fun _ => True) (orDone Until fun loaded db =>
        loaded = true → Until db.pages.pageCount db)) := by
  intro db huntil
  unfold preloadStep
  rw [get_bind]
  split_ifs with hend
  · exact ⟨trivial, fun _ i hi => huntil i (Nat.lt_of_lt_of_le hi hend)⟩
  refine Ends.followed (onCopy_good (show (fun _ : List Bytes => True) [] from trivial)
    (Env.reads_any (fun _ => trivial) first _) _ db.pages) (fun o _ _ hfailed => ?_) (fun result => ?_) _ rfl
  · cases o with
    | ok value => exact absurd rfl (hfailed value)
    | err reason => exact ⟨trivial, trivial⟩
    | hang => exact ⟨trivial, trivial⟩
  rintro s ⟨hpages, -⟩
  rcases result with reason | ⟨read, copy⟩
  · exact ⟨trivial, fun h => by cases h⟩
  · dsimp only
    rw [setCopy, modify_bind]
    split_ifs with hfull
    · exact ⟨trivial, fun h => by cases h⟩
    · rw [not_not] at hfull
      refine ⟨trivial, fun i hi => ?_⟩
      by_cases hold : i < first
      · refine (block_keepAll_ne_none _ _ _).mpr (Or.inl ?_)
        change s.pages.block i ≠ none
        rw [hpages]
        exact huntil i hold
      · exact block_run (by omega) (by omega)

-- True is returned only if every block was in the copy.
theorem useCopy_complete :
    Triple (fun _ => True) (useCopy E : Prog (Database ω) ε Bool)
      (Ends (fun _ => True) fun loaded db => loaded = true → Until db.pages.pageCount db) := by
  refine Triple.get fun db => Triple.ite (fun _ => Ends.pure fun _ _ => ⟨trivial, by simp⟩) fun _ => ?_
  refine Triple.get fun db => ?_
  have hloop : Triple (fun _ => True) (Prog.loop (preloadStep E) (db.pages.pageCount + 1) 0 :
      Prog (Database ω) ε Bool)
      (Ends (fun _ => True) fun loaded db => loaded = true → Until db.pages.pageCount db) := by
    refine Triple.mono (Ends.loop Until (fun first => ?_) _ 0)
      (fun _ _ => ⟨trivial, fun i hi => absurd hi (Nat.not_lt_zero i)⟩) fun _ _ h => h
    exact (preloadStep_complete first).mono (fun _ h => h.2) fun _ _ h => h
  refine Triple.mono (Ends.bind hloop fun loaded => ?_) (fun _ _ => trivial) fun _ _ h => h
  refine Triple.ite (fun _ => ?_) fun _ => Ends.pure fun _ h => h
  exact fun db h => ⟨trivial, h.2⟩

theorem takeCopy_complete :
    Triple (fun _ => True) (takeCopy E)
      (Ends (fun _ => True) fun loaded db => loaded = true → Until db.pages.pageCount db) := by
  have hgive : Triple (fun _ => True) (giveCopyUp E : Prog (Database ω) ClientError Bool)
      (Ends (fun _ => True) fun loaded db => loaded = true → Until db.pages.pageCount db) :=
    Ends.bind (Ends.any _) fun _ => Ends.pure fun _ _ => ⟨trivial, by simp⟩
  refine Triple.get fun db => Triple.mono ?_ (fun _ _ => trivial) fun _ _ h => h
  refine Triple.ite (fun _ => Ends.pure fun _ _ => ⟨trivial, by simp⟩) fun _ => ?_
  refine Ends.bind (Ends.any _) fun result => Triple.mono ?_ (fun _ _ => trivial) fun _ _ h => h
  cases result with
  | error reason => exact Ends.bind (Ends.any _) fun _ => Ends.pure fun _ _ => ⟨trivial, by simp⟩
  | ok head =>
      dsimp only
      cases head.filter (usable db.remote db.pages) with
      | none => exact hgive
      | some head =>
          refine Triple.ite (fun _ => Ends.fail fun _ _ => trivial) fun _ => ?_
          refine Triple.ite (fun _ => ?_) fun _ => useCopy_complete
          refine Ends.bind (Ends.any _) fun caught => Triple.mono ?_ (fun _ _ => trivial) fun _ _ h => h
          exact Triple.ite (fun _ => useCopy_complete) fun _ => hgive

-- Without a memory limit no block is evicted.
theorem Until.makeRoom {db : Database ω} (h : db.pages.whole = true → Until db.pages.pageCount db) :
    (Held.count (Held.makeRoom 0 db)).pages.whole = true →
      Until (Held.count (Held.makeRoom 0 db)).pages.pageCount (Held.count (Held.makeRoom 0 db)) := by
  intro hwhole
  have hdrops := drops_makeRoom db.pages 0 db.stats
  change (db.pages.makeRoom 0 db.stats).1.whole = true at hwhole
  rw [hdrops.shape.whole] at hwhole
  intro i hi
  change (db.pages.makeRoom 0 db.stats).1.block i ≠ none
  change i < (db.pages.makeRoom 0 db.stats).1.pageCount at hi
  rw [hdrops.pageCount] at hi
  rcases hdrops.block i with hsame | ⟨-, hlimited, -⟩
  · rw [hsame]
    exact h hwhole i hi
  · rw [hwhole] at hlimited
    cases hlimited

-- Pages that are never loaded again are complete.
theorem fill_complete :
    Triple (fun _ => True) (fill E) (Ends (fun _ => True) fun _ db =>
      db.pages.whole = true → Until db.pages.pageCount db) := by
  have hroom : Triple (fun db : Database ω => db.pages.whole = true → Until db.pages.pageCount db)
      (do
        Prog.modify (Held.makeRoom 0)
        Prog.modify Held.count : Prog (Database ω) ClientError Unit)
      (Ends (fun _ => True) fun _ db => db.pages.whole = true → Until db.pages.pageCount db) :=
    fun db h => ⟨trivial, Until.makeRoom h⟩
  refine Ends.bind takeCopy_complete fun fromCopy => ?_
  rintro db ⟨-, hfrom⟩
  rw [get_bind]
  dsimp only
  split_ifs with hload
  · have hpages : Moves (Stores fun _ => True) (load E 0 db.pages.pageCount) :=
      load_stores fun _ _ => trivial
    have hkept := hpages db
    have hbrings := load_brings (E := E) 0 db.pages.pageCount db trivial
    rw [bind_apply]
    generalize load E 0 db.pages.pageCount db = run at hkept hbrings ⊢
    rcases run with ⟨_ | _ | _, mid⟩
    · obtain ⟨loaded, -, -, hkept⟩ := hkept
      have hcount : mid.pages.pageCount = db.pages.pageCount := by
        rw [hkept]
        exact (keepAll_same (a := db.pages) loaded).2
      dsimp only
      rw [get_bind]
      have hwritten := (writeCopy_around (ε := ClientError) E mid.pages.indexes mid).pages
      rw [bind_apply]
      generalize (writeCopy E mid.pages.indexes : Prog (Database ω) ClientError Unit) mid = run
        at hwritten ⊢
      rcases run with ⟨_ | _ | _, last⟩
      · refine hroom last fun _ i hi => ?_
        rw [hwritten] at hi ⊢
        exact hbrings.2 i (Nat.zero_le i) (by omega)
      · exact ⟨trivial, trivial⟩
      · exact ⟨trivial, trivial⟩
    · exact ⟨trivial, trivial⟩
    · exact ⟨trivial, trivial⟩
  · refine hroom db fun hwhole i hi => ?_
    have hmode : db.pages.onDemand = false := by
      simp only [Pages.whole, Bool.and_eq_true, Option.isNone_iff_eq_none] at hwhole
      simp [Pages.onDemand, hwhole.1]
    simp only [hmode, Bool.not_false, Bool.true_and, Bool.and_eq_true, decide_eq_true_eq,
      Bool.not_eq_true'] at hload
    by_cases hcopy : fromCopy = true
    · exact hfrom hcopy i hi
    · exact absurd ⟨by omega, eq_false_of_ne_true hcopy⟩ hload

end Remote

namespace Fetch

open Database Remote

variable {E : Env ω} {wanted : Nat → Prop} {first count : Nat}

theorem asks_pages : Asks (Same (Held.pages : Database ω → Pages)) where
  link _ _ := rfl
  count _ _ _ := rfl
  login _ := rfl

theorem reconnected_pages : Moves (Same Held.pages) (reconnected E) :=
  asks_pages.reconnected fun _ _ => rfl

theorem fill_stores (hreads : E.ReadsWithin wanted first count)
    (hwanted : ∀ offset < count, wanted (first + offset)) :
    Moves (Stores wanted) (fill E first count) := by
  refine Moves.bind (Moves.gets _) fun db => ?_
  cases db.remote.broken with
  | some broken => exact Moves.fail _
  | none =>
      refine Moves.bind (takeFromCopy_stores hreads) fun taken => Moves.ite (Moves.pure _) ?_
      refine Moves.bind (reconnected_pages.mono fun _ _ h => Stores.of_pages h) fun _ => ?_
      refine Moves.bind (Moves.handle (load_stores hwanted) fun err => ?_) fun _ =>
        (writeCopy_around E _).mono fun _ _ h => Stores.of_pages h.pages
      exact Moves.ite (fun _ => Stores.of_pages rfl) (Moves.fail _)

theorem fill_any (first count : Nat) : Moves (Stores fun _ => True) (fill E first count) :=
  fill_stores (E.readsWithin_any first count) fun _ _ => trivial

end Fetch

namespace Load

open LocalDatabase

variable {bridge : LocalBridge ω} {wanted : Nat → Prop} {first count : Nat}

-- What one read from the store of the local databases returns starts at indexes in `wanted`.
def ReadsWithin (bridge : LocalBridge ω) (wanted : Nat → Prop) (first count : Nat) : Prop :=
  ∀ next n, first ≤ next → next + n ≤ first + count → ∀ world,
    (bridge.read next n world).1.Meets (fun _ => True) fun blocks =>
      ∀ offset < blocks.length, wanted (next + offset)

theorem refuseRead_pages (refusal : Refusal) :
    Moves (Same Held.pages) (refuseRead refusal : Prog (LocalDatabase ω) Broken α) := by
  cases refusal with
  | Busy => exact fun _ => rfl
  | NoAnswer reason => exact fun _ => rfl
  | _ => exact Moves.fail _

theorem readBlocks_within {next n : Nat}
    (hreads : ∀ world, (bridge.read next n world).1.Meets (fun _ => True) fun blocks =>
      ∀ offset < blocks.length, wanted (next + offset)) (pages : Pages) :
    Triple (fun db => db.pages = pages)
      (Prog.handle (onWorld (bridge.read next n)) refuseRead : Prog (LocalDatabase ω) Broken (List Bytes))
      (Ends (fun db => db.pages = pages) fun blocks _ => ∀ offset < blocks.length, wanted (next + offset)) := by
  refine Ends.handle (fun db hpages => ⟨hpages, hreads db.source.world⟩) fun refusal => ?_
  intro db hpages
  refine ⟨(refuseRead_pages refusal db).trans hpages, ?_⟩
  cases refusal <;> trivial

-- A block of another size makes the load fail.
theorem fillStep_stores (hreads : ReadsWithin bridge wanted first count) (start : LocalDatabase ω)
    (next : Nat) :
    Triple (fun db => Stores wanted start db ∧ first ≤ next) (fillStep bridge (first + count) next)
      (Ends (Stores wanted start) (orDone (fun next _ => first ≤ next) fun _ _ => True)) := by
  rintro db ⟨hloads, hlow⟩
  have hsame : ∀ {s : LocalDatabase ω}, s.pages = db.pages → Stores wanted start s :=
    fun hpages => IsTrans.trans _ _ _ hloads (Stores.of_pages hpages)
  unfold fillStep
  split_ifs with hend
  · exact ⟨hloads, trivial⟩
  rw [gets_bind]
  have hwithin : next + min (maxRead db.pages.pageSize) (first + count - next) ≤ first + count := by omega
  refine Ends.followed (readBlocks_within (hreads next _ hlow hwithin) db.pages) ?_ (fun blocks => ?_) db rfl
  · intro o s hpages hstop
    cases o with
    | ok value => exact absurd rfl (hstop value)
    | err reason => exact ⟨hsame hpages, trivial⟩
    | hang => exact ⟨hsame hpages, trivial⟩
  · rintro s ⟨hpages, hwanted⟩
    cases hfind : blocks.find? (·.length ≠ db.pages.pageSize) with
    | some data => exact ⟨hsame hpages, trivial⟩
    | none =>
        refine ⟨IsTrans.trans _ _ _ hloads (Stores.run hwanted (sized_of_find hfind) hpages rfl), ?_⟩
        exact Nat.le_add_right_of_le hlow

theorem fill_stores (hreads : ReadsWithin bridge wanted first count) :
    Moves (Stores wanted) (fill bridge first count) := by
  intro db
  unfold fill
  rw [get_bind]
  cases db.source.broken with
  | some broken => exact Stores.of_pages rfl
  | none =>
      exact (Ends.loop (fun next _ => first ≤ next) (fillStep_stores hreads db) (count + 1) first db
        ⟨Stores.of_pages rfl, Nat.le_refl _⟩).1

theorem fill_any (first count : Nat) : Moves (Stores fun _ => True) (fill bridge first count) := by
  apply fill_stores
  intro next n _ _ world
  cases (bridge.read next n world).1 with
  | ok blocks => exact fun _ _ => trivial
  | err refusal => trivial
  | hang => trivial

end Load

end RemoteVfs
