import RemoteVfs.Loads.Lasting
import RemoteVfs.Instance
import RemoteVfs.Pages.Evict

namespace RemoteVfs

open Base Base.Prog Held

-- The largest number of blocks that one access loads.
def LoadMode.batch : LoadMode → Nat
  | Preload => REFILL_BLOCKS
  | OnDemand blocksPerFetch => max blocksPerFetch 1

theorem LoadMode.asUsize_le_batch (mode : LoadMode) (usizeBits : Nat) :
    ((mode.blocksPerFetch usizeBits).map PerFetch.asUsize).getD REFILL_BLOCKS ≤ mode.batch := by
  cases mode with
  | Preload => exact le_refl _
  | OnDemand blocksPerFetch => exact Nat.mod_le _ _

namespace Pages

variable {a b : Pages}

theorem length_clean_mono (h : ∀ i, a.block i ≠ none → i ∉ a.dirty → b.block i ≠ none ∧ i ∉ b.dirty) :
    a.clean.length ≤ b.clean.length := by
  apply List.Subperm.length_le
  apply List.Nodup.subperm a.nodup_clean
  intro i hi
  obtain ⟨hheld, hclean⟩ := (a.mem_clean).mp hi
  exact (b.mem_clean).mpr (h i hheld hclean)

-- What a load adds to the clean blocks.
theorem length_clean_keepAll (pages : Pages) {loaded : List (Nat × Bytes)} {first count : Nat}
    (hwanted : ∀ entry ∈ loaded, first ≤ entry.1 ∧ entry.1 < first + count) :
    (pages.keepAll loaded).clean.length ≤ pages.clean.length + count := by
  have hsubset : (pages.keepAll loaded).clean ⊆ pages.clean ++ List.range' first count := by
    intro i hi
    obtain ⟨hheld, hclean⟩ := (mem_clean _).mp hi
    rw [(keepAll_same loaded).1] at hclean
    rw [List.mem_append, mem_clean, List.mem_range'_1]
    rcases (block_keepAll_ne_none pages loaded i).mp hheld with hold | ⟨data, hdata⟩
    · exact Or.inl ⟨hold, hclean⟩
    · exact Or.inr (hwanted _ hdata)
  have hle := (List.Nodup.subperm (nodup_clean _) hsubset).length_le
  rwa [List.length_append, List.length_range'] at hle

-- The settings of the pages, which nothing changes.
structure Settings (size limit : Nat) (perFetch : Option PerFetch) (pages : Pages) : Prop where
  pageSize : pages.pageSize = size
  cap : pages.cap = some limit
  perFetch : pages.blocksPerFetch = perFetch

theorem Settings.shape {size limit : Nat} {perFetch : Option PerFetch} (h : Settings size limit perFetch a)
    (hshape : SameShape a b) : Settings size limit perFetch b :=
  ⟨hshape.pageSize.trans h.pageSize, hshape.cap.trans h.cap, hshape.perFetch.trans h.perFetch⟩

structure Limited (size limit : Nat) (perFetch : Option PerFetch) (pages : Pages) : Prop where
  settings : Settings size limit perFetch pages
  clean : pages.clean.length ≤ max limit 1

-- A batch has to fit: after room was made for it, there may be no clean block left to evict.
theorem limited_lasting {size limit : Nat} {perFetch : Option PerFetch}
    (hbatch : (perFetch.map PerFetch.asUsize).getD REFILL_BLOCKS ≤ max limit 1) :
    Lasting (fun first count i => first ≤ i ∧ i < first + count) size (Settings size limit perFetch)
      (Limited size limit perFetch) where
  weaken _ h := h.settings
  pageSize _ h := h.settings.pageSize
  touch pages index h := by
    refine ⟨h.settings.shape (drops_touch pages index).shape, le_trans (length_clean_mono ?_) h.clean⟩
    intro i hheld hclean
    rw [block_touch] at hheld
    exact ⟨hheld, hclean⟩
  load pages stats first count loaded h _ hcount hwanted _ := by
    refine ⟨(h.settings.shape (shape_makeRoom _ _ _)).shape (shape_keepAll _ _), ?_⟩
    have hadded := length_clean_keepAll (pages.makeRoom count stats).1 hwanted
    have hheld := (pages.makeRoom count stats).1.length_clean_le
    rw [Pages.perFetch, h.settings.perFetch] at hcount
    have hroom := pages.makeRoom_fits h.settings.cap count stats
    omega
  put pages index within chunk h _ _ := by
    refine ⟨⟨h.settings.pageSize, h.settings.cap, h.settings.perFetch⟩, ?_⟩
    refine le_trans (length_clean_mono ?_) h.clean
    intro i hheld hclean
    have hother : ¬(i = index ∨ i ∈ pages.dirty) := fun h => hclean (SortedSet.mem_insert.mpr h)
    rw [not_or] at hother
    rw [block_put, if_neg hother.1] at hheld
    exact ⟨hheld, hother.2⟩
  truncate pages bytes h := by
    refine ⟨h.settings.shape (shape_truncate pages bytes), le_trans (length_clean_mono ?_) h.clean⟩
    intro i hheld hclean
    rcases truncate_cases pages bytes with hsame | ⟨hblock, hdirty⟩
    · rw [hsame] at hheld hclean
      exact ⟨hheld, hclean⟩
    · rw [hblock] at hheld
      rw [hdirty] at hclean
      split_ifs at hheld with hlt
      · exact ⟨hheld, fun hdirty => hclean ⟨hdirty, hlt⟩⟩
      · exact absurd rfl hheld
  committed pages h := ⟨h.settings.pageSize, h.settings.cap, h.settings.perFetch⟩
  emptied pages pageCount h := ⟨h.settings.pageSize, h.settings.cap, h.settings.perFetch⟩
  room pages stats h := by
    refine ⟨h.shape (shape_makeRoom _ _ _), ?_⟩
    have hheld := (pages.makeRoom 0 stats).1.length_clean_le
    have hroom := pages.makeRoom_fits h.cap 0 stats
    omega

end Pages

-- A read returns at most as many blocks as were asked for.
def LocalBridge.Bounded {ω : Type} (bridge : LocalBridge ω) : Prop :=
  ∀ first count world, (bridge.read first count world).1.Meets (fun _ => True) (·.length ≤ count)

theorem LocalBridge.Bounded.readsWithin {ω : Type} {bridge : LocalBridge ω} (h : bridge.Bounded)
    (first count : Nat) : Load.ReadsWithin bridge (fun i => first ≤ i ∧ i < first + count) first count := by
  intro next n hlow hhigh world
  have hread := h next n world
  generalize (bridge.read next n world).1 = result at hread ⊢
  cases result with
  | ok blocks =>
      intro offset hoffset
      have : blocks.length ≤ n := hread
      omega
  | err reason => trivial
  | hang => trivial

theorem Net.env_bounded (setup : Setup) : (env setup).Bounded := by
  intro first count net
  have hread := read_spec (I := fun _ => True) first count net trivial
  change (store.read first count net).1.Meets _ _
  generalize store.read first count net = run at hread ⊢
  rcases run with ⟨_ | _ | _, after⟩
  · rw [hread.2]
    exact Disk.length_read_le _ _ _
  · trivial
  · trivial

-- An answer with another number of blocks is refused.
theorem Instance.bridge_bounded {n : Nat} (debugBroken : Broken → String) :
    (bridge debugBroken : LocalBridge (Instance n)).Bounded := by
  intro first count inst
  change (Prog.bind (ask (.Read first count)) _ inst).1.Meets _ _
  unfold Prog.bind
  rcases ask (.Read first count) inst with ⟨answer | _ | _, after⟩
  · cases answer with
    | Blocks size blocks =>
        dsimp only
        split_ifs with h
        · trivial
        · exact (not_not.mp (not_or.mp h).2).le
    | _ => trivial
  · trivial
  · trivial

section Limit

open Pages

variable {ω : Type} {limit usizeBits : Nat} {mode : LoadMode} (hbatch : mode.batch ≤ max limit 1)

include hbatch

theorem Session.limited {E : Env ω} (hbounded : E.Bounded) {dbId : String} {options : OpenOptions}
    {desk after : Database.Desk ω} {pages : Pages} {remote : Remote}
    (hcap : options.cap = (Memory.Blocks limit).cap)
    (hmode : options.blocksPerFetch = mode.blocksPerFetch usizeBits)
    (hopen : Database.openOn E dbId options desk = (.ok (pages, remote), after)) {ops : List Op}
    (hreturned : Returned E ops ⟨pages, after.stats, ⟨remote, after.link⟩⟩) :
    (ops.foldl (Op.run E) ⟨pages, after.stats, ⟨remote, after.link⟩⟩).pages.clean.length ≤ max limit 1 := by
  obtain ⟨opened, -, -, hstart⟩ := Database.openOn_lasts hopen
  have hlasting : Lasting _ opened.pageSize _ (Limited _ limit (mode.blocksPerFetch usizeBits)) :=
    limited_lasting ((mode.asUsize_le_batch usizeBits).trans hbatch)
  have hpreloads : Remote.Preloads E (Settings opened.pageSize limit (mode.blocksPerFetch usizeBits)) :=
    Remote.Preloads.of_keepAll fun pages loaded h => h.shape (shape_keepAll pages loaded)
  have hpages := hstart hlasting hpreloads ⟨rfl, hcap, hmode⟩
  have hfill : ∀ first count, Moves (Stores fun i => first ≤ i ∧ i < first + count) (Fetch.fill E first count) :=
    fun first count => Fetch.fill_stores (hbounded.readsWithin first count) fun offset hoffset => by omega
  have hrun := fun h => run_lasts hlasting hfill hpreloads h hreturned
  exact (hrun hpages).clean

theorem LocalDatabase.limited {bridge : LocalBridge ω} (hbounded : bridge.Bounded) {name : String}
    {options : LocalOptions} {desk after : Desk ω} {db : LocalDatabase ω}
    (hcap : options.cap = (Memory.Blocks limit).cap)
    (hmode : options.blocksPerFetch = mode.blocksPerFetch usizeBits)
    (hopen : openOn bridge name options desk = (.ok db, after)) {ops : List Op}
    (hreturned : Returned bridge ops db) :
    (ops.foldl (Op.run bridge) db).pages.clean.length ≤ max limit 1 := by
  obtain ⟨opened, -, hstart⟩ := openOn_lasts hopen
  have hlasting : Lasting _ opened.pageSize _ (Limited _ limit (mode.blocksPerFetch usizeBits)) :=
    limited_lasting ((mode.asUsize_le_batch usizeBits).trans hbatch)
  have hpages := hstart hlasting (fun pages loaded h _ => h.shape (shape_keepAll pages loaded))
    ⟨rfl, hcap, hmode⟩
  have hfill : ∀ first count, Moves (Stores fun i => first ≤ i ∧ i < first + count)
      (Load.fill bridge first count) :=
    fun first count => Load.fill_stores (hbounded.readsWithin first count)
  exact (run_lasts hlasting hfill hpages hreturned).clean

end Limit

theorem memory_limit_holds (limit usizeBits : Nat) (mode : LoadMode) (hbatch : mode.batch ≤ max limit 1) :
    (∀ (ω : Type) (E : Env ω), E.Bounded → ∀ dbId (options : OpenOptions) desk pages remote after,
      options.cap = (Memory.Blocks limit).cap → options.blocksPerFetch = mode.blocksPerFetch usizeBits →
      Database.openOn E dbId options desk = (.ok (pages, remote), after) →
      ∀ ops, Session.Returned E ops ⟨pages, after.stats, ⟨remote, after.link⟩⟩ →
        (ops.foldl (Session.Op.run E) ⟨pages, after.stats, ⟨remote, after.link⟩⟩).pages.clean.length ≤
          max limit 1) ∧
    (∀ (ω : Type) (bridge : LocalBridge ω), bridge.Bounded → ∀ name (options : LocalOptions) desk db after,
      options.cap = (Memory.Blocks limit).cap → options.blocksPerFetch = mode.blocksPerFetch usizeBits →
      LocalDatabase.openOn bridge name options desk = (.ok db, after) →
      ∀ ops, LocalDatabase.Returned bridge ops db →
        (ops.foldl (LocalDatabase.Op.run bridge) db).pages.clean.length ≤ max limit 1) ∧
    (∀ setup, (Net.env setup).Bounded) ∧
    ∀ n debugBroken, (Instance.bridge debugBroken : LocalBridge (Instance n)).Bounded := by
  refine ⟨?_, ?_, Net.env_bounded, fun n => Instance.bridge_bounded⟩
  · intro ω E hbounded dbId options desk pages remote after hcap hmode hopen ops hreturned
    exact Session.limited hbatch hbounded hcap hmode hopen hreturned
  · intro ω bridge hbounded name options desk db after hcap hmode hopen ops hreturned
    exact LocalDatabase.limited hbatch hbounded hcap hmode hopen hreturned

-- A store whose databases have two blocks of zeros.
def zeroBridge : LocalBridge Unit where
  openDatabase _ _ _ _ := pure ⟨512, 2, 1⟩
  read _ count := pure (List.replicate count (zeros 512))
  commit _ _ _ := pure ()
  close _ := ()
  now _ := (0, ())
  debugBroken _ := ""

theorem zeroBridge_bounded : zeroBridge.Bounded :=
  fun _ count _ => Nat.le_of_eq (List.length_replicate (n := count))

def zeroOptions (mode : LoadMode) (limit : Nat) : LocalOptions :=
  ⟨512, false, false, mode.blocksPerFetch 32, (Memory.Blocks limit).cap⟩

theorem memory_limit_holds_two : ∃ db after,
    LocalDatabase.openOn zeroBridge "app.db" (zeroOptions (.OnDemand 2) 2) ⟨{}, ()⟩ = (.ok db, after) ∧
    LocalDatabase.Returned zeroBridge [.Read 0 1, .Write 0 [7], .Commit] db ∧
    ([.Read 0 1, .Write 0 [7], .Commit].foldl (LocalDatabase.Op.run zeroBridge) db).pages.clean.length ≤
      max 2 1 := by
  have hreturned : LocalDatabase.Returned zeroBridge [.Read 0 1, .Write 0 [7], .Commit]
      ⟨.new 512 2 (some ⟨2, 32⟩) (some 2), {}, ⟨1, none, ()⟩⟩ := by decide +kernel
  exact ⟨_, _, rfl, hreturned, (memory_limit_holds 2 32 (.OnDemand 2) (by decide)).2.1 Unit zeroBridge
    zeroBridge_bounded "app.db" (zeroOptions (.OnDemand 2) 2) ⟨{}, ()⟩ _ _ rfl rfl rfl _ hreturned⟩

-- One access loads two blocks where only one may be kept.
theorem memory_limit_exceeded : ∃ db after,
    LocalDatabase.openOn zeroBridge "app.db" (zeroOptions (.OnDemand 2) 1) ⟨{}, ()⟩ = (.ok db, after) ∧
    LocalDatabase.Returned zeroBridge [.Read 0 1] db ∧
    max 1 1 < ([.Read 0 1].foldl (LocalDatabase.Op.run zeroBridge) db).pages.clean.length := by
  refine ⟨_, _, rfl, ?_, ?_⟩
  · decide +kernel
  · decide +kernel

end RemoteVfs
