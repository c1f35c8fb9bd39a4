import RemoteVfs.Base.SortedMap
import RemoteVfs.CopyHead
import RemoteVfs.FileStore.Store
import RemoteVfs.Local

namespace RemoteVfs

open Base Base.Prog Transfer

-- What IndexedDB keeps of the copy: its stores "head" and "blocks".
structure CopyDb where
  head : Option Head
  blocks : SortedMap Nat Bytes
  deriving DecidableEq

namespace CopyDb

def empty : CopyDb := ⟨none, .empty⟩

def copyHead (db : CopyDb) : Option Head := db.head

-- How many of the keys follow one another, from `first + run` on.
def countRun (first : Nat) : Nat → List Nat → Nat
  | run, [] => run
  | run, key :: rest => if key = toNumber (first + run) then countRun first (run + 1) rest else run

-- `stop` is the block after the last one.
def copyRead (first count : Nat) (db : CopyDb) : List Bytes :=
  match db.copyHead with
  | none => []
  | some head =>
    let stop := min (toNumber (first + count)) head.pageCount
    if stop ≤ first then []
    else
      let range := db.blocks.between first (stop - 1)
      let blocks := range.map (·.2)
      let keys := range.map (·.1)
      blocks.take (countRun first 0 keys)

def copyWrite (head : Head) (blocks : List (Nat × Bytes)) (db : CopyDb) : CopyDb :=
  let store := blocks.foldl (fun store entry => store.put entry.1 entry.2) db.blocks
  ⟨some head, store.retain (· < head.pageCount)⟩

def copyForget (head : Head) (blocks : List Nat) (db : CopyDb) : CopyDb :=
  let store := blocks.foldl (fun store index => store.retain (· ≠ index)) db.blocks
  ⟨some head, store.retain (· < head.pageCount)⟩

def copyClear (_ : CopyDb) : CopyDb := empty

end CopyDb

-- The answer to `OP_COPY_READ`, with no more blocks than the answer region has room for. Nothing is
-- `KIND_NOTHING`. All blocks have the length of the first one.
def readAnswer (blocks : List Bytes) : Option Bytes :=
  match blocks with
  | [] => none
  | block :: _ =>
    let size := block.length
    let fit := if size = 0 then blocks else blocks.take (max 1 ((CAPACITY - 4) / size))
    some (leBytes 4 size ++ fit.flatten)

-- What `Copy::read` makes of the answer.
def readFrom : Option Bytes → List Bytes
  | none => []
  | some all =>
    if all.length < 4 then []
    else
      let size := ofLeBytes (all.take 4)
      let body := all.drop 4
      if size = 0 ∨ body.length % size ≠ 0 then [] else chunks size body

-- The calls of a local copy.
inductive CacheOp where
  | Head
  | Read (first count : Nat)
  | Change (op : StoreOp)
  deriving DecidableEq, Repr

inductive CacheAnswer where
  | Head (head : Option Head)
  | Blocks (blocks : List Bytes)
  | Done
  deriving DecidableEq, Repr

namespace CacheOp

-- In the file.
def onFile : CacheOp → Prog Volume String CacheAnswer
  | Head => do return .Head (← FileStore.head)
  | Read first count => do return .Blocks (← FileStore.read first count)
  | Change op => do
    op.run
    return .Done

def fileAnswers : List CacheOp → Volume → List (Outcome String CacheAnswer)
  | [], _ => []
  | op :: rest, volume =>
    let (answer, after) := op.onFile volume
    answer :: fileAnswers rest after

-- In IndexedDB. Heads and numbers go through the bridge in both directions.
def onCopy : CacheOp → CopyDb → CacheAnswer × CopyDb
  | Head, db => (.Head (db.copyHead.bind fun head => (Copy.headFrom (Worker.headBytes head)).join), db)
  | Read first count, db =>
    (.Blocks (readFrom (readAnswer (db.copyRead (toNumber first) (toNumber count)))), db)
  | Change (.Write head blocks), db =>
    (.Done, (headFrom (headBytes head)).elim db fun head =>
      db.copyWrite head (blocks.map fun entry => (toNumber entry.1, entry.2)))
  | Change (.Forget head blocks), db =>
    (.Done, (headFrom (headBytes head)).elim db fun head => db.copyForget head (blocks.map toNumber))
  | Change .Clear, db => (.Done, db.copyClear)

def copyAnswers : List CacheOp → CopyDb → List CacheAnswer
  | [], _ => []
  | op :: rest, db =>
    let (answer, after) := op.onCopy db
    answer :: copyAnswers rest after

-- The heads that the worker decodes as they are.
def Exchanged (head : RemoteVfs.Head) : Prop :=
  head.version < 2 ^ 53 ∧ (text head.subject).take 3 ≠ BOM ∧ (text head.dbId).take 3 ≠ BOM

instance (head : RemoteVfs.Head) : Decidable (Exchanged head) := inferInstanceAs (Decidable (_ ∧ _))

-- A call as the client makes it: reads are bounded, and only a copy that is there is caught up.
def Fair (pageSize : Nat) (db : CopyDb) : CacheOp → Prop
  | Head => True
  | Read first count => first < 2 ^ 53 ∧ count ≤ blocksPerRead pageSize
  | Change (.Write head blocks) => (StoreOp.Write head blocks).Valid pageSize ∧ Exchanged head
  | Change (.Forget head blocks) =>
    (StoreOp.Forget head blocks).Valid pageSize ∧ Exchanged head ∧ db.head.isSome = true
  | Change .Clear => True

instance (pageSize : Nat) (db : CopyDb) (op : CacheOp) : Decidable (op.Fair pageSize db) := by
  unfold Fair
  split <;> infer_instance

def AllFair (pageSize : Nat) : CopyDb → List CacheOp → Prop
  | _, [] => True
  | db, op :: rest => op.Fair pageSize db ∧ AllFair pageSize (op.onCopy db).2 rest

instance (pageSize : Nat) : (db : CopyDb) → (ops : List CacheOp) → Decidable (AllFair pageSize db ops)
  | _, [] => .isTrue trivial
  | db, op :: rest =>
    have := instDecidableAllFair pageSize (op.onCopy db).2 rest
    inferInstanceAs (Decidable (_ ∧ _))

end CacheOp

theorem le_toNumber {n : Nat} (h : 2 ^ 53 ≤ n) : 2 ^ 53 ≤ toNumber n := by
  have hlog : 53 ≤ Nat.log2 n := (Nat.le_log2 (by omega)).mpr h
  have hunit : 0 < 2 ^ (Nat.log2 n - 52) := by positivity
  have hmantissa : 2 ^ 52 ≤ n / 2 ^ (Nat.log2 n - 52) := by
    rw [Nat.le_div_iff_mul_le hunit, ← Nat.pow_add, show 52 + (Nat.log2 n - 52) = Nat.log2 n by omega]
    exact Nat.log2_self_le (by omega)
  have htwo : 2 ≤ 2 ^ (Nat.log2 n - 52) := Nat.le_self_pow (by omega) 2
  have hlow : 2 ^ 53 ≤ n / 2 ^ (Nat.log2 n - 52) * 2 ^ (Nat.log2 n - 52) :=
    le_trans (by decide) (Nat.mul_le_mul hmantissa htwo)
  unfold toNumber
  rw [if_neg (by omega)]
  dsimp only
  split_ifs
  · rw [Nat.add_mul]
    omega
  · exact hlow

-- Where a sum is rounded, it is past every page count anyway.
theorem min_toNumber (n : Nat) {pageCount : Nat} (h : pageCount ≤ 2 ^ 53) :
    min (toNumber n) pageCount = min n pageCount := by
  by_cases hn : n < 2 ^ 53
  · rw [toNumber_of_lt hn]
  · have := le_toNumber (not_lt.mp hn)
    omega

-- A small number is not the rounding of another one.
theorem toNumber_eq_small_iff {n i : Nat} (h : i < 2 ^ 53) : toNumber n = i ↔ n = i := by
  by_cases hn : n < 2 ^ 53
  · rw [toNumber_of_lt hn]
  · have := le_toNumber (not_lt.mp hn)
    omega

namespace CopyDb

-- The blocks from `first` on, with their numbers.
def numbered (block : Nat → Option Bytes) (first count : Nat) : List (Nat × Bytes) :=
  (List.range' first count).filterMap fun key => (block key).map (key, ·)

-- The blocks up to the first one that is missing.
def unbroken (block : Nat → Option Bytes) (first count : Nat) : List Bytes :=
  (((List.range' first count).map block).takeWhile Option.isSome).filterMap id

theorem numbered_succ (block : Nat → Option Bytes) (first count : Nat) :
    numbered block first (count + 1) =
      match block first with
      | some data => (first, data) :: numbered block (first + 1) count
      | none => numbered block (first + 1) count := by
  rw [numbered, List.range'_succ, List.filterMap_cons]
  cases block first <;> rfl

theorem unbroken_succ (block : Nat → Option Bytes) (first count : Nat) :
    unbroken block first (count + 1) =
      match block first with
      | some data => data :: unbroken block (first + 1) count
      | none => [] := by
  rw [unbroken, List.range'_succ, List.map_cons, List.takeWhile_cons]
  cases block first <;> rfl

theorem lt_of_numbered {block : Nat → Option Bytes} {first count : Nat} {entry : Nat × Bytes}
    (h : entry ∈ numbered block first count) : first ≤ entry.1 := by
  obtain ⟨key, hkey, hentry⟩ := List.mem_filterMap.mp h
  obtain ⟨data, -, rfl⟩ := Option.map_eq_some_iff.mp hentry
  exact (List.mem_range'_1.mp hkey).1

-- The run that the worker counts is the one up to the first missing block.
theorem countRun_numbered (block : Nat → Option Bytes) (first run : Nat) {count : Nat}
    (hsmall : first + run + count ≤ 2 ^ 53) :
    countRun first run ((numbered block (first + run) count).map (·.1)) =
      run + (unbroken block (first + run) count).length := by
  induction count generalizing run with
  | zero => rfl
  | succ count ih =>
      rw [numbered_succ, unbroken_succ]
      cases hblock : block (first + run) with
      | none =>
          dsimp only
          cases hrest : numbered block (first + run + 1) count with
          | nil => rfl
          | cons entry rest =>
              have hentry : first + run + 1 ≤ entry.1 := lt_of_numbered (hrest ▸ List.mem_cons_self)
              have hne : entry.1 ≠ toNumber (first + run) := by
                rw [toNumber_of_lt (by omega)]
                omega
              rw [List.map_cons, countRun, if_neg hne]
              rfl
      | some data =>
          have hnext := ih (run + 1) (by omega)
          dsimp only
          rw [List.map_cons, countRun, if_pos (toNumber_of_lt (by omega)).symm]
          rw [Nat.add_assoc first run 1, hnext, List.length_cons]
          omega

theorem take_numbered (block : Nat → Option Bytes) (first count : Nat) :
    ((numbered block first count).map (·.2)).take (unbroken block first count).length =
      unbroken block first count := by
  induction count generalizing first with
  | zero => rfl
  | succ count ih =>
      rw [numbered_succ, unbroken_succ]
      cases block first with
      | none => rfl
      | some data =>
          dsimp only
          rw [List.map_cons, List.length_cons, List.take_succ_cons, ih]

theorem unbroken_of_bounded {block : Nat → Option Bytes} {pageCount : Nat}
    (h : ∀ i, pageCount ≤ i → block i = none) (first count : Nat) :
    unbroken block first (min (first + count) pageCount - first) = unbroken block first count := by
  induction count generalizing first with
  | zero => simp
  | succ count ih =>
      by_cases hfirst : first < pageCount
      · have hcount : min (first + (count + 1)) pageCount - first =
            min (first + 1 + count) pageCount - (first + 1) + 1 := by omega
        rw [hcount, unbroken_succ, unbroken_succ, ih]
      · have hcount : min (first + (count + 1)) pageCount - first = 0 := by omega
        rw [hcount, unbroken_succ, h first (not_lt.mp hfirst)]
        rfl

theorem copyRead_eq {db : CopyDb} {head : Head} (hhead : db.head = some head)
    (hcount : head.pageCount ≤ 2 ^ 53) (hbounded : ∀ i, head.pageCount ≤ i → db.blocks.get i = none)
    (first count : Nat) : db.copyRead first count = unbroken db.blocks.get first count := by
  rw [copyRead, copyHead, hhead]
  dsimp only
  rw [min_toNumber _ hcount, ← unbroken_of_bounded hbounded]
  by_cases hempty : min (first + count) head.pageCount ≤ first
  · rw [if_pos hempty, Nat.sub_eq_zero_of_le hempty]
    rfl
  · have hrange : min (first + count) head.pageCount - 1 + 1 - first =
        min (first + count) head.pageCount - first := by omega
    have hrun := countRun_numbered db.blocks.get first 0
      (show first + 0 + (min (first + count) head.pageCount - first) ≤ 2 ^ 53 by omega)
    rw [Nat.add_zero, Nat.zero_add] at hrun
    rw [if_neg hempty, SortedMap.between_eq, hrange, ← take_numbered, ← hrun]
    rfl

end CopyDb

theorem chunks_flatten {size : Nat} (hsize : 0 < size) {blocks : List Bytes}
    (h : ∀ block ∈ blocks, block.length = size) : chunks size blocks.flatten = blocks := by
  induction blocks with
  | nil =>
      rw [List.flatten_nil, chunks, List.length_nil, divCeil, Nat.div_eq_of_lt (by omega)]
      rfl
  | cons block rest ih =>
      have hblock := h block List.mem_cons_self
      have hrest := ih fun other hother => h other (List.mem_cons_of_mem _ hother)
      have hcount : divCeil (block ++ rest.flatten).length size =
          divCeil rest.flatten.length size + 1 := by
        rw [List.length_append, hblock, divCeil, divCeil, ← Nat.add_div_right _ hsize]
        congr 1
        omega
      rw [List.flatten_cons, chunks, hcount, List.range_succ_eq_map, List.map_cons, List.map_map,
        Nat.zero_mul, List.drop_zero, List.take_left' hblock]
      congr 1
      refine Eq.trans ?_ hrest
      refine List.map_congr_left fun k _ => ?_
      rw [Function.comp_apply, Nat.succ_mul, Nat.add_comm, ← List.drop_drop, List.drop_left' hblock]

theorem length_flatten_of_size {size : Nat} {blocks : List Bytes}
    (h : ∀ block ∈ blocks, block.length = size) : blocks.flatten.length = blocks.length * size := by
  induction blocks with
  | nil => simp
  | cons block rest ih =>
      rw [List.flatten_cons, List.length_append, h block List.mem_cons_self,
        ih fun other hother => h other (List.mem_cons_of_mem _ hother), List.length_cons, Nat.succ_mul,
        Nat.add_comm]

-- The answer region has room for every read that the client makes.
theorem readFrom_readAnswer {size : Nat} (hsize : 0 < size ∧ size ≤ MAX_PAGE_SIZE) {blocks : List Bytes}
    (h : ∀ block ∈ blocks, block.length = size) (hcount : blocks.length ≤ blocksPerRead size) :
    readFrom (readAnswer blocks) = blocks := by
  cases blocks with
  | nil => rfl
  | cons block rest =>
      have hblock := h block List.mem_cons_self
      have hroom : (block :: rest).length ≤ max 1 ((CAPACITY - 4) / size) := by
        have hread : MAX_READ_BYTES / size ≤ (CAPACITY - 4) / size := Nat.div_le_div_right (by decide)
        rw [blocksPerRead, Nat.max_eq_left (show 1 ≤ size by omega)] at hcount
        omega
      have hfour : (leBytes 4 size ++ (block :: rest).flatten).take 4 = leBytes 4 size :=
        List.take_left' (length_leBytes _ _)
      have hbody : (leBytes 4 size ++ (block :: rest).flatten).drop 4 = (block :: rest).flatten :=
        List.drop_left' (length_leBytes _ _)
      have hlong : ¬(leBytes 4 size ++ (block :: rest).flatten).length < 4 := by
        rw [List.length_append, length_leBytes]
        omega
      have hsmall : size < 256 ^ 4 := hsize.2.trans_lt (by decide)
      rw [readAnswer, hblock, if_neg (by omega), List.take_of_length_le hroom, readFrom]
      rw [if_neg hlong, hfour, hbody, ofLeBytes_leBytes hsmall, if_neg, chunks_flatten hsize.1 h]
      rw [length_flatten_of_size h, Nat.mul_mod_left]
      omega

namespace CopyDb

variable {pageSize : Nat} {disk : Disk} {db : CopyDb}

theorem get_puts (blocks : List (Nat × Bytes)) (store : SortedMap Nat Bytes) (i : Nat) :
    (blocks.foldl (fun store entry => store.put entry.1 entry.2) store).get i =
      ((blocks.reverse.find? (·.1 = i)).map Prod.snd).or (store.get i) := by
  induction blocks generalizing store with
  | nil => rfl
  | cons entry rest ih =>
      rw [List.foldl_cons, ih, SortedMap.get_put, List.reverse_cons, List.find?_append]
      cases rest.reverse.find? (·.1 = i) with
      | some other => rfl
      | none => by_cases hi : entry.1 = i <;> simp [hi]

theorem get_deletes (blocks : List Nat) (store : SortedMap Nat Bytes) (i : Nat) :
    (blocks.foldl (fun store index => store.retain (· ≠ index)) store).get i =
      if i ∈ blocks then none else store.get i := by
  induction blocks generalizing store with
  | nil => rfl
  | cons index rest ih =>
      rw [List.foldl_cons, ih, SortedMap.get_retain]
      by_cases hrest : i ∈ rest
      · simp [hrest]
      · by_cases hi : i = index <;> simp [hrest, hi]

-- The blocks as they arrive, where the page count ends.
theorem get_puts_arrived (blocks : List (Nat × Bytes)) (store : SortedMap Nat Bytes) {i : Nat}
    (hi : i < 2 ^ 53) :
    ((blocks.map fun entry => (toNumber entry.1, entry.2)).foldl (fun store entry => store.put entry.1 entry.2)
      store).get i = ((blocks.reverse.find? (·.1 = i)).map Prod.snd).or (store.get i) := by
  rw [get_puts, ← List.map_reverse, List.find?_map, Option.map_map]
  simp only [Function.comp_def, toNumber_eq_small_iff hi]

theorem get_deletes_arrived (blocks : List Nat) (store : SortedMap Nat Bytes) {i : Nat} (hi : i < 2 ^ 53) :
    ((blocks.map toNumber).foldl (fun store index => store.retain (· ≠ index)) store).get i =
      if i ∈ blocks then none else store.get i := by
  rw [get_deletes]
  simp only [List.mem_map, toNumber_eq_small_iff hi, exists_eq_right]

-- The two caches hold the same blocks under the same head.
structure Mirrors (pageSize : Nat) (disk : Disk) (db : CopyDb) : Prop where
  header : disk.header = db.head.map (·, true)
  holds : disk.holds = db.blocks.get
  sized : ∀ i data, db.blocks.get i = some data → data.length = pageSize
  fits : ∀ head, db.head = some head → head.Fits ∧ head.pageSize = pageSize

theorem mirrors_empty (pageSize : Nat) : Mirrors pageSize .empty empty where
  header := rfl
  holds := rfl
  sized := fun _ _ h => nomatch h
  fits := fun _ h => nomatch h

theorem Mirrors.head (h : Mirrors pageSize disk db) : disk.head = db.copyHead := by
  rw [Disk.head, h.header, copyHead]
  cases db.head <;> rfl

-- Every block of a head that fits has a number that a double holds.
theorem lt_of_fits {head : Head} (h : head.Fits) {i : Nat} (hi : i < head.pageCount) : i < 2 ^ 53 :=
  hi.trans (h.pageCount.trans_lt (by decide))

theorem Mirrors.write (h : Mirrors pageSize disk db) {head : Head} {blocks : List (Nat × Bytes)}
    (hvalid : (StoreOp.Write head blocks).Valid pageSize) :
    Mirrors pageSize (disk.write head blocks)
      (db.copyWrite head (blocks.map fun entry => (toNumber entry.1, entry.2))) where
  header := rfl
  holds := by
    funext i
    simp only [Disk.holds, Disk.write, copyWrite, SortedMap.get_retain, decide_eq_true_eq]
    split_ifs with hi
    · rw [get_puts_arrived _ _ (lt_of_fits hvalid.1 hi), ← h.holds]
      rfl
    · rfl
  sized := by
    intro i data hdata
    simp only [copyWrite, SortedMap.get_retain, decide_eq_true_eq] at hdata
    split_ifs at hdata with hi
    rw [get_puts_arrived _ _ (lt_of_fits hvalid.1 hi)] at hdata
    rcases Option.or_eq_some_iff.mp hdata with hwritten | ⟨-, hheld⟩
    · obtain ⟨entry, hentry, rfl⟩ := Option.map_eq_some_iff.mp hwritten
      exact hvalid.2.2 entry (List.mem_reverse.mp (List.mem_of_find?_eq_some hentry))
    · exact h.sized i data hheld
  fits := by
    intro other hother
    obtain rfl := Option.some.inj hother
    exact ⟨hvalid.1, hvalid.2.1⟩

theorem Mirrors.forget (h : Mirrors pageSize disk db) {head : Head} {blocks : List Nat}
    (hvalid : (StoreOp.Forget head blocks).Valid pageSize) :
    Mirrors pageSize (disk.forget head blocks) (db.copyForget head (blocks.map toNumber)) where
  header := rfl
  holds := by
    funext i
    by_cases hi : i < head.pageCount
    · simp only [Disk.holds, Disk.forget, copyForget, SortedMap.get_retain, decide_eq_true_eq,
        get_deletes_arrived _ _ (lt_of_fits hvalid.1 hi), ← h.holds]
      split_ifs <;> simp_all
    · simp [Disk.holds, Disk.forget, copyForget, SortedMap.get_retain, hi]
  sized := by
    intro i data hdata
    simp only [copyForget, SortedMap.get_retain, decide_eq_true_eq] at hdata
    split_ifs at hdata with hi
    rw [get_deletes_arrived _ _ (lt_of_fits hvalid.1 hi)] at hdata
    split_ifs at hdata with hmem
    exact h.sized i data hdata
  fits := by
    intro other hother
    obtain rfl := Option.some.inj hother
    exact hvalid

theorem length_unbroken_le (block : Nat → Option Bytes) (first count : Nat) :
    (unbroken block first count).length ≤ count := by
  refine (List.length_filterMap_le _ _).trans ?_
  refine (List.takeWhile_sublist _).length_le.trans ?_
  simp

theorem mem_unbroken {block : Nat → Option Bytes} {first count : Nat} {data : Bytes}
    (h : data ∈ unbroken block first count) : ∃ i, block i = some data := by
  obtain ⟨value, hvalue, rfl⟩ := List.mem_filterMap.mp h
  obtain ⟨i, -, hi⟩ := List.mem_map.mp ((List.takeWhile_sublist _).subset hvalue)
  exact ⟨i, hi⟩

theorem Mirrors.read (h : Mirrors pageSize disk db) {first count : Nat}
    (hcount : count ≤ blocksPerRead pageSize) :
    disk.read first count = readFrom (readAnswer (db.copyRead first count)) := by
  cases hhead : db.head with
  | none =>
      rw [Disk.read, h.header, copyRead, copyHead, hhead]
      rfl
  | some head =>
      obtain ⟨hfits, rfl⟩ := h.fits head hhead
      have hbounded : ∀ i, head.pageCount ≤ i → db.blocks.get i = none := by
        intro i hi
        rw [← h.holds, Disk.holds, h.header, hhead]
        exact if_neg (not_lt.mpr hi)
      have hread : disk.read first count = unbroken db.blocks.get first count := by
        rw [Disk.read, h.header, hhead, h.holds]
        rfl
      have hsize : ∀ block ∈ unbroken db.blocks.get first count, block.length = head.pageSize := by
        intro block hblock
        obtain ⟨i, hi⟩ := mem_unbroken hblock
        exact h.sized i block hi
      rw [hread, copyRead_eq hhead (hfits.pageCount.trans (by decide)) hbounded,
        readFrom_readAnswer hfits.pageSize hsize ((length_unbroken_le ..).trans hcount)]

end CopyDb

namespace CacheOp

open FileStore Volume CopyDb

variable {pageSize : Nat} {disk : Disk} {db : CopyDb} {volume : Volume}

theorem change_answer (hstores : Stores pageSize disk volume) {op : StoreOp} (hvalid : op.Valid pageSize)
    (hanswer : op.answer disk = .ok ()) :
    ((Change op).onFile volume).1 = .ok .Done ∧
      Stores pageSize (op.onDisk disk) ((Change op).onFile volume).2 := by
  obtain ⟨hok, hafter⟩ := stores_step hstores hvalid
  rw [hanswer] at hok
  rw [onFile, Prog.bind_ok _ (Prod.ext hok rfl)]
  exact ⟨rfl, hafter⟩

theorem framed_of_fits {head : RemoteVfs.Head} (h : head.Fits) : Framed head := by
  have hnames : 36 + (text head.subject).length + (text head.dbId).length ≤ 4096 := h.names
  exact ⟨h.pageSize.2.trans_lt (by decide), h.pageCount.trans_lt (by decide), h.version, by omega, by omega⟩

theorem headFrom_exchanged {head : RemoteVfs.Head} (hfits : head.Fits) (h : Exchanged head) :
    headFrom (headBytes head) = some head := by
  rw [headFrom_headBytes (framed_of_fits hfits),
    (received_eq_iff head).mpr ⟨⟨head.version, 0, h.1, by omega⟩, h.2.1, h.2.2⟩]

-- The head that is kept comes back.
theorem copyHead_answered (h : Mirrors pageSize disk db) :
    (db.copyHead.bind fun head => (Copy.headFrom (Worker.headBytes head)).join) = db.copyHead := by
  rw [copyHead]
  cases hhead : db.head with
  | none => rfl
  | some head =>
      rw [Option.bind_some, worker_headBytes,
        copy_headFrom_headBytes (framed_of_fits (h.fits head hhead).1)]
      rfl

-- One call gives the same answer in both caches and leaves them the same.
theorem step_agrees (hstores : Stores pageSize disk volume) (hmirrors : Mirrors pageSize disk db)
    {op : CacheOp} (hfair : op.Fair pageSize db) :
    (op.onFile volume).1 = .ok (op.onCopy db).1 ∧
      ∃ next, Stores pageSize next (op.onFile volume).2 ∧ Mirrors pageSize next (op.onCopy db).2 := by
  cases op with
  | Head =>
      obtain ⟨hok, hafter⟩ := stores_head hstores
      rw [onFile, Prog.bind_ok _ (Prod.ext hok rfl), hmirrors.head, onCopy, copyHead_answered hmirrors]
      exact ⟨rfl, disk, hafter, hmirrors⟩
  | Read first count =>
      obtain ⟨hfirst, hcount⟩ := hfair
      have hsmall : count < 2 ^ 53 := by
        have hmost : blocksPerRead pageSize ≤ MAX_READ_BYTES :=
          max_le (Nat.div_le_self _ _) (by decide)
        have : MAX_READ_BYTES < 2 ^ 53 := by decide
        omega
      obtain ⟨hok, hafter⟩ := stores_read hstores (show first + count < 2 ^ 64 by omega)
      rw [onFile, Prog.bind_ok _ (Prod.ext hok rfl), hmirrors.read hcount, onCopy, toNumber_of_lt hfirst,
        toNumber_of_lt hsmall]
      exact ⟨rfl, disk, hafter, hmirrors⟩
  | Change op =>
      cases op with
      | Write head blocks =>
          obtain ⟨hvalid, hexchanged⟩ := hfair
          obtain ⟨hok, hafter⟩ := change_answer hstores hvalid rfl
          rw [onCopy, headFrom_exchanged hvalid.1 hexchanged]
          exact ⟨hok, _, hafter, hmirrors.write hvalid⟩
      | Forget head blocks =>
          obtain ⟨hvalid, hexchanged, hpresent⟩ := hfair
          have hheader : ¬disk.header.isNone = true := by
            rw [hmirrors.header]
            cases hhead : db.head with
            | none => rw [hhead] at hpresent; cases hpresent
            | some head => simp
          obtain ⟨hok, hafter⟩ := change_answer hstores hvalid (if_neg hheader)
          rw [onCopy, headFrom_exchanged hvalid.1 hexchanged]
          refine ⟨hok, _, hafter, ?_⟩
          rw [StoreOp.onDisk, if_neg hheader]
          exact hmirrors.forget hvalid
      | Clear =>
          have hvalid : StoreOp.Clear.Valid pageSize := trivial
          obtain ⟨hok, hafter⟩ := change_answer hstores hvalid rfl
          exact ⟨hok, _, hafter, mirrors_empty pageSize⟩

theorem answers_agree {ops : List CacheOp} (hstores : Stores pageSize disk volume)
    (hmirrors : Mirrors pageSize disk db) (hfair : AllFair pageSize db ops) :
    fileAnswers ops volume = (copyAnswers ops db).map .ok := by
  induction ops generalizing disk volume db with
  | nil => rfl
  | cons op rest ih =>
      obtain ⟨hanswer, next, hnext, hmirrored⟩ := step_agrees hstores hmirrors hfair.1
      rw [fileAnswers, copyAnswers, List.map_cons]
      exact congrArg₂ _ hanswer (ih hnext hmirrored hfair.2)

-- The file and IndexedDB cannot be told apart.
theorem caches_are_interchangeable {ops : List CacheOp} (hfair : AllFair pageSize .empty ops) :
    fileAnswers ops (reopen .empty) = (copyAnswers ops .empty).map .ok :=
  answers_agree (stores_reopen pageSize) (mirrors_empty pageSize) hfair

-- The copy shrinks, and the blocks that were cut off do not come back when it grows again.
theorem caches_are_interchangeable_grown :
    let ops : List CacheOp := [.Change (.Write (sampleHead 9 1) [(0, [1, 1]), (8, [8, 8])]),
      .Change (.Forget (sampleHead 1 2) []), .Head,
      .Change (.Write (sampleHead 10 3) [(1, [2, 2]), (12, [7, 7]), (1, [3, 3])]), .Read 0 10, .Read 8 1]
    fileAnswers ops (reopen .empty) = [.ok .Done, .ok .Done, .ok (.Head (some (sampleHead 1 2))),
      .ok .Done, .ok (.Blocks [[1, 1], [3, 3]]), .ok (.Blocks [])] := by
  intro ops
  have hfair : AllFair 2 .empty ops := by decide +kernel
  rw [caches_are_interchangeable hfair]
  decide +kernel

theorem fileAnswers_untrusted {head : RemoteVfs.Head} (hnamed : head.Named)
    (h : head.pageSize = 0 ∨ MAX_PAGE_SIZE < head.pageSize ∨ MAX_PAGE_COUNT < head.pageCount)
    (hsize : head.pageSize < 2 ^ 32) (hcount : head.pageCount < 2 ^ 64) :
    fileAnswers [.Change (.Write head []), .Head] (reopen .empty) = [.ok .Done, .ok (.Head none)] := by
  have hat : At calm .empty [] (reopen .empty) := ⟨rfl, rfl, rfl⟩
  have hspec := Halts.mono (write_spec head []) (fun _ h => h.2.elim not_faulty_calm
    fun hunnamed => hunnamed hnamed) (fun _ _ h => h) _ hat
  obtain ⟨_, hwrite, hwritten, -⟩ := ok_of_halts hspec
  obtain ⟨value, hhead, -, rfl⟩ := ok_of_calm
    (head_spec (fun hfaulty _ _ => not_faulty_calm hfaulty) _ hwritten)
  have hlost : headerOf (written .empty head []) = none := by
    rw [written, finished, headerOf_put_layout _ hnamed, decode_untrusted h hsize hcount]
  have hnone : (diskOf (applied (written .empty head []) [])).head = none := by
    simp only [Disk.head, diskOf, applied, List.foldl_nil, hlost, Option.map_none]
  rw [hnone] at hhead
  have hfirst : (Change (.Write head [])).onFile (reopen .empty) =
      (.ok .Done, (write head [] (reopen .empty)).2) := Prog.bind_ok _ (Prod.ext hwrite rfl)
  have hsecond : Head.onFile (write head [] (reopen .empty)).2 =
      (.ok (.Head none), (FileStore.head (write head [] (reopen .empty)).2).2) :=
    Prog.bind_ok _ (Prod.ext hhead rfl)
  simp only [fileAnswers, hfirst, hsecond]

theorem fileAnswers_fits {head : RemoteVfs.Head} (h : head.Fits) :
    fileAnswers [.Change (.Write head []), .Head] (reopen .empty) =
      [.ok .Done, .ok (.Head (some head))] := by
  have hvalid : (StoreOp.Write head []).Valid head.pageSize := ⟨h, rfl, nofun⟩
  obtain ⟨hdone, hstores⟩ := change_answer (stores_reopen head.pageSize) hvalid rfl
  have hhead : (Head.onFile ((Change (.Write head [])).onFile (reopen .empty)).2).1 =
      .ok (.Head (some head)) := by
    rw [onFile, Prog.bind_ok _ (Prod.ext (stores_head hstores).1 rfl)]
    rfl
  simp only [fileAnswers, hdone, hhead]

-- A file does not give a head back whose page size or page count a database cannot have, and the
-- worker takes the byte order mark off a name.
theorem caches_differ :
    let answers := fun head : RemoteVfs.Head =>
      (fileAnswers [.Change (.Write head []), .Head] (reopen .empty),
        copyAnswers [.Change (.Write head []), .Head] .empty)
    let large := sampleHead (MAX_PAGE_COUNT + 1) 1
    let empty : RemoteVfs.Head := { large with pageSize := 0, pageCount := 1 }
    let wide : RemoteVfs.Head := { large with pageSize := MAX_PAGE_SIZE + 1, pageCount := 1 }
    let marked : RemoteVfs.Head := { sampleHead 1 1 with dbId := "\ufeffdb" }
    (∀ head ∈ [large, empty, wide],
      answers head = ([.ok .Done, .ok (.Head none)], [.Done, .Head (some head)])) ∧
    answers marked = ([.ok .Done, .ok (.Head (some marked))], [.Done, .Head (some (sampleHead 1 1))]) := by
  intro answers large empty wide marked
  constructor
  · intro head hhead
    have hfields : head.Named ∧
        (head.pageSize = 0 ∨ MAX_PAGE_SIZE < head.pageSize ∨ MAX_PAGE_COUNT < head.pageCount) ∧
        head.pageSize < 2 ^ 32 ∧ head.pageCount < 2 ^ 64 ∧
        copyAnswers [.Change (.Write head []), .Head] .empty = [.Done, .Head (some head)] := by
      revert head
      decide +kernel
    obtain ⟨hnamed, huntrusted, hsize, hcount, hcopy⟩ := hfields
    exact Prod.ext (fileAnswers_untrusted hnamed huntrusted hsize hcount) hcopy
  · have hfits : marked.Fits := by decide +kernel
    exact Prod.ext (fileAnswers_fits hfits) (by decide +kernel)

end CacheOp

end RemoteVfs
