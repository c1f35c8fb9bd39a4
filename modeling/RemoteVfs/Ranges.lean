import RemoteVfs.Client.Frames
import RemoteVfs.Local.Calls
import Mathlib.Data.List.Induction

namespace RemoteVfs

open Base Base.Prog

-- The part of a run below the page count.
def clipped (pageCount : Nat) (run : Nat × Nat) : Option (Nat × Nat) :=
  let count := min run.2 (pageCount - run.1)
  if 0 < count then some (run.1, count) else none

-- The ranges that `catch_copy_up` asks for.
def catchUpRanges (pageCount : Nat) (blocks : List Nat) : List (Nat × Nat) :=
  (runs blocks).filterMap (clipped pageCount)

namespace Ranges

open Client (indexesOf length_indexesOf)

-- The ranges are not empty, and between two of them there is a gap.
structure Apart (ranges : List (Nat × Nat)) : Prop where
  nonempty : ∀ range ∈ ranges, 0 < range.2
  gaps : ranges.Pairwise fun a b => a.1 + a.2 < b.1

-- One round of the loop in `runs`.
def grouped (runs : List (Nat × Nat)) (index : Nat) : List (Nat × Nat) :=
  match runs.getLast? with
  | some (first, count) =>
    if first + count = index then runs.dropLast ++ [(first, count + 1)] else runs ++ [(index, 1)]
  | none => [(index, 1)]

theorem runs_concat (blocks : List Nat) (index : Nat) :
    runs (blocks ++ [index]) = grouped (runs blocks) index := by
  rw [runs, List.foldl_append]
  rfl

theorem indexesOf_concat (ranges : List (Nat × Nat)) (range : Nat × Nat) :
    indexesOf (ranges ++ [range]) = indexesOf ranges ++ List.range' range.1 range.2 := by
  simp [indexesOf]

theorem apart_concat {ranges : List (Nat × Nat)} {range : Nat × Nat} :
    Apart (ranges ++ [range]) ↔
      Apart ranges ∧ 0 < range.2 ∧ ∀ before ∈ ranges, before.1 + before.2 < range.1 := by
  constructor
  · intro h
    obtain ⟨hgaps, -, hlast⟩ := List.pairwise_append.mp h.gaps
    refine ⟨⟨fun before hbefore => h.nonempty before (List.mem_append_left _ hbefore), hgaps⟩, ?_, ?_⟩
    · exact h.nonempty range (by simp)
    · exact fun before hbefore => hlast before hbefore range (by simp)
  · rintro ⟨hapart, hpos, hlast⟩
    refine ⟨fun before hbefore => ?_, List.pairwise_append.mpr ⟨hapart.gaps, by simp, ?_⟩⟩
    · rcases List.mem_append.mp hbefore with hbefore | hbefore
      · exact hapart.nonempty before hbefore
      · rw [List.mem_singleton.mp hbefore]
        exact hpos
    · intro before hbefore after hafter
      rw [List.mem_singleton.mp hafter]
      exact hlast before hbefore

-- The last index of a range.
theorem last_mem {ranges : List (Nat × Nat)} (h : Apart ranges) {range : Nat × Nat} (hrange : range ∈ ranges) :
    range.1 + range.2 - 1 ∈ indexesOf ranges := by
  have hpos := h.nonempty range hrange
  refine List.mem_flatMap.mpr ⟨range, hrange, List.mem_range'_1.mpr ?_⟩
  omega

-- A later index extends the last run or starts a new one behind a gap.
theorem grouped_apart {ranges : List (Nat × Nat)} (h : Apart ranges) {index : Nat}
    (hlater : ∀ i ∈ indexesOf ranges, i < index) :
    Apart (grouped ranges index) ∧ indexesOf (grouped ranges index) = indexesOf ranges ++ [index] := by
  induction ranges using List.reverseRecOn with
  | nil => exact ⟨⟨by simp [grouped], by simp [grouped]⟩, rfl⟩
  | append_singleton before last _ =>
      obtain ⟨first, count⟩ := last
      have hlast := hlater _ (last_mem h (by simp : (first, count) ∈ before ++ [(first, count)]))
      obtain ⟨hbefore, hpos, hgap⟩ := apart_concat.mp h
      dsimp only at hlast hpos hgap
      rw [grouped, List.getLast?_concat]
      dsimp only
      by_cases hnext : first + count = index
      · rw [if_pos hnext, List.dropLast_concat, indexesOf_concat, indexesOf_concat, List.append_assoc,
          List.range'_concat, ← hnext]
        refine ⟨apart_concat.mpr ⟨hbefore, by omega, hgap⟩, ?_⟩
        simp
      · rw [if_neg hnext, indexesOf_concat]
        refine ⟨apart_concat.mpr ⟨h, by omega, fun range hrange => ?_⟩, rfl⟩
        have hend := hlater _ (last_mem h hrange)
        rcases List.mem_append.mp hrange with hrange | hrange
        · have := hgap range hrange
          dsimp only
          omega
        · rw [List.mem_singleton.mp hrange]
          dsimp only
          omega

theorem runs_apart {blocks : List Nat} (h : blocks.Pairwise (· < ·)) :
    Apart (runs blocks) ∧ indexesOf (runs blocks) = blocks := by
  induction blocks using List.reverseRecOn with
  | nil => exact ⟨⟨by simp [runs], by simp [runs]⟩, rfl⟩
  | append_singleton before index ih =>
      obtain ⟨hbefore, -, hlater⟩ := List.pairwise_append.mp h
      obtain ⟨hapart, hindexes⟩ := ih hbefore
      rw [runs_concat]
      have hbelow : ∀ i ∈ indexesOf (runs before), i < index := by
        intro i hi
        rw [hindexes] at hi
        exact hlater i hi index (by simp)
      obtain ⟨hgrouped, hall⟩ := grouped_apart hapart hbelow
      exact ⟨hgrouped, by rw [hall, hindexes]⟩

-- What is left of one run.
theorem range'_clipped (pageCount first count : Nat) :
    List.range' first (min count (pageCount - first)) =
      (List.range' first count).filter (· < pageCount) := by
  induction count generalizing first with
  | zero => simp
  | succ count ih =>
      rw [List.range'_succ, List.filter_cons]
      by_cases hfirst : first < pageCount
      · rw [if_pos (by simpa using hfirst), ← ih (first + 1),
          show min (count + 1) (pageCount - first) = min count (pageCount - (first + 1)) + 1 by omega,
          List.range'_succ]
      · rw [if_neg (by simpa using hfirst), ← ih (first + 1),
          show min (count + 1) (pageCount - first) = 0 by omega,
          show min count (pageCount - (first + 1)) = 0 by omega]
        rfl

theorem clipped_eq_some {pageCount : Nat} {run range : Nat × Nat} (h : clipped pageCount run = some range) :
    range.1 = run.1 ∧ range.2 = min run.2 (pageCount - run.1) ∧ 0 < range.2 := by
  unfold clipped at h
  dsimp only at h
  split_ifs at h with hpos
  obtain rfl := Option.some.inj h
  exact ⟨rfl, rfl, hpos⟩

theorem clipped_apart {ranges : List (Nat × Nat)} (h : Apart ranges) (pageCount : Nat) :
    Apart (ranges.filterMap (clipped pageCount)) where
  nonempty range hrange := by
    obtain ⟨run, -, hrun⟩ := List.mem_filterMap.mp hrange
    exact (clipped_eq_some hrun).2.2
  gaps := by
    refine List.Pairwise.filterMap (clipped pageCount) (fun a b hab a' ha b' hb => ?_) h.gaps
    obtain ⟨hafirst, hacount, -⟩ := clipped_eq_some ha
    obtain ⟨hbfirst, -, -⟩ := clipped_eq_some hb
    omega

theorem clipped_below {ranges : List (Nat × Nat)} {pageCount : Nat} :
    ∀ range ∈ ranges.filterMap (clipped pageCount), range.1 + range.2 ≤ pageCount := by
  intro range hrange
  obtain ⟨run, -, hrun⟩ := List.mem_filterMap.mp hrange
  obtain ⟨hfirst, hcount, hpos⟩ := clipped_eq_some hrun
  omega

theorem indexesOf_clipped (pageCount : Nat) (ranges : List (Nat × Nat)) :
    indexesOf (ranges.filterMap (clipped pageCount)) = (indexesOf ranges).filter (· < pageCount) := by
  induction ranges with
  | nil => rfl
  | cons run rest ih =>
      have hrun := range'_clipped pageCount run.1 run.2
      have hrest : indexesOf (run :: rest) = List.range' run.1 run.2 ++ indexesOf rest := by simp [indexesOf]
      rw [hrest, List.filter_append, ← ih, ← hrun, List.filterMap_cons]
      unfold clipped
      dsimp only
      by_cases hpos : 0 < min run.2 (pageCount - run.1)
      · rw [if_pos hpos]
        simp [indexesOf]
      · rw [if_neg hpos, show min run.2 (pageCount - run.1) = 0 by omega]
        rfl

section Fetched

variable {ω : Type} (E : Env ω)

def fetched (db : Database ω) : Nat := db.stats.fetchedBlocks

open Database Remote

theorem onLink_fetched {ε α : Type} (body : Prog (Link ω) ε α) :
    Moves (Same fetched) (onLink body) := fun _ => rfl

-- Writing the copy counts no fetch.
theorem writeCopy_fetched {ε : Type} (indexes : List Nat) :
    Moves (Same fetched) (writeCopy E indexes : Prog (Database ω) ε Unit) := by
  refine Moves.bind (Moves.gets _) fun db => Moves.ite (Moves.pure _) (Moves.ite ?_ ?_)
  · refine Moves.bind (Moves.bind (Moves.gets _) fun db => ?_) ?_
    · cases db.remote.copy with
      | Ready => exact Moves.bind (fun _ => rfl) fun _ => Moves.pure _
      | None => exact Moves.pure _
      | Writing writer => exact Moves.pure _
    · rintro (_ | writer)
      · exact Moves.pure _
      · refine Moves.bind (fun _ => rfl) fun progress => Moves.bind (fun _ => rfl) fun writer => ?_
        refine Moves.bind (fun _ => rfl) fun _ => ?_
        cases writer.write _ _ with
        | some writer => exact Moves.bind (fun _ => rfl) fun _ _ => rfl
        | none => exact fun _ => rfl
  · refine Moves.bind (Moves.gets _) fun db => ?_
    cases db.remote.copy with
    | Ready =>
        refine Moves.bind (Moves.attempt fun _ => rfl) ?_
        rintro (_ | _)
        · exact Moves.bind (fun _ => rfl) fun _ _ => rfl
        · exact fun _ => rfl
    | None => exact Moves.pure _
    | Writing writer => exact Moves.pure _

-- A catch-up of a preloaded database fetches the blocks of its ranges, if there are any.
theorem catchCopyUp_fetched {behind : Head} {db : Database ω} {changes : Pb.Changes} {link : Link ω}
    (hchanges : Client.changes E db.remote.dbId behind.version db.source.link = (.ok changes, link))
    (hpreload : db.pages.onDemand = false)
    (hfits : ((catchUpRanges db.pages.pageCount changes.blocks).map Prod.snd).sum < 2 ^ 64) :
    Triple (fun s => s = db) (catchCopyUp E behind) (Ends (fun _ => True) fun caught s => caught = true →
      fetched s = fetched db + ((catchUpRanges db.pages.pageCount changes.blocks).map Prod.snd).sum) := by
  have honLink : onLink (Client.changes E db.remote.dbId behind.version) db =
      (.ok changes, { db with source := { db.source with link := link } }) := by
    unfold onLink Prog.zoom
    rw [hchanges]
  have hsame : ∀ {n : Nat} {ε α : Type} {body : Prog (Database ω) ε α}, Moves (Same fetched) body →
      Triple (fun s => fetched s = n) body (Ends (fun _ => True) fun _ s => fetched s = n) := by
    intro n ε α body hbody s hs
    refine ⟨trivial, ?_⟩
    have hafter := (hbody s).trans hs
    generalize body s = run at hafter ⊢
    rcases run with ⟨_ | _ | _, after⟩
    · exact hafter
    · trivial
    · trivial
  intro s hs
  unfold catchCopyUp
  rw [hs, get_bind, bind_ok _ honLink]
  dsimp only
  generalize hranges : ((runs changes.blocks).filterMap fun range =>
    if 0 < min range.2 (db.pages.pageCount - range.1) then
      some (range.1, min range.2 (db.pages.pageCount - range.1)) else none) = ranges
  change catchUpRanges db.pages.pageCount changes.blocks = ranges at hranges
  rw [hranges] at hfits ⊢
  split
  · exact ⟨trivial, fun h => by cases h⟩
  split
  · exact ⟨trivial, fun h => by cases h⟩
  refine Ends.bind (hsame (n := fetched db) (Moves.attempt (onLink_fetched _))) ?_ _ rfl
  rintro (_ | _)
  · exact fun s hs => ⟨trivial, fun h => by cases h⟩
  rintro s ⟨-, hs⟩
  dsimp only
  unfold Database.count
  rw [modify_bind]
  split
  · have hfetch : ∀ dbId version size, Triple (fun s => fetched s = fetched db)
        (onLink (Client.fetchRanges E dbId version ranges size))
        (Ends (fun _ => True) fun blocks s =>
          fetched s = fetched db ∧ blocks.length = (ranges.map Prod.snd).sum) := by
      intro dbId version size s hs
      have hlength := (Client.fetchRanges_sized (E := E) dbId version ranges size s.source.link trivial).2
      unfold onLink Prog.zoom
      generalize Client.fetchRanges E dbId version ranges size s.source.link = run at hlength ⊢
      rcases run with ⟨_ | _ | _, after⟩
      · exact ⟨trivial, hs, hlength.1.trans (Nat.mod_eq_of_lt hfits)⟩
      · exact ⟨trivial, trivial⟩
      · exact ⟨trivial, trivial⟩
    refine Ends.bind (hsame (n := fetched db) (onLink_fetched _)) (fun started => ?_) _ hs
    refine Ends.bind ((hfetch _ _ _).mono (fun _ h => h.2) fun _ _ h => h) fun blocks => ?_
    rintro s ⟨-, hs, hlength⟩
    refine Ends.bind (hsame (n := fetched db) (onLink_fetched _)) (fun ended => ?_) s hs
    rintro s ⟨-, hs⟩
    rw [modify_bind, modify_bind]
    refine Ends.bind (hsame (writeCopy_fetched E _)) (fun _ => ?_) _ rfl
    rintro s ⟨-, hafter⟩
    refine ⟨trivial, fun _ => hafter.trans ?_⟩
    rw [← hlength, ← hs]
    rfl
  · rename_i hnone
    have hempty : ranges = [] := by simpa [hpreload] using hnone
    rw [hempty]
    exact ⟨trivial, fun _ => hs⟩

end Fetched

-- As many different numbers as there are below a bound.
theorem length_le_of_sorted {blocks : List Nat} (hsorted : blocks.Pairwise (· < ·)) {bound : Nat}
    (hbound : ∀ index ∈ blocks, index < bound) : blocks.length ≤ bound := by
  have hsubset : blocks ⊆ List.range bound := fun index hindex => List.mem_range.mpr (hbound index hindex)
  have hnodup : blocks.Nodup := hsorted.imp fun h => ne_of_lt h
  have hle := (List.subperm_of_subset hnodup hsubset).length_le
  rwa [List.length_range] at hle

-- No sum in the grouping overflows. The ranges have gaps between them, lie below the page count and
-- list the changed blocks that still exist, and a catch-up fetches as many blocks.
theorem catch_up_ranges_are_exact (blocks : List Nat) (hsorted : blocks.Pairwise (· < ·))
    (hbound : ∀ index ∈ blocks, index < 2 ^ 63) (pageCount : Nat) :
    (∀ run ∈ runs blocks, run.1 + run.2 ≤ 2 ^ 63) ∧
    Apart (catchUpRanges pageCount blocks) ∧
    (∀ range ∈ catchUpRanges pageCount blocks, range.1 + range.2 ≤ pageCount) ∧
    indexesOf (catchUpRanges pageCount blocks) = blocks.filter (· < pageCount) ∧
    ((catchUpRanges pageCount blocks).map Prod.snd).sum = (blocks.filter (· < pageCount)).length ∧
    ∀ (ω : Type) (E : Env ω) (behind : Head) (db after : Database ω) (changes : Pb.Changes)
      (link : Link ω),
      Client.changes E db.remote.dbId behind.version db.source.link = (.ok changes, link) →
      changes.blocks = blocks → db.pages.pageCount = pageCount → db.pages.onDemand = false →
      Remote.catchCopyUp E behind db = (.ok true, after) →
      after.stats.fetchedBlocks = db.stats.fetchedBlocks + (blocks.filter (· < pageCount)).length := by
  obtain ⟨hapart, hindexes⟩ := runs_apart hsorted
  have hlisted : indexesOf (catchUpRanges pageCount blocks) = blocks.filter (· < pageCount) := by
    rw [catchUpRanges, indexesOf_clipped, hindexes]
  have hsum : ((catchUpRanges pageCount blocks).map Prod.snd).sum =
      (blocks.filter (· < pageCount)).length := by
    rw [← length_indexesOf, hlisted]
  refine ⟨fun run hrun => ?_, clipped_apart hapart pageCount, clipped_below, hlisted, hsum, ?_⟩
  · have hlast := last_mem hapart hrun
    rw [hindexes] at hlast
    have hbelow := hbound _ hlast
    have hpos := hapart.nonempty run hrun
    omega
  · rintro ω E behind db after changes link hchanges rfl rfl hpreload hrun
    have hfew : (changes.blocks.filter (· < db.pages.pageCount)).length ≤ 2 ^ 63 :=
      (List.length_filter_le _ _).trans (length_le_of_sorted hsorted hbound)
    have hfits : ((catchUpRanges db.pages.pageCount changes.blocks).map Prod.snd).sum < 2 ^ 64 := by
      rw [hsum]
      exact hfew.trans_lt (by decide)
    have hfetched := (catchCopyUp_fetched E hchanges hpreload hfits db rfl).2
    rw [hrun] at hfetched
    rw [← hsum]
    exact hfetched rfl

-- A run that is cut off at the page count, and one behind it.
theorem catch_up_ranges_are_exact_cut :
    catchUpRanges 5 [1, 2, 4, 5, 7] = [(1, 2), (4, 1)] ∧
      indexesOf (catchUpRanges 5 [1, 2, 4, 5, 7]) = [1, 2, 4] :=
  ⟨by decide, (catch_up_ranges_are_exact [1, 2, 4, 5, 7] (by decide) (by decide) 5).2.2.2.1⟩

end Ranges

end RemoteVfs
