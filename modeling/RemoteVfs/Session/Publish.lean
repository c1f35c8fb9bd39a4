import RemoteVfs.Session.Snapshot

namespace RemoteVfs

open Base Base.Prog Link Pages

namespace Pages

variable {stored stored' : Nat → Bytes} {pages : Pages}

-- Pages that were preloaded without a memory limit read a block that is not in memory as
-- zeros, so it has to be blank on the server as well.
def Backed (stored : Nat → Bytes) (pages : Pages) : Prop :=
  pages.whole = true → ∀ i < pages.pageCount, pages.block i = none → stored i = zeros pages.pageSize

theorem content_of_clean (hs : Sound stored pages) (hbacked : pages.Backed stored) {i : Nat}
    (hi : i < pages.pageCount) (hd : i ∉ pages.dirty) : pages.content stored i = stored i := by
  unfold content
  cases hb : pages.block i with
  | some data => exact hs.clean i data hd hb
  | none =>
      simp only [Option.getD_none, fallback]
      split_ifs with hw
      · exact (hbacked hw i hi hb).symm
      · rfl

theorem content_of_published (hs : Sound stored pages) (hbacked : pages.Backed stored)
    (hp : Published stored pages stored') {i : Nat} (hi : i < pages.pageCount) :
    pages.content stored i = stored' i := by
  rw [hp i, if_pos hi]
  split_ifs with hd
  · obtain ⟨data, hdata⟩ := Option.ne_none_iff_exists'.mp (hs.dirtyHeld i hd)
    rw [content, hdata]
    rfl
  · exact content_of_clean hs hbacked hi hd

end Pages

namespace Session

open Database

-- The client shows the file that the server has at the client's version.
structure ShowsImage (db : Database Net) : Prop where
  pageSize : db.image.pageSize = db.pages.pageSize
  pageCount : db.image.pageCount = db.pages.pageCount
  file : db.pages.file db.image.block = db.image.file

variable (setup : Net.Setup) {db after : Database Net}

-- A commit with nothing to send finds the file as the server has it.
theorem showsImage_of_clean (hmirrors : Mirrors db.image db.pages) (hlive : Live db)
    (hbacked : db.pages.Backed db.image.block) (hclean : db.pages.isClean = true) : ShowsImage db := by
  simp only [isClean, Bool.and_eq_true, List.isEmpty_iff, Bool.not_eq_true'] at hclean
  have hs := hmirrors.sound
  have hsize := pageSize_image hlive hs
  have hcount := hmirrors.count hclean.2
  have hdirty : ∀ i, i ∉ db.pages.dirty := by
    intro i hi
    rw [← SortedSet.mem_elems, hclean.1] at hi
    cases hi
  refine ⟨hsize, hcount.symm, ?_⟩
  unfold Pages.file Image.file
  rw [hsize, ← hcount]
  exact FlatFile.ofBlocks_congr hs.pos fun i hi => content_of_clean hs hbacked hi (hdirty i)

theorem showsImage_of_acknowledged {k : Nat} {mid : Database Net}
    (hack : Acknowledged setup db k mid after) (hlive : Live db) (hcopy : db.remote.copy = .None)
    (hs : Sound db.image.block db.pages) (hbacked : db.pages.Backed db.image.block) :
    ShowsImage after ∧ after.pages.blocksPerFetch = db.pages.blocksPerFetch := by
  obtain ⟨-, hsize, hcount, hpublished, hreloads⟩ := hack.none setup hlive hcopy hs
  refine ⟨?_, hreloads.perFetch⟩
  refine ⟨hsize.trans hreloads.pageSize.symm, hcount.trans hreloads.pageCount.symm, ?_⟩
  rw [file_reloads (hs.publish hpublished) hreloads]
  unfold Pages.file Image.file
  rw [hsize, hcount]
  refine FlatFile.ofBlocks_congr hs.pos fun i hi => ?_
  rw [content_publish hs hpublished hi]
  exact content_of_published hs hbacked hpublished hi

-- What the client reads after a commit is the file that the server has at that version.
theorem commit_publishes_file {options : OpenOptions} (hlocal : options.hasLocal = false)
    (h : Reached setup (Opened setup options) anyOp db) {timeout : Nat}
    (hcommit : Database.commit (Net.env setup) timeout db = (.ok (), after))
    (hbacked : db.pages.Backed db.image.block) (hfetches : Fetches db.pages.blocksPerFetch) :
    after.pages.pageCount = after.image.pageCount ∧ after.pages.pageSize = after.image.pageSize ∧
      ∀ offset length value later,
        Database.read (Net.env setup) offset length after = (.ok value, later) →
          value = after.image.file.read offset length := by
  have hlive := h.live setup
  have hsnapshot := h.snapshot setup hlocal
  have hreached : Reached setup (Opened setup options) anyOp after := by
    have hstep := h.Step (.Commit timeout) trivial
    simp only [Op.run, hcommit] at hstep
    exact hstep
  have hafter : ShowsImage after ∧ after.pages.blocksPerFetch = db.pages.blocksPerFetch := by
    obtain ⟨hbroken, hclean, rfl⟩ | ⟨k, mid, hack⟩ :=
      commit_acknowledged setup hlive.ready timeout hcommit
    · exact ⟨showsImage_of_clean (hsnapshot.mirrors hbroken) hlive hbacked hclean, rfl⟩
    · exact showsImage_of_acknowledged setup hack hlive hsnapshot.copy
        (hsnapshot.mirrors hack.unbroken).sound hbacked
  obtain ⟨hshows, hperFetch⟩ := hafter
  refine ⟨hshows.pageCount.symm, hshows.pageSize.symm, fun offset length value later hread => ?_⟩
  rw [← hshows.file]
  exact read_ok setup (hreached.live setup) (hreached.snapshot setup hlocal) (hperFetch ▸ hfetches) hread

theorem commit_publishes_file_one_byte :
    ∃ db after value later, sample calm sampleOptions [.Write 0 [1]] = some db ∧
      Database.commit (Net.env sampleSetup) 0 db = (.ok (), after) ∧
      Database.read (Net.env sampleSetup) 0 2 after = (.ok value, later) ∧
      value = ([1, 0], true) ∧ value = after.image.file.read 0 2 := by
  have hfacts : (sample calm sampleOptions [.Write 0 [1]]).any (fun db =>
      decide ((Database.commit (Net.env sampleSetup) 0 db).1 = .ok () ∧ db.pages.pageCount = 1 ∧
        db.pages.block 0 ≠ none ∧ Fetches db.pages.blocksPerFetch ∧ (Database.read (Net.env sampleSetup) 0 2
          (Database.commit (Net.env sampleSetup) 0 db).2).1 = .ok ([1, 0], true))) = true := by
    decide +kernel
  obtain ⟨db, hdb, hfacts⟩ := (Option.any_eq_true _ _).mp hfacts
  rw [decide_eq_true_eq] at hfacts
  obtain ⟨hok, hcount, hheld, hfetches, hread⟩ := hfacts
  have hbacked : db.pages.Backed db.image.block := by
    intro _ i hi hb
    obtain rfl : i = 0 := by omega
    exact absurd hb hheld
  have hreached : Reached sampleSetup (Opened sampleSetup sampleOptions) anyOp db :=
    sample_reached calm_fresh (fun _ _ _ => trivial) hdb
  obtain ⟨-, -, hreads⟩ := commit_publishes_file sampleSetup rfl hreached
    (Prod.ext hok rfl : Database.commit (Net.env sampleSetup) 0 db = (.ok (), _)) hbacked hfetches
  exact ⟨db, _, _, _, hdb, Prod.ext hok rfl, Prod.ext hread rfl, rfl, hreads 0 2 _ _ (Prod.ext hread rfl)⟩

-- A block that is cut off and exposed again in one transaction reads as zeros, and the
-- server keeps its content.
theorem regrown_block_stays_on_server :
    ∃ db after later, Reached sampleSetup (Opened sampleSetup sampleOptions) anyOp db ∧
      Database.commit (Net.env sampleSetup) 0 db = (.ok (), after) ∧
      Database.read (Net.env sampleSetup) 512 1 after = (.ok ([0], true), later) ∧
      after.image.file.read 512 1 = ([7], true) := by
  have hfacts : (sample calm sampleOptions
      [.Write 512 [7], .Commit 0, .Truncate 512, .Truncate 1024]).any (fun db =>
      let after := Database.commit (Net.env sampleSetup) 0 db
      decide (after.1 = .ok () ∧ (Database.read (Net.env sampleSetup) 512 1 after.2).1 = .ok ([0], true) ∧
        after.2.image.file.read 512 1 = ([7], true))) = true := by decide +kernel
  obtain ⟨db, hdb, hfacts⟩ := (Option.any_eq_true _ _).mp hfacts
  rw [decide_eq_true_eq] at hfacts
  obtain ⟨hok, hread, hfile⟩ := hfacts
  exact ⟨db, _, _, sample_reached calm_fresh (fun _ _ _ => trivial) hdb,
    Prod.ext hok rfl, Prod.ext hread rfl, hfile⟩

end Session

end RemoteVfs
