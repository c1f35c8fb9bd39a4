import RemoteVfs.Loads.Lasting
import RemoteVfs.Pages.Resident

namespace RemoteVfs

open Base Base.Prog Held Pages

variable {ω ε α : Type} {E : Env ω}

namespace Fetch

open Database Remote

theorem takeFromCopy_brings (first count : Nat) :
    Triple (fun _ => True) (takeFromCopy E first count : Prog (Database ω) ε Bool)
      (Ends (fun _ => True) fun taken db => taken = true → db.pages.block first ≠ none) := by
  refine Triple.get fun db => Triple.mono ?_ (fun _ _ => trivial) fun _ _ h => h
  refine Triple.ite (fun _ => Ends.pure fun _ _ => ⟨trivial, by simp⟩) fun _ => ?_
  refine Ends.bind (Ends.any _) fun _ => Triple.mono ?_ (fun _ _ => trivial) fun _ _ h => h
  refine Ends.bind (Ends.any _) fun result => Triple.mono ?_ (fun _ _ => trivial) fun _ _ h => h
  rcases result with reason | ⟨read, copy⟩
  · exact Ends.bind (Ends.any _) fun _ => Ends.pure fun _ _ => ⟨trivial, by simp⟩
  · refine Ends.bind (Ends.any _) fun _ => Triple.mono ?_ (fun _ _ => trivial) fun _ _ h => h
    refine Triple.ite (fun _ => ?_) fun hread => ?_
    · exact Ends.bind (Ends.any _) fun _ => Ends.pure fun _ _ => ⟨trivial, by simp⟩
    · intro db _
      refine ⟨trivial, fun _ => block_run (Nat.le_refl _) ?_⟩
      rw [Bool.or_eq_true, not_or, List.isEmpty_iff] at hread
      have := List.length_pos_of_ne_nil hread.1
      omega

theorem source_brings : Brings (source E) := by
  have hfill : ∀ first count, 0 < count → Triple (fun _ => True) (fill E first count)
      (Ends (fun _ => True) fun _ db => db.pages.block first ≠ none) := by
    intro first count hcount
    refine Triple.get fun db => Triple.mono ?_ (fun _ _ => trivial) fun _ _ h => h
    cases db.remote.broken with
    | some broken => exact Ends.fail fun _ _ => trivial
    | none =>
        refine Ends.bind (takeFromCopy_brings first count) fun taken => ?_
        refine Triple.ite (fun htaken => Ends.pure fun _ h => ⟨trivial, h.2 htaken⟩) fun _ => ?_
        refine Triple.mono ?_ (fun _ _ => trivial) fun _ _ h => h
        refine Ends.bind (Ends.any _) fun _ => Triple.mono ?_ (fun _ _ => trivial) fun _ _ h => h
        refine Ends.bind (Ends.handle (load_brings first count) fun err => ?_) fun _ => ?_
        · exact Triple.ite (fun _ => fun _ _ => ⟨trivial, trivial⟩) fun _ => fun _ _ => ⟨trivial, trivial⟩
        · rintro db ⟨-, hblock⟩
          have hpages := (writeCopy_around (ε := Broken) E (List.range' first count) db).pages
          generalize (writeCopy E (List.range' first count) : Prog (Database ω) Broken Unit) db = run
            at hpages ⊢
          rcases run with ⟨_ | _ | _, after⟩
          · refine ⟨trivial, ?_⟩
            change after.pages.block first ≠ none
            rw [hpages]
            exact hblock first (Nat.le_refl _) (by omega)
          · exact ⟨trivial, trivial⟩
          · exact ⟨trivial, trivial⟩
  intro db after first count hcount hrun
  have hafter := hfill first count hcount db trivial
  rw [show fill E first count db = (.ok (), after) from hrun] at hafter
  exact hafter.2

end Fetch

namespace Session

open Database

variable {i : Nat}

theorem source_resident :
    Pages.Admits (Carries fun h : Database ω => Resident i h.pages) (Fetch.source E) where
  drops _ _ _ hdrops h := h.drops hdrops
  fill db first count _ h := by
    obtain ⟨loaded, -, -, hpages⟩ := Fetch.fill_any (E := E) first count db
    change Resident i (Fetch.fill E first count db).2.pages
    rw [hpages]
    exact h.keepAll loaded

theorem commitDone_resident (parts time : Nat) (commitId : Bytes) (version : Nat) :
    Moves (Carries fun db : Database ω => Resident i db.pages) (commitDone E parts time commitId version) := by
  have haround : ∀ {ε : Type} {body : Prog (Database ω) ε Unit}, Moves Around body →
      Moves (Carries fun db : Database ω => Resident i db.pages) body :=
    fun h => h.mono fun _ after h hbefore => show Resident i after.pages from h.pages ▸ hbefore
  refine Moves.bind (Moves.gets _) fun db => Moves.bind (fun _ h => h) fun _ => ?_
  refine Moves.bind (fun _ h => h) fun _ => Moves.bind (Moves.gets _) fun db => ?_
  refine Moves.bind (Moves.modify fun _ h => h.committed) fun _ => ?_
  refine Moves.bind (haround (Remote.writeCopy_around E _)) fun _ => ?_
  exact Moves.bind (Moves.modify fun db h => h.drops (drops_makeRoom _ _ _)) fun _ => fun _ h => h

theorem commit_resident (timeout : Nat) :
    Moves (Carries fun db : Database ω => Resident i db.pages) (Database.commit E timeout) := by
  have hpages : ∀ {α : Type} {body : Prog (Database ω) Broken α}, Moves (Same Held.pages) body →
      Moves (Carries fun db : Database ω => Resident i db.pages) body :=
    fun h => h.mono fun _ after h hbefore => show Resident i after.pages from h ▸ hbefore
  have hbegin : Moves (Same Held.pages) (commitBegin E) := fun _ => rfl
  refine unlessBroken_moves (Moves.bind (Moves.gets _) fun db => Moves.ite (Moves.pure _) ?_)
  refine Moves.ite (hpages (breakWith_pages _)) ?_
  refine Moves.bind (hpages hbegin) fun begun => Moves.bind (hpages (onLink_pages _)) fun started => ?_
  refine Moves.bind (hpages (Moves.loop (commitRound_pages _ _ _) _ _)) fun version => ?_
  exact Moves.bind (hpages (onLink_pages _)) fun ended => commitDone_resident _ _ _ _

-- Where a database is left that loaded its blocks again. A run that hangs is left in its middle.
theorem reload_resident {db : Database ω} (h : Resident i db.pages) (opened : Pb.Opened)
    (hreturns : (reload E opened db).1 ≠ .hang)
    (hbelow : i < (reload E opened db).2.pages.pageCount) : Resident i (reload E opened db).2.pages := by
  have hpreloads : Remote.Preloads E fun pages =>
      pages.dirty = .empty ∧ pages.blocksPerFetch = db.pages.blocksPerFetch :=
    Remote.Preloads.of_keepAll fun pages loaded h =>
      ⟨(keepAll_same (a := pages) loaded).1.trans h.1, (shape_keepAll pages loaded).perFetch.trans h.2⟩
  have hfill := Remote.fill_preloads hpreloads (restarted opened db) ⟨rfl, rfl⟩
  have hcomplete := Remote.fill_complete (E := E) (restarted opened db) trivial
  unfold reload at hreturns hbelow ⊢
  rw [get_bind, modify_bind, bind_apply] at hreturns hbelow ⊢
  unfold Prog.handle at hreturns hbelow ⊢
  generalize Remote.fill E (restarted opened db) = run at hfill hcomplete hreturns hbelow ⊢
  rcases run with ⟨_ | reason | _, (after : Database ω)⟩
  · obtain ⟨pages, stats, ⟨hdirty, hperFetch⟩, hpages⟩ := hfill
    have hdrops : Drops pages after.pages := hpages ▸ drops_makeRoom pages 0 stats
    refine ⟨hbelow, fun hmem => ?_, fun hwhole => hcomplete.2 hwhole i hbelow, ?_⟩
    · change i ∈ after.pages.dirty at hmem
      rw [hdrops.dirty, hdirty] at hmem
      exact absurd hmem (SortedSet.notMem_empty i)
    · change Fetches after.pages.blocksPerFetch
      rw [hdrops.shape.perFetch, hperFetch]
      exact h.perFetch
  · exact h
  · exact absurd rfl hreturns

theorem heal_resident {db : Database ω} (h : Resident i db.pages) (hreturns : (heal E db).1 ≠ .hang)
    (hbelow : i < (heal E db).2.pages.pageCount) : Resident i (heal E db).2.pages := by
  have hresume : Moves (Same Held.pages) (Prog.handle (Remote.resume E) breakOn) :=
    Moves.handle Fetch.asks_pages.resume fun _ => breakWith_pages _
  have hpages := hresume db
  unfold heal at hreturns hbelow ⊢
  rw [bind_apply] at hreturns hbelow ⊢
  generalize Prog.handle (Remote.resume E) breakOn db = run at hpages hreturns hbelow ⊢
  have hmid : Resident i run.2.pages := by
    rw [show run.2.pages = db.pages from hpages]
    exact h
  rcases run with ⟨opened | reason | _, (mid : Database ω)⟩
  · dsimp only at hreturns hbelow hmid ⊢
    rw [get_bind] at hreturns hbelow ⊢
    by_cases hdiverged : (decide (opened.version ≠ mid.remote.version) && !wasApplied opened mid) = true
    · rw [if_pos hdiverged]
      exact hmid
    · rw [if_neg hdiverged] at hreturns hbelow ⊢
      rw [Database.count, modify_bind] at hreturns hbelow ⊢
      exact reload_resident (by exact hmid) opened hreturns hbelow
  · exact hmid
  · exact hmid

theorem Op.resident {db : Database ω} (h : Resident i db.pages) {op : Op} (hreturns : op.Returns E db)
    (hcut : ∀ size, op = .Truncate size → i < divCeil size db.pages.pageSize)
    (hbelow : i < (op.run E db).pages.pageCount) : Resident i (op.run E db).pages := by
  have hstays := (source_resident (E := E) (i := i)).stays
  cases op with
  | Read offset length => exact unlessBroken_moves (read_stays hstays offset length) db h
  | Write offset data =>
      refine unlessBroken_moves (write_stays hstays ?_ offset data) db h
      exact fun _ index within chunk h => h.put index within chunk
  | Truncate size =>
      simp only [Op.run, Database.truncate]
      unfold unlessBroken
      rw [get_bind]
      cases db.remote.broken with
      | some broken => exact h
      | none => exact h.truncate (hcut size rfl)
  | Commit timeout => exact commit_resident timeout db h
  | Heal =>
      simp only [Op.run, Op.Returns] at hreturns hbelow ⊢
      split_ifs at hbelow ⊢ with hunreachable
      · exact heal_resident h (hreturns hunreachable) hbelow
      · exact h
  | Label label => exact h

end Session

end RemoteVfs
