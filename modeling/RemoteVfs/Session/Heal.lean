import RemoteVfs.Session.Commit

namespace RemoteVfs.Database

open Base Base.Prog Link

theorem reasonOf_ne_diverged (err : ClientError) (reason : String) :
    reasonOf err ≠ .Diverged reason := by
  unfold reasonOf
  split_ifs
  · simp
  · simp
  · simp
  · cases err <;> simp

variable (setup : Net.Setup) {before : Database Net}

-- What one call of `heal` can do.
theorem heal_cases (hready : before.source.link.Ready NoCommit) :
    ((heal (Net.env setup) before).1 ≠ .ok () ∧
        (∀ reason, (heal (Net.env setup) before).1 ≠ .err (.Diverged reason)) ∧
        Marked before (heal (Net.env setup) before).1 (heal (Net.env setup) before).2 ∧
        Waits NoCommit Eq before (heal (Net.env setup) before).2) ∨
      ∃ opened mid, Waits NoCommit Eq before mid ∧
        Remote.Resumed before opened mid.source.link ∧
        ((opened.version ≠ before.remote.version ∧ before.wasApplied opened = false ∧
            (heal (Net.env setup) before).1 ≠ .ok () ∧
            Marked before (heal (Net.env setup) before).1 (heal (Net.env setup) before).2 ∧
            (heal (Net.env setup) before).2.source.link = mid.source.link ∧
            Waits NoCommit Eq before (heal (Net.env setup) before).2) ∨
          (opened.version = before.remote.version ∨ before.wasApplied opened = true) ∧
            mid.remote.broken = before.remote.broken ∧
            heal (Net.env setup) before = reload (Net.env setup) opened mid) := by
  have hstart : Waits NoCommit Eq before before := Waits.refl hready
  have hresume := Remote.resume_spec setup lasting_true before ⟨hstart, trivial⟩
  have hsame := Remote.resume_same (Net.env setup) before
  unfold heal
  rw [bind_apply]
  unfold Prog.handle
  generalize Remote.resume (Net.env setup) before = run at hresume hsame ⊢
  rcases run with ⟨opened | err | _, mid⟩
  · simp only [get_bind]
    have happlied : mid.wasApplied opened = before.wasApplied opened := by
      obtain ⟨login, broken, hremote⟩ := hresume.1.remote
      simp only [wasApplied, hremote]
    have hversion := hresume.1.version
    by_cases hdiverged : (decide (opened.version ≠ mid.remote.version) && !mid.wasApplied opened) = true
    · rw [if_pos hdiverged]
      rw [Bool.and_eq_true, decide_eq_true_eq, hversion, Bool.not_eq_true', happlied] at hdiverged
      exact Or.inr ⟨opened, mid, hresume.1, hresume.2.2, Or.inl ⟨hdiverged.1, hdiverged.2,
        by simp [breakWith], rfl, rfl, hresume.1.broken _⟩⟩
    · rw [if_neg hdiverged]
      rw [Bool.and_eq_true, decide_eq_true_eq, hversion, Bool.not_eq_true', happlied] at hdiverged
      refine Or.inr ⟨opened, mid.mapStats _, ⟨hresume.1.link, hresume.1.pages, hresume.1.remote⟩,
        hresume.2.2, Or.inr ⟨?_, hsame, rfl⟩⟩
      by_contra hnone
      rw [not_or, Bool.not_eq_true] at hnone
      exact hdiverged hnone
  · exact Or.inl ⟨by simp [breakOn, breakWith], by
      simpa [breakOn, breakWith] using reasonOf_ne_diverged err,
      rfl, hresume.1.broken _⟩
  · exact Or.inl ⟨by simp, by simp, hsame, hresume.1⟩

-- The end of `heal` after the blocks were loaded, or not.
def settled (pages : Pages) : Outcome ClientError Unit × Database Net → Outcome Broken Unit × Database Net
  | (.ok _, db) =>
    (.ok (), (db.mapRemote fun remote => { remote with broken := none }).mapStats
      fun stats => { stats with healed := stats.healed + 1 })
  | (.err err, db) =>
    (.err (reasonOf err), mapRemote (fun remote => { remote with broken := some (reasonOf err) })
      (Held.mapPages (fun _ => pages) db))
  | (.hang, db) => (.hang, db)

theorem reload_eq (opened : Pb.Opened) (db : Database Net) :
    reload (Net.env setup) opened db =
      settled db.pages (Remote.fill (Net.env setup) (restarted opened db)) := by
  rw [reload, get_bind, modify_bind, bind_apply]
  unfold Prog.handle
  generalize Remote.fill (Net.env setup) (restarted opened db) = run
  rcases run with ⟨_ | _ | _, _⟩ <;> rfl

end RemoteVfs.Database
