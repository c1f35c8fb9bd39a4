import RemoteVfs.Local.Calls

namespace RemoteVfs

open Base Base.Prog

-- A relation that an open database stays inside when it asks the server.
structure Database.Asks {ω : Type} (R : Database ω → Database ω → Prop) : Prop where
  link : ∀ {ε α : Type} (body : Prog (Link ω) ε α), Moves R (onLink body)
  count : ∀ {ε : Type} (change : Stats → Stats), (∀ stats, Stats.Grown stats (change stats)) →
    Moves R (count change : Prog (Database ω) ε Unit)
  login : ∀ {ε : Type}, Moves R (Prog.modify fun db => db.mapRemote fun remote =>
    { remote with login := db.client.logins } : Prog (Database ω) ε Unit)

namespace Database.Asks

open Remote

variable {ω ε α : Type} {E : Env ω} {R : Database ω → Database ω → Prop} [IsPreorder (Database ω) R]

theorem onCurrentConnection (h : Asks R) :
    Moves R (onCurrentConnection E : Prog (Database ω) ε Bool) := by
  refine Moves.bind (h.link _) fun _ => Moves.ite ?_ (Moves.pure _)
  exact Moves.bind (Moves.gets _) fun _ => Moves.pure _

theorem resume (h : Asks R) : Moves R (resume E) := by
  have hdown : Moves R (reconnectIfDown E) := by
    refine Moves.bind (h.link _) fun _ => Moves.ite (Moves.pure _) ?_
    exact Moves.bind (h.link _) fun _ => h.count _ fun stats => by simp [Stats.Grown, Stats.totals]
  refine Moves.bind hdown fun _ => Moves.bind (Moves.gets _) fun db => Moves.bind (h.link _) fun answer => ?_
  cases answer with
  | Opened opened =>
      dsimp only
      cases checked opened (some db.pages.pageSize) with
      | error err => exact Moves.fail _
      | ok value => exact Moves.bind h.login fun _ => Moves.pure _
  | _ => exact Moves.fail _

section Breaking

-- Its errors break the database.
variable (hbreak : ∀ {ε : Type} (broken : Broken), Moves R
  (Prog.modify (mapRemote fun remote => { remote with broken := some broken }) : Prog (Database ω) ε Unit))
include hbreak

theorem breakWith (broken : Broken) : Moves R (breakWith broken : Prog (Database ω) Broken α) :=
  Moves.bind (hbreak broken) fun _ => Moves.fail _

theorem diverged (opened : Pb.Opened) : Moves R (diverged opened : Prog (Database ω) Broken α) :=
  Moves.bind (Moves.gets _) fun _ => breakWith hbreak _

theorem resumeUntil (h : Asks R) (deadline : Nat) : Moves R (resumeUntil E deadline) := by
  refine Moves.loop (fun _ => Moves.bind (Moves.attempt h.resume) ?_) _ _
  rintro (err | opened)
  · refine Moves.ite (breakWith hbreak _) (Moves.ite (breakWith hbreak _) ?_)
    refine Moves.bind (h.link _) fun _ => Moves.ite (breakWith hbreak _) ?_
    exact Moves.bind (h.link _) fun _ => Moves.pure _
  · exact Moves.pure _

theorem reconnected (h : Asks R) : Moves R (Fetch.reconnected E) := by
  refine Moves.bind h.onCurrentConnection fun _ => Moves.ite (Moves.pure _) ?_
  refine Moves.bind (Moves.handle h.resume fun err => ?_) fun _ => Moves.pure _
  exact Moves.ite (breakWith hbreak _) (breakWith hbreak _)

theorem commitReady (h : Asks R) (deadline : Nat) : Moves R (commitReady E deadline) := by
  refine Moves.bind h.onCurrentConnection fun _ => Moves.ite (Moves.pure _) ?_
  refine Moves.bind (h.resumeUntil hbreak deadline) fun opened => Moves.bind (Moves.gets _) fun _ => ?_
  exact Moves.ite (diverged hbreak opened) (Moves.pure _)

theorem commitUnknown (h : Asks R) (commitId : Bytes) (deadline : Nat) :
    Moves R (commitUnknown E commitId deadline) := by
  refine Moves.bind (h.resumeUntil hbreak deadline) fun opened => Moves.bind (Moves.gets _) fun _ => ?_
  refine Moves.ite ?_ (Moves.ite (diverged hbreak opened) ?_)
  · exact Moves.bind (h.count _ fun stats => by simp [Stats.Grown, Stats.totals]) fun _ => Moves.pure _
  · exact Moves.bind (h.count _ fun stats => by simp [Stats.Grown, Stats.totals]) fun _ => Moves.pure _

-- One round of a commit, up to its acknowledgement.
theorem commitRound (h : Asks R) (parts : List Pb.Commit) (commitId : Bytes) (deadline : Nat) (state : Unit) :
    Moves R (commitRound E parts commitId deadline state) := by
  refine Moves.bind (h.commitReady hbreak deadline) fun _ => Moves.bind (Moves.attempt (h.link _)) ?_
  rintro (err | version)
  · refine Moves.ite (breakWith hbreak _) (Moves.ite ?_ ?_)
    · refine Moves.bind (h.link _) fun _ => Moves.ite (breakWith hbreak _) (Moves.bind (h.link _) fun _ => ?_)
      exact Moves.bind (h.count _ fun stats => by simp [Stats.Grown, Stats.totals]) fun _ => Moves.pure _
    · cases err with
      | Server e => exact breakWith hbreak _
      | _ => exact h.commitUnknown hbreak commitId deadline
  · exact Moves.pure _

end Breaking

end Database.Asks

end RemoteVfs
