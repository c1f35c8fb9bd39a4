import RemoteVfs.Database
import RemoteVfs.Session.Calls
import RemoteVfs.Local.Thread

namespace RemoteVfs

open Base Base.Prog

variable {ω ε : Type} (E : Env ω)

namespace Database

theorem breakWith_raises {α : Type} {errors : Broken → Prop} {broken : Broken} (h : errors broken) :
    Raises errors (breakWith broken : Prog (Database ω) Broken α) :=
  Raises.bind (Raises.modify _) fun _ => Raises.fail h

theorem now_raises {errors : Broken → Prop} :
    Raises errors (onLink (Client.now E) : Prog (Database ω) Broken Nat) :=
  fun _ _ h => by cases h

theorem unlessBroken_broken {α : Type} {broken : Broken} {db : Database ω}
    (h : db.remote.broken = some broken) (body : Prog (Database ω) Broken α) :
    unlessBroken body db = (.err broken, db) := by
  rw [unlessBroken, get_bind, h]
  rfl

theorem unlessBroken_moves {α : Type} {R : Database ω → Database ω → Prop} [IsPreorder (Database ω) R]
    {body : Prog (Database ω) Broken α} (hbody : Moves R body) : Moves R (unlessBroken body) := by
  refine Moves.bind (Moves.gets _) fun db => ?_
  cases db.remote.broken with
  | some broken => exact Moves.fail _
  | none => exact hbody

-- The database is broken by the error that a run ends with, and by nothing else.
def Marked {α : Type} (before : Database ω) (o : Outcome Broken α) (after : Database ω) : Prop :=
  after.remote.broken =
    match o with
    | .err broken => some broken
    | _ => before.remote.broken

def Marks {α : Type} (body : Prog (Database ω) Broken α) : Prop :=
  ∀ db, Marked db (body db).1 (body db).2

-- A run of a broken database does not repair it.
theorem Marked.broken {α : Type} {before after : Database ω} {o : Outcome Broken α}
    (h : Marked before o after) (hafter : after.remote.broken = none) :
    before.remote.broken = none ∧ ∀ broken, o ≠ .err broken := by
  unfold Marked at h
  rw [hafter] at h
  cases o with
  | err broken => cases h
  | _ => exact ⟨h.symm, by simp⟩

namespace Marks

variable {α β : Type}

theorem of_same {body : Prog (Database ω) Broken α}
    (hsame : Moves (Same fun db => db.remote.broken) body) (hnever : Raises (fun _ => False) body) :
    Marks body := by
  intro db
  have hsame : (body db).2.remote.broken = db.remote.broken := hsame db
  unfold Marked
  rw [hsame]
  cases hresult : (body db).1 with
  | err broken => exact (hnever db broken hresult).elim
  | ok value => rfl
  | hang => rfl

theorem pure (value : α) : Marks (Pure.pure value : Prog (Database ω) Broken α) := fun _ => rfl

theorem onLink (body : Prog (Link ω) Broken α) (hnever : Raises (fun _ => False) body) :
    Marks (Database.onLink body) := of_same (fun _ => rfl) (Raises.zoom hnever)

theorem count (change : Stats → Stats) :
    Marks (Database.count change : Prog (Database ω) Broken Unit) := fun _ => rfl

theorem breakWith (broken : Broken) :
    Marks (Database.breakWith broken : Prog (Database ω) Broken α) := fun _ => rfl

theorem attempt {δ : Type} {body : Prog (Database ω) δ α}
    (hsame : Moves (Same fun db => db.remote.broken) body) :
    Marks (Prog.attempt body : Prog (Database ω) Broken (Except δ α)) :=
  of_same hsame.attempt (Raises.attempt _)

theorem bind {first : Prog (Database ω) Broken α} {next : α → Prog (Database ω) Broken β}
    (hfirst : Marks first) (hnext : ∀ value, Marks (next value)) : Marks (first >>= next) := by
  intro db
  have h := hfirst db
  rw [bind_apply]
  generalize first db = run at h ⊢
  rcases run with ⟨value | _ | _, after⟩
  · have hafter := hnext value after
    unfold Marked at h hafter ⊢
    dsimp only at h hafter ⊢
    rw [hafter, h]
  · exact h
  · exact h

theorem get {next : Database ω → Prog (Database ω) Broken β} (hnext : ∀ value, Marks (next value)) :
    Marks (Prog.get >>= next) := bind (fun _ => rfl) hnext

theorem ite {c : Prop} [Decidable c] {yes no : Prog (Database ω) Broken α}
    (hyes : Marks yes) (hno : Marks no) : Marks (if c then yes else no) := by
  by_cases h : c
  · simpa [h] using hyes
  · simpa [h] using hno

theorem loop {body : β → Prog (Database ω) Broken (β ⊕ α)} (hbody : ∀ state, Marks (body state))
    (fuel : Nat) (state : β) : Marks (Prog.loop body fuel state) := by
  induction fuel generalizing state with
  | zero => exact fun _ => rfl
  | succ fuel ih =>
      rw [loop_succ]
      apply bind (hbody state)
      rintro (next | value)
      · exact ih next
      · exact pure value

theorem now : Marks (Database.onLink (Client.now E)) := onLink _ fun _ _ h => by cases h

end Marks

-- Only the link, the counters, the copy and the number of the login change.
structure Around (before after : Database ω) : Prop where
  pages : after.pages = before.pages
  remote : ∃ copy login, after.remote = { before.remote with copy := copy, login := login }

namespace Around

instance : IsPreorder (Database ω) Around where
  refl db := ⟨rfl, db.remote.copy, db.remote.login, rfl⟩
  trans a b c := by
    rintro ⟨hpages, copy, login, hremote⟩ ⟨hpages', copy', login', hremote'⟩
    exact ⟨hpages'.trans hpages, copy', login', by rw [hremote', hremote]⟩

theorem broken {before after : Database ω} (h : Around before after) :
    after.remote.broken = before.remote.broken := by
  obtain ⟨copy, login, hremote⟩ := h.remote
  rw [hremote]

theorem onLink {α : Type} (body : Prog (Link ω) ε α) : Moves Around (Database.onLink body) :=
  fun db => ⟨rfl, db.remote.copy, db.remote.login, rfl⟩

theorem count (change : Stats → Stats) :
    Moves Around (Database.count change : Prog (Database ω) ε Unit) :=
  fun db => ⟨rfl, db.remote.copy, db.remote.login, rfl⟩

theorem setCopy (copy : LocalCopy) :
    Moves Around (Database.setCopy copy : Prog (Database ω) ε Unit) :=
  fun db => ⟨rfl, copy, db.remote.login, rfl⟩

end Around

end Database

namespace Remote

open Database

theorem checked_ok {opened opened' : Pb.Opened} {inUse : Option Nat}
    (h : checked opened inUse = .ok opened') : opened' = opened := by
  unfold checked at h
  split_ifs at h
  cases h
  rfl

theorem onCurrentConnection_raises {errors : Broken → Prop} :
    Raises errors (onCurrentConnection E) := by
  refine Raises.bind (Raises.zoom (Raises.bind (Raises.gets _) fun client => ?_)) fun _ => ?_
  · cases client.isOpen with
    | false => exact Raises.pure _
    | true =>
        cases client.tokenRenewal with
        | none => exact Raises.pure _
        | some due => exact Raises.bind (fun _ _ h => by cases h) fun _ => Raises.pure _
  · exact Raises.ite (Raises.bind (Raises.gets _) fun _ => Raises.pure _) (Raises.pure _)

theorem asks_around : Asks (Around (ω := ω)) where
  link := Around.onLink
  count change _ := Around.count change
  login := Moves.modify fun db => ⟨rfl, db.remote.copy, _, rfl⟩

theorem onCurrentConnection_around :
    Moves Around (onCurrentConnection E : Prog (Database ω) ε Bool) := asks_around.onCurrentConnection

theorem onCurrentConnection_same :
    Moves (Same fun db => db.remote.broken) (onCurrentConnection E : Prog (Database ω) ε Bool) :=
  (onCurrentConnection_around E).mono fun _ _ h => h.broken

theorem resume_around : Moves Around (resume E) := asks_around.resume

theorem resume_same : Moves (Same fun db => db.remote.broken) (resume E) :=
  (resume_around E).mono fun _ _ h => h.broken

-- A failed write of the copy is no error of the commit.
theorem writeCopy_raises {errors : ε → Prop} (indexes : List Nat) :
    Raises errors (writeCopy E indexes) := by
  have hset : ∀ copy, Raises errors (setCopy copy : Prog (Database ω) ε Unit) :=
    fun _ => Raises.modify _
  have hcount : ∀ change, Raises errors (count change : Prog (Database ω) ε Unit) :=
    fun _ => Raises.modify _
  refine Raises.bind (Raises.gets _) fun db => Raises.ite (Raises.pure _) (Raises.ite ?_ ?_)
  · refine Raises.bind (Raises.bind (Raises.gets _) fun db => ?_) ?_
    · cases db.remote.copy with
      | Ready => exact Raises.bind (fun _ _ h => by cases h) fun _ => Raises.pure _
      | None => exact Raises.pure _
      | Writing writer => exact Raises.pure _
    · rintro (_ | writer)
      · exact Raises.pure _
      · refine Raises.bind (fun _ _ h => by cases h) fun progress => ?_
        refine Raises.bind (Raises.zoom (Raises.zoom (Background.jobs_raises E _ _))) fun writer => ?_
        refine Raises.bind (hcount _) fun _ => ?_
        cases writer.write _ _ with
        | some writer => exact Raises.bind (hset _) fun _ => hcount _
        | none => exact hset _
  · refine Raises.bind (Raises.gets _) fun db => ?_
    cases db.remote.copy with
    | Ready =>
        refine Raises.bind (Raises.attempt _) ?_
        rintro (_ | _)
        · exact Raises.bind (hcount _) fun _ => hset _
        · exact hcount _
    | None => exact Raises.pure _
    | Writing writer => exact Raises.pure _

-- Nothing is asked of the world.
theorem copyMoves_around : E.CopyMoves (Same fun _ => ()) Around where
  store := ⟨fun _ => rfl, fun _ _ _ => rfl, fun _ _ _ => rfl, fun _ _ _ => rfl, fun _ => rfl,
    fun _ => rfl, fun _ => rfl⟩
  world _ := Around.onLink _
  count := Around.count
  setCopy := Around.setCopy

theorem writeCopy_around (indexes : List Nat) :
    Moves Around (writeCopy E indexes : Prog (Database ω) ε Unit) := (copyMoves_around E).writeCopy indexes

theorem writeCopy_same (indexes : List Nat) :
    Moves (Same fun db => db.remote.broken) (writeCopy E indexes : Prog (Database ω) ε Unit) :=
  (writeCopy_around E indexes).mono fun _ _ h => h.broken

theorem dropCopy_around : Moves Around (dropCopy : Prog (Database ω) ε Unit) :=
  Moves.bind (Around.count _) fun _ => Around.setCopy _

theorem forgetCopy_around : Moves Around (forgetCopy E : Prog (Database ω) ε Unit) :=
  forgetCopy_moves ((copyMoves_around E).world (copyMoves_around E).store.clear) (copyMoves_around E).dropCopy

theorem resumeUntil_marks (deadline : Nat) : Marks (resumeUntil E deadline) := by
  refine Marks.loop (fun _ => Marks.bind (Marks.attempt (resume_same E)) ?_) _ _
  rintro (err | opened)
  · refine Marks.ite (Marks.breakWith _) (Marks.ite (Marks.breakWith _) ?_)
    refine Marks.bind (Marks.now E) fun _ => Marks.ite (Marks.breakWith _) ?_
    exact Marks.bind (fun _ => rfl) fun _ => Marks.pure _
  · exact Marks.pure _

end Remote

namespace Database

theorem diverged_marks (opened : Pb.Opened) {α : Type} :
    Marks (diverged opened : Prog (Database ω) Broken α) := Marks.get fun _ => Marks.breakWith _

theorem commitReady_marks (deadline : Nat) : Marks (commitReady E deadline) := by
  refine Marks.bind (Marks.of_same (Remote.onCurrentConnection_same E)
    (Remote.onCurrentConnection_raises E)) fun _ => Marks.ite (Marks.pure _) ?_
  exact Marks.bind (Remote.resumeUntil_marks E deadline) fun opened => Marks.get fun _ =>
    Marks.ite (diverged_marks opened) (Marks.pure _)

theorem commitFailed_marks (commitId : Bytes) (deadline : Nat) (err : ClientError) :
    Marks (commitFailed E commitId deadline err) := by
  refine Marks.ite (Marks.breakWith _) (Marks.ite ?_ ?_)
  · refine Marks.bind (Marks.now E) fun _ => Marks.ite (Marks.breakWith _) ?_
    exact Marks.bind (fun _ => rfl) fun _ => Marks.bind (Marks.count _) fun _ => Marks.pure _
  · have hunknown : Marks (commitUnknown E commitId deadline) := by
      refine Marks.bind (Remote.resumeUntil_marks E deadline) fun opened => Marks.get fun _ => ?_
      refine Marks.ite (Marks.bind (Marks.count _) fun _ => Marks.pure _) ?_
      exact Marks.ite (diverged_marks opened) (Marks.bind (Marks.count _) fun _ => Marks.pure _)
    cases err with
    | Server e => exact Marks.breakWith _
    | _ => exact hunknown

-- Every error of `commit` breaks the database.
theorem commit_marks (timeout : Nat) : Marks (commit E timeout) := by
  have hround : ∀ parts commitId deadline state, Marks (commitRound E parts commitId deadline state) := by
    intro parts commitId deadline _
    refine Marks.bind (commitReady_marks E deadline) fun _ =>
      Marks.bind (Marks.attempt fun _ => rfl) ?_
    rintro (err | version)
    · exact commitFailed_marks E commitId deadline err
    · exact Marks.pure _
  have hdone : ∀ parts time commitId version, Marks (commitDone E parts time commitId version) := by
    intro parts time commitId version
    refine Marks.get fun _ => Marks.bind (Marks.count _) fun _ => Marks.bind (fun _ => rfl) fun _ => ?_
    refine Marks.get fun _ => Marks.bind (fun _ => rfl) fun _ => ?_
    refine Marks.bind (Marks.of_same (Remote.writeCopy_same E _) (Remote.writeCopy_raises E _)) fun _ => ?_
    exact Marks.bind (fun _ => rfl) fun _ => fun _ => rfl
  intro db
  unfold commit unlessBroken
  rw [get_bind]
  cases hbroken : db.remote.broken with
  | some broken => exact hbroken
  | none =>
      dsimp only
      refine Marks.get (fun _ => Marks.ite (Marks.pure _) (Marks.ite (Marks.breakWith _) ?_)) db
      refine Marks.bind (fun _ => rfl) fun begun => Marks.bind (Marks.now E) fun _ => ?_
      exact Marks.bind (Marks.loop (hround _ _ _) _ _) fun _ => Marks.bind (Marks.now E) fun _ =>
        hdone _ _ _ _

-- What `open` did when it succeeded.
theorem openOn_returns {dbId : String} {options : OpenOptions} {desk after : Desk ω} {pages : Pages}
    {remote : Remote} (h : openOn E dbId options desk = (.ok (pages, remote), after)) :
    ∃ opened link, Client.call E (.Open
        { dbId := dbId
          pageSize := options.pageSize
          createIfMissing := options.create
          takeover := options.takeover
          resume := none }) desk.link = (.ok (.Opened opened), link) ∧
      checked opened none = .ok opened ∧
      Remote.fill E ⟨.new opened.pageSize opened.pageCount options.blocksPerFetch options.cap, desk.stats,
          ⟨openedRemote dbId options opened link.client.logins, link⟩⟩ =
        (.ok (), ⟨pages, after.stats, ⟨remote, after.link⟩⟩) := by
  unfold openOn at h
  rw [bind_apply] at h
  unfold onDesk Prog.zoom at h
  dsimp only at h
  generalize Client.call E _ desk.link = run at h ⊢
  rcases run with ⟨answer | _ | _, link⟩
  · cases answer with
    | Opened opened =>
        dsimp only at h
        cases hchecked : checked opened none with
        | error err => rw [hchecked] at h; cases h
        | ok value =>
            obtain rfl := Remote.checked_ok hchecked
            rw [hchecked] at h
            dsimp only at h
            rw [gets_bind] at h
            refine ⟨value, link, rfl, hchecked, ?_⟩
            unfold opening Prog.zoom at h
            rw [bind_apply] at h
            dsimp only at h
            generalize Remote.fill E _ = run at h ⊢
            rcases run with ⟨_ | _ | _, db⟩
            · simp only [get_bind, pure_apply, Prod.mk.injEq, Outcome.ok.injEq] at h
              obtain ⟨⟨rfl, rfl⟩, rfl⟩ := h
              rfl
            · cases h
            · cases h
    | _ => cases h
  · cases h
  · cases h

end Database

end RemoteVfs
