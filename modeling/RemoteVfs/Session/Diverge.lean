import RemoteVfs.Session.Run

namespace RemoteVfs

open Base Base.Prog Link

namespace Database

-- Some entry after the version is not the commit with this id.
def Foreign (base : Nat) (commitId : Bytes) (server : Server) : Prop :=
  ∃ j entry, base ≤ j ∧ server.log[j]? = some entry ∧ entry.commitId ≠ commitId

def Other (broken : Broken) : Prop := ∀ reason, broken ≠ .Diverged reason

variable (setup : Net.Setup)

theorem resumeUntil_raises (deadline : Nat) :
    Raises Other (Remote.resumeUntil (Net.env setup) deadline) := by
  refine Raises.loop (fun _ => Raises.bind (Raises.attempt _) ?_) _ _
  rintro (err | opened)
  · refine Raises.ite (breakWith_raises (by simp [Other])) ?_
    refine Raises.ite (breakWith_raises (by simp [Other])) ?_
    refine Raises.bind (now_raises _) fun _ => Raises.ite (breakWith_raises (by simp [Other])) ?_
    exact Raises.bind (fun _ _ h => by cases h) fun _ => Raises.pure _
  · exact Raises.pure _

-- A divergence is one: the log has an entry that is not the commit.
def DivergedBy {α : Type} (base : Nat) (commitId : Bytes) (o : Outcome Broken α) (db : Database Net) :
    Prop :=
  ∀ reason, o = .err (.Diverged reason) → Foreign base commitId db.world.server

theorem divergedBy_of_other {α : Type} {base : Nat} {commitId : Bytes} {o : Outcome Broken α}
    {db : Database Net} (h : ∀ broken, o = .err broken → Other broken) :
    DivergedBy base commitId o db :=
  fun reason heq => absurd rfl (h _ heq reason)

-- The round starts without the current connection, and the server has the commit by the
-- time the database is resumed.
def ResumesApplied (commitId : Bytes) (deadline : Nat) (db : Database Net) : Prop :=
  (Remote.onCurrentConnection (Net.env setup) db : Outcome Broken Bool × Database Net).1 = .ok false ∧
    ∃ entry ∈ (Remote.resumeUntil (Net.env setup) deadline
        (Remote.onCurrentConnection (Net.env setup) db : Outcome Broken Bool × Database Net).2
        ).2.world.server.log, entry.commitId = commitId

variable {parts : List Pb.Commit} {commitId : Bytes} {start : Database Net}

-- The server's answer is past the version: either the commit is there, or a foreign entry.
theorem foreign_or_applied {base : Nat} {opened : Pb.Opened} {link : Link Net}
    (hresumed : Remote.Resumed start opened link) (hstart : base ≤ start.world.server.version)
    (hversion : opened.version ≠ base) :
    Foreign base commitId link.world.server ∨
      ∃ entry, link.world.server.log[base]? = some entry ∧ entry.commitId = commitId := by
  have hlt : base < link.world.server.log.length := by
    have hlater := hresumed.1.later
    have hreached : opened.version ≤ link.world.server.log.length := hresumed.1.reached
    omega
  by_cases hid : (link.world.server.log[base]).commitId = commitId
  · exact Or.inr ⟨_, List.getElem?_eq_getElem hlt, hid⟩
  · exact Or.inl ⟨base, _, le_refl _, List.getElem?_eq_getElem hlt, hid⟩

theorem commitReady_diverged (hstart : start.remote.version ≤ start.world.server.version)
    (deadline : Nat) :
    Triple (fun db => Waits (· ∈ parts) Eq start db ∧ ¬ResumesApplied setup commitId deadline db)
      (commitReady (Net.env setup) deadline) (DivergedBy start.remote.version commitId) := by
  rintro db ⟨hwaits, hnot⟩
  have hcurrent := Remote.onCurrentConnection_spec (ε := Broken) setup lasting_true db ⟨hwaits, trivial⟩
  have hnever : Raises Other (Remote.onCurrentConnection (Net.env setup)) :=
    Remote.onCurrentConnection_raises _
  replace hnever := hnever db
  unfold commitReady
  unfold ResumesApplied at hnot
  rw [bind_apply]
  generalize Remote.onCurrentConnection (Net.env setup) db = run at hcurrent hnever hnot ⊢
  rcases run with ⟨_ | _ | _, mid⟩
  · rename_i current
    cases current with
    | true => exact fun _ h => by cases h
    | false =>
        have hspec := Remote.resumeUntil_spec setup deadline mid hcurrent.1
        have hraises := resumeUntil_raises setup deadline mid
        dsimp only at hnot ⊢
        rw [if_neg (by decide), bind_apply]
        generalize Remote.resumeUntil (Net.env setup) deadline mid = run at hspec hraises hnot ⊢
        rcases run with ⟨opened | _ | _, after⟩
        · dsimp only
          rw [get_bind]
          split_ifs with hversion
          · intro _ _
            rw [hspec.1.version] at hversion
            refine (foreign_or_applied hspec.2 hstart hversion).resolve_right ?_
            rintro ⟨entry, hentry, hid⟩
            exact hnot ⟨rfl, entry, List.mem_of_getElem? hentry, hid⟩
          · exact fun _ h => by cases h
        · exact divergedBy_of_other fun _ h => hraises _ (by cases h; rfl)
        · exact fun _ h => by cases h
  · exact divergedBy_of_other fun _ h => hnever _ (by cases h; rfl)
  · exact fun _ h => by cases h

-- With no foreign entry, an answer past the version is about the commit.
theorem applied_of_own {net : Net} {n k base stamp : Nat} (hwf : net.Wf n)
    (hown : Own (net.ids k) parts net) (hparts : PartsOf base (net.ids k) parts)
    (hnumbered : Numbered parts) {opened : Pb.Opened} (hat : net.server.OpenedAt stamp opened)
    (hbase : base ≤ stamp) (hnot : ¬Foreign base (net.ids k) net.server)
    (hversion : opened.version ≠ base) :
    opened.version = base + 1 ∧ opened.lastCommitId = net.ids k := by
  have hlater := hat.later
  have hreached : opened.version ≤ net.server.log.length := hat.reached
  have hall : ∀ (j : Nat) entry, base ≤ j → net.server.log[j]? = some entry →
      entry.commitId = net.ids k := by
    intro j entry hj hentry
    by_contra hne
    exact hnot ⟨j, entry, hj, hentry, hne⟩
  -- The commit is in the log only once, so nothing is on top of it.
  have hnext : opened.version = base + 1 := by
    by_contra hne
    have hlt : base + 1 < net.server.log.length := by omega
    have hentry := List.getElem?_eq_getElem hlt
    have hplace := (own_entry hwf hown hparts hnumbered hentry (hall _ _ (by omega) hentry)).2
    omega
  refine ⟨hnext, ?_⟩
  have hcommitId := hat.commitId
  rw [hnext] at hcommitId hreached
  obtain ⟨entry, hentry, hlast⟩ := lastCommitId_take hreached
  rw [hcommitId, hlast]
  exact hall base entry (le_refl _) hentry

variable {before : Database Net}

theorem commitUnknown_diverged (hbegun : Begun before commitId parts start)
    (hstart : start.remote.version ≤ start.world.server.version) (deadline : Nat) :
    Triple (Waits (· ∈ parts) Eq start) (commitUnknown (Net.env setup) commitId deadline)
      (DivergedBy start.remote.version commitId) := by
  intro db hwaits
  have hspec := Remote.resumeUntil_spec setup deadline db hwaits
  have hraises := resumeUntil_raises setup deadline db
  unfold commitUnknown
  rw [bind_apply]
  generalize Remote.resumeUntil (Net.env setup) deadline db = run at hspec hraises ⊢
  rcases run with ⟨opened | _ | _, after⟩
  · dsimp only
    rw [get_bind, hspec.1.version]
    split_ifs with happlied hversion
    · exact fun _ h => by cases h
    · intro _ _
      by_contra hforeign
      obtain ⟨k, -, -, hid⟩ := hbegun.drawn
      obtain rfl : commitId = after.world.ids k :=
        hid.trans (congrFun hspec.1.link.later.ids k).symm
      have hparts : PartsOf start.remote.version (after.world.ids k) parts := by
        rw [hbegun.remote]
        exact hbegun.partsOf
      exact happlied (applied_of_own hspec.1.link.ready.wf (hbegun.own hspec.1) hparts
        hbegun.numbered hspec.2.1 hstart hforeign hversion)
    · exact fun _ h => by cases h
  · exact divergedBy_of_other fun _ h => hraises _ (by cases h; rfl)
  · exact fun _ h => by cases h

theorem commitFailed_diverged (hbegun : Begun before commitId parts start)
    (hstart : start.remote.version ≤ start.world.server.version) (deadline : Nat) (err : ClientError) :
    Triple (Waits (· ∈ parts) Eq start) (commitFailed (Net.env setup) commitId deadline err)
      (DivergedBy start.remote.version commitId) := by
  have hother : ∀ {body : Prog (Database Net) Broken (Unit ⊕ Nat)}, Raises Other body →
      Triple (Waits (· ∈ parts) Eq start) body (DivergedBy start.remote.version commitId) :=
    fun h db _ => divergedBy_of_other fun reason heq => h db reason heq
  refine Triple.ite (fun _ => hother (breakWith_raises (by simp [Other]))) fun _ =>
    Triple.ite (fun _ => hother ?_) fun _ => ?_
  · refine Raises.bind (now_raises _) fun _ => Raises.ite (breakWith_raises (by simp [Other])) ?_
    exact Raises.bind (fun _ _ h => by cases h) fun _ => Raises.bind (Raises.modify _) fun _ =>
      Raises.pure _
  · cases err with
    | Server e => exact hother (breakWith_raises (by simp [Other]))
    | _ => exact commitUnknown_diverged setup hbegun hstart deadline

theorem divergedBy_bind {α β : Type} {base : Nat} {first : Prog (Database Net) Broken α}
    {next : α → Prog (Database Net) Broken β} {pre keep : Database Net → Prop}
    {good : α → Database Net → Prop} (hkeep : Triple pre first (Ends keep good))
    (hfirst : Triple pre first (DivergedBy base commitId))
    (hnext : ∀ value, Triple keep (next value) (DivergedBy base commitId)) :
    Triple pre (first >>= next) (DivergedBy base commitId) := by
  refine Triple.bind ((hkeep.and hfirst).mono (fun _ h => h) fun o s h => ?_) hnext
  cases o with
  | ok value => exact h.1.1
  | err broken => exact fun reason heq => h.2 reason (by cases heq; rfl)
  | hang => exact fun _ heq => by cases heq

theorem commitRound_diverged (hbegun : Begun before commitId parts start)
    (hstart : start.remote.version ≤ start.world.server.version) (deadline : Nat) :
    Triple (fun db => Waits (· ∈ parts) Eq start db ∧ ¬ResumesApplied setup commitId deadline db)
      (commitRound (Net.env setup) parts commitId deadline ())
      (DivergedBy start.remote.version commitId) := by
  refine divergedBy_bind ((commitReady_spec setup deadline).mono (fun _ h => h.1) fun _ _ h => h)
    (commitReady_diverged setup hstart deadline) fun _ => ?_
  have hcommit := onLink_spec (commit_spec (P := (· ∈ parts)) (D := Eq) setup start.source.link
    lasting_true parts fun _ h => h)
  have hraises : Raises Other (Prog.attempt (onLink (Client.commit (Net.env setup) parts)) :
      Prog (Database Net) Broken (Except ClientError Nat)) := Raises.attempt _
  refine divergedBy_bind (Ends.mono (Ends.attempt hcommit) (fun _ h => ⟨h, trivial⟩)
    fun _ _ _ h => h) (fun db _ => divergedBy_of_other (hraises db)) ?_
  rintro (err | version)
  · exact commitFailed_diverged setup hbegun hstart deadline err
  · exact fun _ _ _ h => by cases h

theorem commitRounds_diverged (hbegun : Begun before commitId parts start)
    (hstart : start.remote.version ≤ start.world.server.version) (deadline fuel : Nat) :
    Triple (fun db => Waits (· ∈ parts) Eq start db ∧
        Along (commitRound (Net.env setup) parts commitId deadline)
          (fun _ db => ¬ResumesApplied setup commitId deadline db) fuel () db)
      (Prog.loop (commitRound (Net.env setup) parts commitId deadline) fuel ())
      (DivergedBy start.remote.version commitId) := by
  have hparts : PartsOf start.remote.version commitId parts := by
    rw [hbegun.remote]
    exact hbegun.partsOf
  refine Triple.loopAlong (fun _ => Waits (· ∈ parts) Eq start) _ (fun _ => ?_)
    (fun _ _ _ _ heq => by cases heq) fuel ()
  refine (((commitRound_spec setup hparts deadline).mono (fun _ h => h.1) fun _ _ h => h).and
    (commitRound_diverged setup hbegun hstart deadline)).mono (fun _ h => h) fun o s h => ?_
  rcases o with (_ | _) | _ | _
  · exact h.1.1
  · exact fun _ heq => by cases heq
  · exact fun reason heq => h.2 reason (by cases heq; rfl)
  · exact fun _ heq => by cases heq

end Database

namespace Session

open Database

-- No round of the retry loop is one that finds the commit when it resumes the database.
def Careful (setup : Net.Setup) (db : Database Net) : Op → Prop
  | .Commit timeout => ∀ commitId parts begun started ready,
      commitBegin (Net.env setup) db = (.ok (commitId, parts), begun) →
      onLink (Client.now (Net.env setup)) begun =
        ((.ok started, ready) : Outcome Broken Nat × Database Net) →
      Along (commitRound (Net.env setup) parts commitId (started + timeout))
        (fun _ db => ¬ResumesApplied setup commitId (started + timeout) db) (Net.env setup).fuel () ready
  | _ => True

-- Something other than the pending commit was applied since the client's version.
def Overtaken (db : Database Net) : Prop :=
  ∃ j entry, db.remote.version ≤ j ∧ db.world.server.log[j]? = some entry ∧
    db.remote.pendingCommit ≠ some entry.commitId

variable (setup : Net.Setup) {db : Database Net}

theorem commitChanges_diverged (h : Live db) {timeout : Nat} (hcareful : Careful setup db (.Commit timeout))
    {reason : String}
    (hresult : (commitChanges (Net.env setup) timeout db).1 = .err (.Diverged reason)) :
    Overtaken (commitChanges (Net.env setup) timeout db).2 := by
  obtain ⟨commitId, parts, begun, hbegin, hbegun⟩ := commitBegin_spec setup h.ready
  have hstart : begun.remote.version ≤ begun.world.server.version := by
    rw [hbegun.remote]
    exact h.version.trans hbegun.kept.later.ext.version_le
  have hparts : PartsOf begun.remote.version commitId parts := by
    rw [hbegun.remote]
    exact hbegun.partsOf
  have hrefl : Waits (· ∈ parts) Eq begun begun := Waits.refl hbegun.ready
  have hnow := onLink_moved (now_moved (ε := Broken) setup) lasting_true begun ⟨hrefl, trivial⟩
  have hnever : Raises Other (onLink (Client.now (Net.env setup))) := now_raises _
  replace hnever := hnever begun
  have halong := fun started ready => hcareful commitId parts begun started ready hbegin
  rw [commitChanges, bind_ok _ hbegin] at hresult ⊢
  dsimp only at hresult ⊢
  rw [bind_apply] at hresult ⊢
  generalize onLink (Client.now (Net.env setup)) begun = run at hnow hnever halong hresult ⊢
  rcases run with ⟨started | _ | _, ready⟩
  · have hrounds := commitRounds_spec setup hparts (started + timeout) (Net.env setup).fuel ready hnow.1
    have hdiverged := commitRounds_diverged setup hbegun hstart (started + timeout)
      (Net.env setup).fuel ready ⟨hnow.1, halong started ready rfl⟩
    dsimp only at hresult ⊢
    rw [bind_apply] at hresult ⊢
    generalize Prog.loop (commitRound (Net.env setup) parts commitId (started + timeout))
      (Net.env setup).fuel () ready = run at hrounds hdiverged hresult ⊢
    rcases run with ⟨version | _ | _, after⟩
    · have hraises : Raises Other (do
          let ended ← onLink (Client.now (Net.env setup))
          commitDone (Net.env setup) parts.length (ended - started) commitId version) :=
        Raises.bind (now_raises _) fun _ => commitDone_raises setup _ _ _ _
      exact absurd rfl (hraises after _ hresult reason)
    · cases hresult
      obtain ⟨j, entry, hj, hentry, hid⟩ := hdiverged reason rfl
      obtain ⟨login, broken, hremote⟩ := hrounds.1.remote
      refine ⟨j, entry, ?_, hentry, ?_⟩
      · rw [hrounds.1.version]
        exact hj
      · rw [hremote, hbegun.remote]
        exact fun heq => hid (Option.some.inj heq).symm
    · cases hresult
  · cases hresult
    exact absurd rfl (hnever _ rfl reason)
  · cases hresult

theorem Overtaken.later {before after : Database Net} (h : Overtaken before)
    (hext : before.world.server.Extends after.world.server)
    (hversion : after.remote.version = before.remote.version)
    (hpending : after.remote.pendingCommit = before.remote.pendingCommit) : Overtaken after := by
  obtain ⟨j, entry, hj, hentry, hne⟩ := h
  exact ⟨j, entry, hversion ▸ hj, hext.getElem? hentry, hpending ▸ hne⟩

-- A database that diverged was overtaken.
def Explained (db : Database Net) : Prop :=
  ∀ reason, db.remote.broken = some (.Diverged reason) → Overtaken db

theorem Explained.loads {before after : Database Net} (h : Explained before)
    (hloads : Loads NoCommit before after) : Explained after := by
  intro reason hbroken
  obtain ⟨login, broken, copy, hremote⟩ := hloads.remote
  exact (h reason (hloads.broken reason hbroken)).later hloads.link.later.ext
    (by rw [hremote]) (by rw [hremote])

theorem commit_diverged (hlive : Live db) (h : Explained db) {timeout : Nat}
    (hcareful : Careful setup db (.Commit timeout)) {reason : String}
    (hresult : (Database.commit (Net.env setup) timeout db).1 = .err (.Diverged reason)) :
    Overtaken (Database.commit (Net.env setup) timeout db).2 := by
  unfold Database.commit unlessBroken at hresult ⊢
  rw [get_bind] at hresult ⊢
  cases hbroken : db.remote.broken with
  | some broken =>
      rw [hbroken] at hresult
      cases hresult
      exact h reason hbroken
  | none =>
      rw [hbroken] at hresult
      dsimp only at hresult ⊢
      rw [get_bind] at hresult ⊢
      split_ifs at hresult ⊢ with hclean hrevoked
      · cases hresult
      · exact commitChanges_diverged setup hlive hcareful hresult

-- An answer that is neither at the version nor about the pending commit.
theorem overtaken_of_resumed {before mid : Database Net} (hlive : Live before)
    (hmid : Waits NoCommit Eq before mid) {opened : Pb.Opened}
    (hresumed : Remote.Resumed before opened mid.source.link)
    (hversion : opened.version ≠ before.remote.version)
    (happlied : before.wasApplied opened = false) : Overtaken mid := by
  obtain ⟨login, broken, hremote⟩ := hmid.remote
  have hpending : mid.remote.pendingCommit = before.remote.pendingCommit := by rw [hremote]
  rw [← hmid.version] at hversion
  have hstart : mid.remote.version ≤ before.world.server.version := hmid.version ▸ hlive.version
  cases hcommit : before.remote.pendingCommit with
  | none =>
      have hlater := hresumed.1.later
      have hreached : opened.version ≤ mid.world.server.log.length := hresumed.1.reached
      have hlt : mid.remote.version < mid.world.server.log.length := by omega
      exact ⟨_, _, le_refl _, List.getElem?_eq_getElem hlt, by rw [hpending, hcommit]; simp⟩
  | some commitId =>
      obtain ⟨k, parts, -, rfl, hown, hparts, hnumbered⟩ :=
        (hlive.waits hmid).pending commitId (hpending.trans hcommit)
      by_contra hnot
      have hforeign : ¬Foreign mid.remote.version (mid.world.ids k) mid.world.server := by
        rintro ⟨j, entry, hj, hentry, hne⟩
        refine hnot ⟨j, entry, hj, hentry, ?_⟩
        rw [hpending, hcommit]
        exact fun heq => hne (Option.some.inj heq).symm
      obtain ⟨hnext, hlast⟩ := applied_of_own hmid.link.ready.wf hown hparts hnumbered hresumed.1
        hstart hforeign hversion
      rw [hmid.version] at hnext
      change opened.lastCommitId = mid.world.ids k at hlast
      simp [wasApplied, hnext, hlast, hcommit] at happlied

theorem heal_diverged (hlive : Live db) {reason : String}
    (hresult : (heal (Net.env setup) db).1 = .err (.Diverged reason)) :
    Overtaken (heal (Net.env setup) db).2 := by
  rcases heal_cases setup hlive.ready with
    ⟨-, hother, -, -⟩ | ⟨opened, mid, hmid, hresumed, ⟨hversion, happlied, -, -, hlink, hwaits⟩ | ⟨-, -, heq⟩⟩
  · exact absurd hresult (hother reason)
  · have hresumed' : Remote.Resumed db opened (heal (Net.env setup) db).2.source.link :=
      hlink ▸ hresumed
    exact overtaken_of_resumed hlive hwaits hresumed' hversion happlied
  · rw [heq, reload_eq] at hresult
    generalize Remote.fill (Net.env setup) (restarted opened mid) = run at hresult
    rcases run with ⟨_ | err | _, after⟩
    · cases hresult
    · exact absurd (Outcome.err.inj hresult) (reasonOf_ne_diverged err reason)
    · cases hresult

theorem Explained.commit (hlive : Live db) (h : Explained db) {timeout : Nat}
    (hcareful : Careful setup db (.Commit timeout)) :
    Explained (Database.commit (Net.env setup) timeout db).2 := by
  intro reason hbroken
  have hmarks := commit_marks (Net.env setup) timeout db
  cases hresult : (Database.commit (Net.env setup) timeout db).1 with
  | err broken =>
      unfold Marked at hmarks
      rw [hresult, hbroken] at hmarks
      cases hmarks
      exact commit_diverged setup hlive h hcareful hresult
  | _ =>
      unfold Marked at hmarks
      rw [hresult, hbroken] at hmarks
      dsimp only at hmarks
      unfold Database.commit unlessBroken at hresult
      rw [get_bind, ← hmarks] at hresult
      cases hresult

theorem Explained.heal (hlive : Live db) (hunreachable : db.isUnreachable = true) :
    Explained (Database.heal (Net.env setup) db).2 := by
  have hnot : ∀ reason, db.remote.broken ≠ some (.Diverged reason) := by
    intro reason hbroken
    simp [isUnreachable, hbroken] at hunreachable
  intro reason hbroken
  rcases heal_cases setup hlive.ready with
    ⟨-, hother, hmarked, -⟩ |
    ⟨opened, mid, hmid, hresumed, ⟨hversion, happlied, -, -, hlink, hwaits⟩ | ⟨-, hmidBroken, heq⟩⟩
  · unfold Marked at hmarked
    rw [hbroken] at hmarked
    cases hresult : (Database.heal (Net.env setup) db).1 with
    | err broken =>
        rw [hresult] at hmarked
        cases hmarked
        exact absurd hresult (hother reason)
    | _ =>
        rw [hresult] at hmarked
        exact absurd hmarked.symm (hnot reason)
  · have hresumed' : Remote.Resumed db opened (Database.heal (Net.env setup) db).2.source.link :=
      hlink ▸ hresumed
    exact overtaken_of_resumed hlive hwaits hresumed' hversion happlied
  · have hfill := Remote.fill_loaded setup (restarted opened mid) hmid.link.ready
    rw [heq, reload_eq] at hbroken
    generalize Remote.fill (Net.env setup) (restarted opened mid) = run at hbroken hfill
    rcases run with ⟨_ | err | _, after⟩
    · cases hbroken
    · exact absurd (Option.some.inj hbroken) (reasonOf_ne_diverged err reason)
    · exact absurd (hmidBroken.symm.trans (hfill.broken reason hbroken)) (hnot reason)

theorem Explained.step (hlive : Live db) (h : Explained db) (op : Op) (hcareful : Careful setup db op) :
    Explained (op.run (Net.env setup) db) := by
  cases op with
  | Read offset length => exact h.loads (read_loaded setup offset length db hlive.ready)
  | Write offset data => exact h.loads (write_loaded setup offset data db hlive.ready)
  | Truncate size => exact h.loads (truncate_loaded size db hlive.ready)
  | Commit timeout => exact h.commit setup hlive hcareful
  | Heal =>
      simp only [Op.run]
      split_ifs with hunreachable
      · exact Explained.heal setup hlive hunreachable
      · exact h
  | Label label =>
      exact h.loads (onLink_loaded (label_moved setup label) db hlive.ready)

theorem Reached.explained {options : OpenOptions} (h : Reached setup (Opened setup options) (Careful setup) db) :
    Explained db := by
  induction h with
  | Open h =>
      obtain ⟨dbId, opened, link, hready, -, -, hfill⟩ := h.cases
      intro reason hbroken
      have hloads := Remote.fill_loaded setup
        ⟨.new opened.pageSize opened.pageCount options.blocksPerFetch options.cap, {},
          ⟨openedRemote dbId options opened link.client.logins, link⟩⟩ hready
      rw [hfill] at hloads
      cases hloads.broken reason hbroken
  | Step op h hop ih => exact ih.step setup (h.live setup) op hop

-- A pending commit that the server has is recognised by `heal`.
theorem heal_recognises (hlive : Live db) (hok : (heal (Net.env setup) db).1 = .ok ())
    {commitId : Bytes} (hpending : db.remote.pendingCommit = some commitId)
    {entry : Entry} (hentry : entry ∈ db.world.server.log) (hid : entry.commitId = commitId) :
    (heal (Net.env setup) db).2.remote.version = db.remote.version + 1 ∧
      (heal (Net.env setup) db).2.remote.lastCommitId = commitId := by
  obtain ⟨k, parts, -, rfl, hown, hparts, hnumbered⟩ := hlive.pending commitId hpending
  obtain ⟨j, hj⟩ := List.mem_iff_getElem?.mp hentry
  obtain rfl := (own_entry hlive.ready.wf hown hparts hnumbered hj hid).2
  have hlt : db.remote.version < db.world.server.version := (List.getElem?_eq_some_iff.mp hj).1
  rcases heal_cases setup hlive.ready with
    ⟨hne, -, -, -⟩ | ⟨opened, mid, hmid, hresumed, ⟨-, -, hne, -, -, -⟩ | ⟨haccepted, -, heq⟩⟩
  · exact absurd hok hne
  · exact absurd hok hne
  · have hlater := hresumed.1.later
    have happlied := haccepted.resolve_left (by omega)
    simp only [wasApplied, Bool.and_eq_true, beq_iff_eq, hpending, Option.some.injEq] at happlied
    have hfill := Remote.fill_loaded setup (restarted opened mid) hmid.link.ready
    rw [heq, reload_eq] at hok ⊢
    generalize Remote.fill (Net.env setup) (restarted opened mid) = run at hok hfill ⊢
    rcases run with ⟨_ | err | _, after⟩
    · obtain ⟨login, broken, copy, hremote⟩ := hfill.remote
      refine ⟨?_, ?_⟩
      · show after.remote.version = _
        rw [hremote, ← happlied.1]
        rfl
      · show after.remote.lastCommitId = _
        rw [hremote, happlied.2]
        rfl
    · cases hok
    · cases hok

-- Neither `commit` nor `heal` reports a divergence unless something else was applied, and a
-- pending commit that the server has is found by the next `heal` that succeeds.
theorem no_false_divergence {options : OpenOptions} (h : Reached setup (Opened setup options) (Careful setup) db) :
    (∀ reason, db.remote.broken = some (.Diverged reason) → Overtaken db) ∧
      (∀ timeout reason, Careful setup db (.Commit timeout) →
        (Database.commit (Net.env setup) timeout db).1 = .err (.Diverged reason) →
          Overtaken (Database.commit (Net.env setup) timeout db).2) ∧
      (∀ reason, (heal (Net.env setup) db).1 = .err (.Diverged reason) →
        Overtaken (heal (Net.env setup) db).2) ∧
      ∀ commitId, db.remote.pendingCommit = some commitId →
        (∃ entry ∈ db.world.server.log, entry.commitId = commitId) →
          (heal (Net.env setup) db).1 = .ok () →
            (heal (Net.env setup) db).2.remote.version = db.remote.version + 1 ∧
              (heal (Net.env setup) db).2.remote.lastCommitId = commitId := by
  have hlive := h.live setup
  have hexplained := h.explained setup
  refine ⟨hexplained, fun _ _ hcareful => commit_diverged setup hlive hexplained hcareful,
    fun _ => heal_diverged setup hlive, ?_⟩
  rintro commitId hpending ⟨entry, hentry, hid⟩ hok
  exact heal_recognises setup hlive hok hpending hentry hid

-- The answer to a commit is lost, and the server cannot be reached for a while.
def outage (n : Nat) : Turn where
  moves := [.Serve 0 {}, .Serve 1 {}]
  fail := if n = 15 ∨ n = 16 then some "lost" else none

theorem no_false_divergence_outage :
    ∃ db, Reached sampleSetup (Opened sampleSetup sampleOptions) (Careful sampleSetup) db ∧
      db.isUnreachable = true ∧ db.remote.version = 0 ∧ db.remote.pendingCommit = some [0] ∧
      (heal (Net.env sampleSetup) db).1 = .ok () ∧
      (heal (Net.env sampleSetup) db).2.remote.version = 1 ∧
      (heal (Net.env sampleSetup) db).2.remote.lastCommitId = [0] := by
  have hround : (sample outage sampleOptions [.Write 0 [1]]).any (fun db =>
      let begun := commitBegin (Net.env sampleSetup) db
      let ready := onLink (Client.now (Net.env sampleSetup)) begun.2
      begun.1.any fun commit => (ready.1 : Outcome Broken Nat).any fun started =>
        decide ((Remote.onCurrentConnection (Net.env sampleSetup) ready.2 :
            Outcome Broken Bool × Database Net).1 = .ok true ∧
          (commitRound (Net.env sampleSetup) commit.2 commit.1 (started + 0) () ready.2).1 ≠ .ok (.inl ()))) =
      true := by decide +kernel
  have hafter : (sample outage sampleOptions [.Write 0 [1]]).any (fun db =>
      let after := (Database.commit (Net.env sampleSetup) 0 db).2
      decide (after.isUnreachable = true ∧ after.remote.version = 0 ∧
        after.remote.pendingCommit = some [0] ∧
        after.world.server.log.map Entry.commitId = [[0]] ∧
        (heal (Net.env sampleSetup) after).1 = .ok ())) = true := by decide +kernel
  obtain ⟨db, hdb, hround⟩ := (Option.any_eq_true _ _).mp hround
  rw [hdb, Option.any_some] at hafter
  have hwrite : Reached sampleSetup (Opened sampleSetup sampleOptions) (Careful sampleSetup) db :=
    sample_reached (serving_fresh fun n move hmove => by
      simp only [outage, List.mem_cons, List.not_mem_nil, or_false] at hmove
      rcases hmove with rfl | rfl <;> exact ⟨_, _, rfl⟩)
      (fun db op hop => by
        rw [List.mem_singleton] at hop
        subst hop
        trivial) hdb
  have hcareful : Careful sampleSetup db (.Commit 0) := by
    intro commitId parts begun started ready hbegin hnow
    simp only [hbegin, hnow, Outcome.any, decide_eq_true_eq] at hround
    refine ⟨fun h => ?_, fun next after hnext => ?_⟩
    · cases hround.1.symm.trans h.1
    · rw [hnext] at hround
      exact absurd rfl hround.2
  simp only [decide_eq_true_eq] at hafter
  obtain ⟨hunreachable, hversion, hpending, hlog, hheal⟩ := hafter
  have hreached := hwrite.Step (.Commit 0) hcareful
  obtain ⟨entry, hentry, hid⟩ : ∃ entry ∈ (Database.commit (Net.env sampleSetup) 0 db).2.world.server.log,
      entry.commitId = [0] := List.mem_map.mp (by rw [hlog]; simp)
  have hfound := (no_false_divergence sampleSetup hreached).2.2.2 [0] hpending ⟨entry, hentry, hid⟩ hheal
  exact ⟨_, hreached, hunreachable, hversion, hpending, hheal, by rw [hfound.1]; exact congrArg (· + 1) hversion,
    hfound.2⟩

-- The server applies the commit and answers INTERNAL; then the access token is renewed.
def renewing (n : Nat) : Turn where
  moves :=
    [.Serve 0
      { error := if 12 ≤ n then some (Server.error .Internal) else none
        late := true
        helloOk := ⟨1, 0, 0, 0, 1⟩ },
      .Serve 1 {}]
  time := if 18 ≤ n then 1000000 else 0

theorem late_error_then_login_diverges :
    ∃ db after reason, Reached sampleSetup (Opened sampleSetup sampleOptions) anyOp db ∧
      Database.commit (Net.env sampleSetup) 10000000 db = (.err (.Diverged reason), after) ∧
      after.world.server.log.map Entry.commitId = [[0]] ∧ after.remote.version = 0 ∧
      after.remote.pendingCommit = some [0] ∧ ¬Overtaken after := by
  have hfacts : (sample renewing sampleOptions [.Write 0 [1]]).any (fun db =>
      let after := Database.commit (Net.env sampleSetup) 10000000 db
      decide (after.1 = .err (.Diverged "server is at version 1, this client at 0") ∧
        after.2.world.server.log.map Entry.commitId = [[0]] ∧ after.2.remote.version = 0 ∧
        after.2.remote.pendingCommit = some [0])) = true := by decide +kernel
  obtain ⟨db, hdb, hfacts⟩ := (Option.any_eq_true _ _).mp hfacts
  rw [decide_eq_true_eq] at hfacts
  obtain ⟨hdiverged, hlog, hversion, hpending⟩ := hfacts
  have hreached : Reached sampleSetup (Opened sampleSetup sampleOptions) anyOp db :=
    sample_reached (serving_fresh fun n move hmove => by
      simp only [renewing, List.mem_cons, List.not_mem_nil, or_false] at hmove
      rcases hmove with rfl | rfl <;> exact ⟨_, _, rfl⟩) (fun _ _ _ => trivial) hdb
  refine ⟨db, _, _, hreached, Prod.ext hdiverged rfl, hlog, hversion, hpending, ?_⟩
  rintro ⟨j, entry, -, hentry, hne⟩
  have hmem := List.mem_map_of_mem (f := Entry.commitId) (List.mem_of_getElem? hentry)
  rw [hlog, List.mem_singleton] at hmem
  exact hne (by rw [hpending, hmem])

end Session

end RemoteVfs
