import RemoteVfs.Session.Load

namespace RemoteVfs

open Base Base.Prog Link

theorem flatten_chunks {α : Type} {size : Nat} (hsize : 0 < size) (list : List α) :
    (chunks size list).flatten = list := by
  have htake : ∀ count, ((List.range count).map fun k =>
      (list.drop (k * size)).take size).flatten = list.take (count * size) := by
    intro count
    induction count with
    | zero => simp
    | succ count ih =>
        rw [List.range_succ, List.map_append, List.flatten_append, ih, Nat.succ_mul, List.take_add]
        simp
  rw [chunks, htake]
  apply List.take_of_length_le
  exact FlatFile.le_roundUp hsize list.length

namespace Remote

variable (remote : Remote) (pages : Pages) (commitId : Bytes) (maxFrameBytes : Nat)

theorem mem_parts {part : Pb.Commit} (h : part ∈ remote.parts pages commitId maxFrameBytes) :
    part.commitId = commitId ∧ part.baseVersion = remote.version ∧
      part.pageCount = pages.pageCount := by
  simp only [parts, List.mem_mapIdx] at h
  obtain ⟨i, hi, rfl⟩ := h
  exact ⟨rfl, rfl, rfl⟩

theorem getElem?_parts {i : Nat} {part : Pb.Commit}
    (h : (remote.parts pages commitId maxFrameBytes)[i]? = some part) :
    part.part = i ∧
      part.more = decide (i + 1 < (remote.parts pages commitId maxFrameBytes).length) := by
  simp only [parts, List.getElem?_mapIdx, Option.map_eq_some_iff] at h
  obtain ⟨blocks, -, rfl⟩ := h
  refine ⟨rfl, ?_⟩
  simp only [parts, List.length_mapIdx]

-- The parts carry all dirty blocks, in order.
theorem blocks_parts : (remote.parts pages commitId maxFrameBytes).flatMap (·.blocks) =
    pages.dirtyBlocks.map fun entry => ⟨entry.1, entry.2⟩ := by
  have hflat : ∀ (pieces : List (List Pb.Block)) (f : Nat → List Pb.Block → Pb.Commit),
      (∀ i blocks, (f i blocks).blocks = blocks) →
        (pieces.mapIdx f).flatMap (·.blocks) = pieces.flatten := by
    intro pieces f hf
    rw [List.flatMap_def]
    congr 1
    apply List.ext_getElem?
    intro i
    simp only [List.getElem?_map, List.getElem?_mapIdx, Option.map_map]
    cases pieces[i]? with
    | none => rfl
    | some blocks => simp [hf]
  unfold parts
  rw [hflat _ _ fun _ _ => rfl]
  split_ifs with hempty
  · rw [List.isEmpty_iff] at hempty
    rw [hempty]
    rfl
  · exact flatten_chunks (by simp [perPart]) _

end Remote

namespace Database

variable {parts : List Pb.Commit} {commitId : Bytes} {start : Database Net} (setup : Net.Setup)

-- The server has an entry with this commit id directly on top of the version.
def Applied (base : Nat) (commitId : Bytes) (version : Nat) (link : Link Net) : Prop :=
  version = base + 1 ∧
    ∃ entry, link.world.server.log[base]? = some entry ∧ entry.commitId = commitId

theorem lasting_applied (base : Nat) (commitId : Bytes) (version : Nat) :
    Lasting (Applied base commitId version) := by
  rintro before after hlater ⟨hversion, entry, hentry, hid⟩
  exact ⟨hversion, entry, hlater.ext.getElem? hentry, hid⟩

-- What the parts of a commit have in common.
structure PartsOf (base : Nat) (commitId : Bytes) (parts : List Pb.Commit) : Prop where
  commitId : ∀ part ∈ parts, part.commitId = commitId
  base : ∀ part ∈ parts, part.baseVersion = base

theorem applied_of_acked {base version : Nat} (hparts : PartsOf base commitId parts)
    {link : Link Net} (h : Acked parts version link) : Applied base commitId version link := by
  obtain ⟨part, ack, hlast, hat, rfl⟩ := h
  have hmem := List.mem_of_getLast? hlast
  obtain ⟨entry, hentry, hid⟩ := hat.applied
  rw [hparts.base part hmem] at hentry
  exact ⟨by rw [hat.version, hparts.base part hmem], entry, hentry, hid.trans (hparts.commitId part hmem)⟩

theorem lastCommitId_take {server : Server} {base : Nat} (h : base + 1 ≤ server.version) :
    ∃ entry, server.log[base]? = some entry ∧
      Server.lastCommitId (server.log.take (base + 1)) = entry.commitId := by
  have hlt : base < server.log.length := h
  refine ⟨server.log[base], List.getElem?_eq_getElem hlt, ?_⟩
  rw [Server.lastCommitId, List.take_add_one, List.getElem?_eq_getElem hlt, Option.toList_some,
    List.getLast?_concat]
  rfl

theorem applied_of_resumed {base : Nat} {opened : Pb.Opened} {link : Link Net}
    (h : Remote.Resumed start opened link) (hversion : opened.version = base + 1)
    (hid : opened.lastCommitId = commitId) : Applied base commitId opened.version link := by
  obtain ⟨hat, -⟩ := h
  have hreached := hat.reached
  have hcommit := hat.commitId
  rw [hversion] at hreached hcommit
  obtain ⟨entry, hentry, hlast⟩ := lastCommitId_take hreached
  exact ⟨hversion, entry, hentry, by rw [← hlast, ← hcommit, hid]⟩

theorem diverged_spec {P : Pb.Commit → Prop} {D : Disk → Disk → Prop} {α : Type} (opened : Pb.Opened)
    {good : α → Database Net → Prop} :
    Triple (Waits P D start) (diverged opened : Prog (Database Net) Broken α)
      (Ends (Waits P D start) good) :=
  Triple.get fun _ => (breakWith_spec _).mono (fun _ h => h.1) fun _ _ h => h

theorem commitReady_spec (deadline : Nat) :
    Triple (Waits (· ∈ parts) Eq start) (commitReady (Net.env setup) deadline)
      (Ends (Waits (· ∈ parts) Eq start) fun _ _ => True) := by
  refine Ends.bind (Ends.mono (Remote.onCurrentConnection_spec setup lasting_true)
    (fun _ h => ⟨h, trivial⟩) fun _ _ _ h => h) fun current => ?_
  refine Triple.ite (fun _ => Ends.pure fun _ h => h) fun _ => ?_
  refine Ends.bind (Ends.mono (Remote.resumeUntil_spec setup deadline) (fun _ h => h.1)
    fun _ _ _ h => h) fun opened => Triple.get fun db => ?_
  exact Triple.ite (fun _ => (diverged_spec opened).mono (fun _ h => h.1.1) fun _ _ h => h)
    fun _ => Ends.pure fun _ h => ⟨h.1.1, trivial⟩

-- The commit is sent again.
theorem resent_spec {P : Pb.Commit → Prop} {D : Disk → Disk → Prop} {done : Nat → Database Net → Prop} :
    Triple (Waits P D start) (do resent; return .inl () : Prog (Database Net) Broken (Unit ⊕ Nat))
      (Ends (Waits P D start) (orDone (fun _ _ => True) done)) :=
  fun _ h => ⟨⟨h.link, h.pages, h.remote⟩, trivial⟩

theorem commitUnknown_spec (deadline : Nat) :
    Triple (Waits (· ∈ parts) Eq start) (commitUnknown (Net.env setup) commitId deadline)
      (Ends (Waits (· ∈ parts) Eq start) (orDone (fun _ _ => True) fun version db =>
        Applied start.remote.version commitId version db.source.link)) := by
  refine Ends.bind (Remote.resumeUntil_spec setup deadline) fun opened => ?_
  rintro db ⟨hwaits, hresumed⟩
  rw [get_bind, hwaits.version]
  by_cases happlied : opened.version = start.remote.version + 1 ∧ opened.lastCommitId = commitId
  · rw [if_pos happlied]
    exact ⟨⟨hwaits.link, hwaits.pages, hwaits.remote⟩,
      applied_of_resumed hresumed happlied.1 happlied.2⟩
  · rw [if_neg happlied]
    exact Triple.ite (fun _ => diverged_spec opened) (fun _ => resent_spec) db hwaits

theorem commitFailed_spec (deadline : Nat) (err : ClientError) :
    Triple (Waits (· ∈ parts) Eq start) (commitFailed (Net.env setup) commitId deadline err)
      (Ends (Waits (· ∈ parts) Eq start) (orDone (fun _ _ => True) fun version db =>
        Applied start.remote.version commitId version db.source.link)) := by
  refine Triple.ite (fun _ => breakWith_spec _) fun _ => Triple.ite (fun _ => ?_) fun _ => ?_
  · refine Ends.bind (Ends.mono (onLink_moved (now_moved setup) lasting_true)
      (fun _ h => ⟨h, trivial⟩) fun _ _ _ h => h) fun _ => ?_
    refine Triple.ite (fun _ => (breakWith_spec _).mono (fun _ h => h.1) fun _ _ h => h) fun _ => ?_
    refine Ends.bind (onLink_moved (pause_moved setup _) lasting_true) fun _ => ?_
    exact resent_spec.mono (fun _ h => h.1) fun _ _ h => h
  · cases err with
    | Server e => exact breakWith_spec _
    | _ => exact commitUnknown_spec setup deadline

theorem commitRound_spec (hparts : PartsOf start.remote.version commitId parts) (deadline : Nat) :
    Triple (Waits (· ∈ parts) Eq start) (commitRound (Net.env setup) parts commitId deadline ())
      (Ends (Waits (· ∈ parts) Eq start) (orDone (fun _ _ => True) fun version db =>
        Applied start.remote.version commitId version db.source.link)) := by
  refine Ends.bind (commitReady_spec setup deadline) fun _ => ?_
  have hcommit := onLink_spec (commit_spec (P := (· ∈ parts)) (D := Eq) setup start.source.link
    lasting_true parts fun _ h => h)
  refine Ends.bind (Ends.mono (Ends.attempt hcommit) (fun _ h => ⟨h.1, trivial⟩)
    fun _ _ _ h => h) ?_
  rintro (err | version)
  · exact (commitFailed_spec setup deadline err).mono (fun _ h => h.1) fun _ _ h => h
  · exact Ends.pure fun db h => ⟨h.1, applied_of_acked hparts (h.2 version rfl).2⟩

theorem commitRounds_spec (hparts : PartsOf start.remote.version commitId parts) (deadline fuel : Nat) :
    Triple (Waits (· ∈ parts) Eq start)
      (Prog.loop (commitRound (Net.env setup) parts commitId deadline) fuel ())
      (Ends (Waits (· ∈ parts) Eq start) fun version db =>
        Applied start.remote.version commitId version db.source.link) :=
  (Ends.loop (fun _ _ => True) (fun _ => (commitRound_spec setup hparts deadline).mono
    (fun _ h => h.1) fun _ _ h => h) fuel ()).mono (fun _ h => ⟨h, trivial⟩) fun _ _ h => h

end Database

-- All parts that were sent under this commit id.
def Own (commitId : Bytes) (parts : List Pb.Commit) (net : Net) : Prop :=
  ∀ part, net.asked.Sent part → part.commitId = commitId → part ∈ parts

-- The numbering of the parts.
def Numbered (parts : List Pb.Commit) : Prop :=
  ∀ i part, parts[i]? = some part → part.part = i ∧ part.more = decide (i + 1 < parts.length)

-- An entry with a commit id of the client is the client's commit, in its place.
theorem own_entry {net : Net} {n base k : Nat} {parts : List Pb.Commit} (hwf : net.Wf n)
    (hown : Own (net.ids k) parts net) (hparts : Database.PartsOf base (net.ids k) parts)
    (hnumbered : Numbered parts) {j : Nat} {entry : Entry}
    (hentry : net.server.log[j]? = some entry) (hid : entry.commitId = net.ids k) :
    entry = .Commit parts ∧ j = base := by
  cases entry with
  | Commit sent =>
      have hcomplete := hwf.log j sent hentry
      obtain ⟨last, hlast, hmore, hbase⟩ := hcomplete.last
      rw [Server.commitId_of_chain hcomplete.chain hlast] at hid
      have hsub : ∀ part ∈ sent, part ∈ parts := fun part hpart =>
        hown part (hcomplete.sent part hpart) ((hcomplete.chain.same last hlast part hpart).1.trans hid)
      have heq := hcomplete.chain.eq_of_subset last hlast hmore hsub hnumbered
      refine ⟨by rw [heq], ?_⟩
      rw [← hbase]
      exact hparts.base last (hsub last (List.mem_of_getLast? hlast))
  | Other commitId pageCount blocks =>
      exact absurd hid.symm ((hwf.others j commitId pageCount blocks hentry).2 k)
  | Deleted pageSize => exact absurd hid.symm (hwf.distinct.nonempty k)

-- The server has the commit in its log, on top of `base` and nowhere else.
structure AppliedOnce (server : Server) (base : Nat) (commitId : Bytes) (parts : List Pb.Commit) :
    Prop where
  applied : server.log[base]? = some (.Commit parts)
  once : ∀ j entry, server.log[j]? = some entry → entry.commitId = commitId → j = base

theorem applied_once {net : Net} {n base k : Nat} {parts : List Pb.Commit} (hwf : net.Wf n)
    (hown : Own (net.ids k) parts net) (hparts : Database.PartsOf base (net.ids k) parts)
    (hnumbered : Numbered parts) {entry : Entry} (hentry : net.server.log[base]? = some entry)
    (hid : entry.commitId = net.ids k) : AppliedOnce net.server base (net.ids k) parts where
  applied := by rw [hentry, (own_entry hwf hown hparts hnumbered hentry hid).1]
  once _ _ hj hjd := (own_entry hwf hown hparts hnumbered hj hjd).2

namespace Database

-- A commit is about to be sent.
structure Begun (before : Database Net) (commitId : Bytes) (parts : List Pb.Commit)
    (after : Database Net) : Prop where
  kept : Kept NoCommit Eq before.source.link after.source.link
  drawn : ∃ k, before.world.drawn ≤ k ∧ k < after.world.drawn ∧ commitId = after.world.ids k
  fresh : Own commitId [] after.world
  pages : after.pages = before.pages
  remote : after.remote = { before.remote with pendingCommit := some commitId }
  parts : parts = before.remote.parts before.pages commitId before.client.limits.maxFrameBytes

theorem commitBegin_spec (setup : Net.Setup) {before : Database Net}
    (hready : before.source.link.Ready NoCommit) :
    ∃ commitId parts after, commitBegin (Net.env setup) before = (.ok (commitId, parts), after) ∧
      Begun before commitId parts after := by
  have hkept : Kept NoCommit Eq before.source.link
      ⟨before.client, (Net.random before.world).2⟩ :=
    outside_moved (P := NoCommit) (Net.quiet_random (ε := Broken)) _ hready
  obtain ⟨hwf, hlater⟩ := Net.tick_wf hready.wf
  refine ⟨_, _, _, rfl, hkept, ⟨before.world.tick.2.drawn, hlater.drawn, Nat.lt_succ_self _, rfl⟩,
    ?_, rfl, rfl, rfl⟩
  intro part hsent hid
  obtain ⟨k, hk, hk'⟩ := hwf.drawn part hsent
  have heq : k = before.source.link.world.tick.2.drawn :=
    hwf.distinct.injective (hk'.symm.trans hid)
  omega

theorem Begun.ready {before after : Database Net} {commitId : Bytes} {parts : List Pb.Commit}
    (h : Begun before commitId parts after) : after.source.link.Ready (· ∈ parts) := by
  refine ⟨h.kept.ready.wf, fun part hpart => ?_⟩
  obtain ⟨k, -, hk, hid⟩ := h.drawn
  rw [h.parts] at hpart
  exact ⟨k, hk, (Remote.mem_parts _ _ _ _ hpart).1.trans hid⟩

theorem Begun.partsOf {before after : Database Net} {commitId : Bytes} {parts : List Pb.Commit}
    (h : Begun before commitId parts after) : PartsOf before.remote.version commitId parts := by
  rw [h.parts]
  exact ⟨fun _ hpart => (Remote.mem_parts _ _ _ _ hpart).1,
    fun _ hpart => (Remote.mem_parts _ _ _ _ hpart).2.1⟩

theorem Begun.numbered {before after : Database Net} {commitId : Bytes} {parts : List Pb.Commit}
    (h : Begun before commitId parts after) : Numbered parts := by
  rw [h.parts]
  exact fun i part => Remote.getElem?_parts _ _ _ _

-- Only the parts of the commit carry its id, also after they were sent.
theorem Begun.own {before after later : Database Net} {commitId : Bytes} {parts : List Pb.Commit}
    (h : Begun before commitId parts after) (hwaits : Waits (· ∈ parts) Eq after later) :
    Own commitId parts later.world := by
  intro part hsent hid
  rcases hwaits.link.sent part hsent with hold | hnew
  · exact absurd (h.fresh part hold hid) List.not_mem_nil
  · exact hnew

-- What one call of `commit` can do once the commit id is drawn.
theorem commitChanges_cases (setup : Net.Setup) (timeout : Nat) {before : Database Net}
    (hready : before.source.link.Ready NoCommit) :
    ∃ commitId parts begun, Begun before commitId parts begun ∧
      ((commitChanges (Net.env setup) timeout before).1 ≠ .ok () ∧
          Waits (· ∈ parts) Eq begun (commitChanges (Net.env setup) timeout before).2 ∨
        ∃ version time mid, Waits (· ∈ parts) Eq begun mid ∧
          Applied before.remote.version commitId version mid.source.link ∧
          commitChanges (Net.env setup) timeout before =
            commitDone (Net.env setup) parts.length time commitId version mid) := by
  obtain ⟨commitId, parts, begun, hbegin, hbegun⟩ := commitBegin_spec setup hready
  refine ⟨commitId, parts, begun, hbegun, ?_⟩
  have hparts : PartsOf begun.remote.version commitId parts := by
    rw [hbegun.remote]
    exact hbegun.partsOf
  have hbase : begun.remote.version = before.remote.version := by rw [hbegun.remote]
  rw [commitChanges, bind_ok _ hbegin]
  have hstart : Waits (· ∈ parts) Eq begun begun := Waits.refl hbegun.ready
  have hnow := onLink_moved (now_moved (ε := Broken) setup) lasting_true begun ⟨hstart, trivial⟩
  dsimp only
  rw [bind_apply]
  generalize onLink (Client.now (Net.env setup)) begun = run at hnow ⊢
  rcases run with ⟨started | _ | _, db⟩
  · have hrounds := commitRounds_spec setup hparts (started + timeout) (Net.env setup).fuel db hnow.1
    dsimp only
    rw [bind_apply]
    generalize Prog.loop (commitRound (Net.env setup) parts commitId (started + timeout))
      (Net.env setup).fuel () db = run at hrounds ⊢
    rcases run with ⟨version | _ | _, db'⟩
    · have hend := onLink_moved (now_moved (ε := Broken) setup)
        (lasting_applied begun.remote.version commitId version) db' hrounds
      dsimp only
      rw [bind_apply]
      generalize onLink (Client.now (Net.env setup)) db' = run at hend ⊢
      rcases run with ⟨ended | _ | _, mid⟩
      · exact Or.inr ⟨version, ended - started, mid, hend.1, hbase ▸ hend.2, rfl⟩
      · exact Or.inl ⟨by simp, hend.1⟩
      · exact Or.inl ⟨by simp, hend.1⟩
    · exact Or.inl ⟨by simp, hrounds.1⟩
    · exact Or.inl ⟨by simp, hrounds.1⟩
  · exact Or.inl ⟨by simp, hnow.1⟩
  · exact Or.inl ⟨by simp, hnow.1⟩

-- The database right after the acknowledgement, before the local copy is written.
def published (parts time : Nat) (commitId : Bytes) (version : Nat) (db : Database Net) :
    Database Net where
  pages := db.pages.committed.2
  stats :=
    { db.stats with
      commits := db.stats.commits + 1
      commitFrames := db.stats.commitFrames + parts
      committedBlocks := db.stats.committedBlocks + db.pages.dirtyBlocks.length
      committedBytes := db.stats.committedBytes + db.pages.dirtyBlocks.length * db.pages.pageSize
      commitTime := db.stats.commitTime + time
      maxCommitTime := max db.stats.maxCommitTime time }
  source :=
    { remote :=
        { db.remote with version := version, lastCommitId := commitId, pendingCommit := none }
      link := db.source.link }

theorem commitDone_eq (setup : Net.Setup) (parts time : Nat) (commitId : Bytes) (version : Nat)
    (db : Database Net) :
    commitDone (Net.env setup) parts time commitId version db =
      (do
        Remote.writeCopy (Net.env setup) db.pages.dirty.elems
        Prog.modify (Held.makeRoom 0)
        Prog.modify Held.count : Prog (Database Net) Broken Unit)
      (published parts time commitId version db) := rfl

theorem commitDone_loads (setup : Net.Setup) {P : Pb.Commit → Prop} (parts time : Nat)
    (commitId : Bytes) (version : Nat) {db : Database Net} (hready : db.source.link.Ready P) :
    Loads P (published parts time commitId version db)
      (commitDone (Net.env setup) parts time commitId version db).2 := by
  rw [commitDone_eq]
  refine Moves.bind (Remote.writeCopy_loaded setup _) (fun _ => Moves.bind ?_ fun _ => ?_) _ hready
  · exact source_loaded (fun _ => rfl) fun db => Pages.shape_makeRoom db.pages 0 db.stats
  · exact source_loaded (fun _ => rfl) fun db => Pages.SameShape.refl db.pages

theorem commitDone_raises (setup : Net.Setup) {errors : Broken → Prop} (parts time : Nat)
    (commitId : Bytes) (version : Nat) :
    Raises errors (commitDone (Net.env setup) parts time commitId version) := by
  intro db reason
  rw [commitDone_eq]
  exact Raises.bind (Remote.writeCopy_raises _ _) (fun _ => Raises.bind (Raises.modify _) fun _ =>
    Raises.modify _) _ reason

-- A commit that was given up: only the connection and the pending commit changed.
structure Halted (before after : Database Net) : Prop where
  ready : after.source.link.Ready NoCommit
  later : before.world.Later after.world
  disk : after.world.disk = before.world.disk
  pages : after.pages = before.pages
  remote : ∃ login broken pending, after.remote =
    { before.remote with login := login, broken := broken, pendingCommit := pending }

theorem Begun.halted {before begun after : Database Net} {commitId : Bytes} {parts : List Pb.Commit}
    (h : Begun before commitId parts begun) (hwaits : Waits (· ∈ parts) Eq begun after) :
    Halted before after := by
  obtain ⟨login, broken, hremote⟩ := hwaits.remote
  exact ⟨hwaits.link.ready.noCommit, h.kept.later.trans hwaits.link.later,
    (h.kept.disk.trans hwaits.link.disk).symm, hwaits.pages.trans h.pages, login, broken, some commitId,
    by rw [hremote, h.remote]⟩

-- What one call of `commit` can do.
theorem commit_cases (setup : Net.Setup) (timeout : Nat) {before : Database Net}
    (hready : before.source.link.Ready NoCommit) :
    (before.remote.broken = none ∧ before.pages.isClean = true ∧
        commit (Net.env setup) timeout before = (.ok (), before)) ∨
      ((commit (Net.env setup) timeout before).1 ≠ .ok () ∧
        Halted before (commit (Net.env setup) timeout before).2) ∨
      before.remote.broken = none ∧ ∃ commitId parts begun version time mid,
        Begun before commitId parts begun ∧ Waits (· ∈ parts) Eq begun mid ∧
          Applied before.remote.version commitId version mid.source.link ∧
          commit (Net.env setup) timeout before =
            commitDone (Net.env setup) parts.length time commitId version mid := by
  have hrefl : Halted before before := ⟨hready, Net.Later.refl _, rfl, rfl, before.remote.login,
    before.remote.broken, before.remote.pendingCommit, rfl⟩
  unfold commit unlessBroken
  rw [get_bind]
  cases hbroken : before.remote.broken with
  | some broken => exact Or.inr (Or.inl ⟨by simp, hrefl⟩)
  | none =>
      dsimp only
      rw [get_bind]
      split_ifs with hclean hrevoked
      · exact Or.inl ⟨rfl, hclean, rfl⟩
      · exact Or.inr (Or.inl ⟨by simp [breakWith], hready, Net.Later.refl _, rfl, rfl, before.remote.login,
          some .Fenced, before.remote.pendingCommit, rfl⟩)
      · obtain ⟨commitId, parts, begun, hbegun, ⟨hne, hwaits⟩ | ⟨version, time, mid, hwaits, happlied, heq⟩⟩ :=
          commitChanges_cases setup timeout hready
        · exact Or.inr (Or.inl ⟨hne, hbegun.halted hwaits⟩)
        · exact Or.inr (Or.inr ⟨rfl, commitId, parts, begun, version, time, mid, hbegun, hwaits,
            happlied, heq⟩)

end Database

end RemoteVfs
