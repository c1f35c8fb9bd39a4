import RemoteVfs.Session.Run

namespace RemoteVfs.Session

open Base Base.Prog Link

-- The commit of `before` is in the server's log once, directly on top of the version that
-- the client had, with its dirty blocks and its page count.
structure Committed (before : Database Net) (commitId : Bytes) (server : Server) : Prop where
  once : ∃ parts, AppliedOnce server before.remote.version commitId parts ∧
    (∀ part ∈ parts, part.commitId = commitId ∧ part.pageCount = before.pages.pageCount) ∧
    parts.flatMap (·.blocks) = before.pages.dirtyBlocks.map fun entry => ⟨entry.1, entry.2⟩
  image : server.imageAt (before.remote.version + 1) =
    (server.imageAt before.remote.version).store before.pages.pageCount
      (before.pages.dirtyBlocks.map fun entry => ⟨entry.1, entry.2⟩)
  lastCommitId : Server.lastCommitId (server.log.take (before.remote.version + 1)) = commitId

theorem committed_of_own {before : Database Net} {net : Net} {n k : Nat} (hwf : net.Wf n)
    {maxFrameBytes : Nat} {parts : List Pb.Commit}
    (hparts : parts = before.remote.parts before.pages (net.ids k) maxFrameBytes)
    (hown : Own (net.ids k) parts net) {entry : Entry}
    (hentry : net.server.log[before.remote.version]? = some entry)
    (hid : entry.commitId = net.ids k) : Committed before (net.ids k) net.server := by
  subst hparts
  have hof : Database.PartsOf before.remote.version (net.ids k)
      (before.remote.parts before.pages (net.ids k) maxFrameBytes) :=
    ⟨fun _ hpart => (Remote.mem_parts _ _ _ _ hpart).1,
      fun _ hpart => (Remote.mem_parts _ _ _ _ hpart).2.1⟩
  have honce := applied_once hwf hown hof (fun i part => Remote.getElem?_parts _ _ _ _) hentry hid
  refine ⟨⟨_, honce, fun part hpart => ⟨hof.commitId part hpart, (Remote.mem_parts _ _ _ _ hpart).2.2⟩,
    Remote.blocks_parts _ _ _ _⟩, ?_, ?_⟩
  · have hne := (hwf.log _ _ honce.applied).chain.ne_nil
    obtain ⟨first, rest, hcons⟩ := List.exists_cons_of_ne_nil hne
    have hcount := (Remote.mem_parts before.remote before.pages (net.ids k) maxFrameBytes
      (hcons ▸ List.mem_cons_self)).2.2
    rw [Server.imageAt_succ _ honce.applied, Image.apply, Remote.blocks_parts, hcons]
    simp only [List.head?_cons, Option.map_some, Option.getD_some, hcount]
  · obtain ⟨last, hlast, hcommitId⟩ :=
      Database.lastCommitId_take (List.getElem?_eq_some_iff.mp honce.applied).1
    rw [hcommitId]
    rw [hentry] at hlast
    cases hlast
    exact hid

-- A commit that changed something and returned without an error: it was sent under the
-- commit id that was drawn as number `k`, and `mid` is the database right before the
-- acknowledged version is taken over.
structure Acknowledged (setup : Net.Setup) (db : Database Net) (k : Nat) (mid after : Database Net) :
    Prop where
  unbroken : db.remote.broken = none
  low : db.world.drawn ≤ k
  high : k < after.world.drawn
  ids : after.world.ids = db.world.ids
  ready : mid.source.link.Ready NoCommit
  later : db.world.Later mid.world
  disk : mid.world.disk = db.world.disk
  pages : mid.pages = db.pages
  remote : ∃ login broken pending,
    mid.remote = { db.remote with login := login, broken := broken, pendingCommit := pending }
  done : ∃ parts time, Database.commitDone (Net.env setup) parts time (db.world.ids k)
    (db.remote.version + 1) mid = (.ok (), after)
  -- The network may move on: what was sent stays the same.
  committed : ∀ net n, net.Wf n → mid.world.Later net → (∀ part, net.asked.Sent part →
    mid.world.asked.Sent part) → Committed db (db.world.ids k) net.server

theorem commit_acknowledged (setup : Net.Setup) {db after : Database Net}
    (hready : db.source.link.Ready NoCommit) (timeout : Nat)
    (hcommit : Database.commit (Net.env setup) timeout db = (.ok (), after)) :
    (db.remote.broken = none ∧ db.pages.isClean = true ∧ after = db) ∨
      ∃ k mid, Acknowledged setup db k mid after := by
  rcases Database.commit_cases setup timeout hready with ⟨hbroken, hclean, heq⟩ | ⟨hne, -⟩ |
    ⟨hunbroken, commitId, parts, begun, version, time, mid, hbegun, hwaits, happlied, heq⟩
  · rw [hcommit] at heq
    cases heq
    exact Or.inl ⟨hbroken, hclean, rfl⟩
  · rw [hcommit] at hne
    exact absurd rfl hne
  have hloads := Database.commitDone_loads setup parts.length time commitId version
    hwaits.link.ready.noCommit
  rw [← heq, hcommit] at hloads
  obtain ⟨k, hlow, hhigh, hid⟩ := hbegun.drawn
  have hlater : begun.world.Later after.world := hwaits.link.later.trans hloads.link.later
  have hcommitId : commitId = db.world.ids k := hid.trans (congrFun hbegun.kept.later.ids k)
  obtain ⟨rfl, entry, hentry, hentryId⟩ := happlied
  have hids : mid.world.ids = db.world.ids := hwaits.link.later.ids.trans hbegun.kept.later.ids
  refine Or.inr ⟨k, mid, hunbroken, hlow, Nat.lt_of_lt_of_le hhigh hlater.drawn,
    hloads.link.later.ids.trans hids, hwaits.link.ready.noCommit,
    hbegun.kept.later.trans hwaits.link.later, (hbegun.kept.disk.trans hwaits.link.disk).symm,
    hwaits.pages.trans hbegun.pages, ?_,
    ⟨parts.length, time, by rw [← hcommitId, ← heq, hcommit]⟩, ?_⟩
  · obtain ⟨login, broken, hremote⟩ := hwaits.remote
    exact ⟨login, broken, some commitId, by rw [hremote, hbegun.remote]⟩
  · intro net n hwf hnet hsent
    have hnetids : net.ids k = db.world.ids k := congrFun (hnet.ids.trans hids) k
    have hparts : parts = db.remote.parts db.pages (net.ids k) db.client.limits.maxFrameBytes := by
      rw [hnetids, ← hcommitId]
      exact hbegun.parts
    rw [← hnetids]
    refine committed_of_own hwf hparts ?_ (hnet.ext.getElem? hentry) ?_
    · rw [hnetids, ← hcommitId]
      exact fun part hpart => hbegun.own hwaits part (hsent part hpart)
    · rw [hentryId, hcommitId, hnetids]

-- What is left to do after the acknowledgement.
theorem Acknowledged.loads {setup : Net.Setup} {db mid after : Database Net} {k : Nat}
    (h : Acknowledged setup db k mid after) : ∃ parts time, Database.Loads NoCommit
      (Database.published parts time (db.world.ids k) (db.remote.version + 1) mid) after := by
  obtain ⟨parts, time, hdone⟩ := h.done
  have hloads := Database.commitDone_loads setup parts time (db.world.ids k) (db.remote.version + 1)
    h.ready
  rw [hdone] at hloads
  exact ⟨parts, time, hloads⟩

-- A commit that returns without an error was applied exactly once, also if frames of
-- broken connections arrive later.
theorem commit_exactly_once (setup : Net.Setup) {options : OpenOptions} {db : Database Net}
    (h : Reached setup (Opened setup options) anyOp db) (timeout : Nat) {after : Database Net}
    (hcommit : Database.commit (Net.env setup) timeout db = (.ok (), after)) :
    db.pages.isClean = true ∧ after = db ∨
      ∃ k, db.world.drawn ≤ k ∧ k < after.world.drawn ∧
        after.remote.version = db.remote.version + 1 ∧
        after.remote.lastCommitId = db.world.ids k ∧
        Committed db (db.world.ids k) after.world.server ∧
        ∀ moves : List Move, (∀ move ∈ moves, ∀ commitId pageCount blocks,
            move = .Commit commitId pageCount blocks → ∀ k, db.world.ids k ≠ commitId) →
          Committed db (db.world.ids k) (after.world.moves moves).server := by
  obtain ⟨-, hclean, heq⟩ | ⟨k, mid, hack⟩ := commit_acknowledged setup (h.live setup).ready timeout hcommit
  · exact Or.inl ⟨hclean, heq⟩
  right
  obtain ⟨parts, time, hloads⟩ := hack.loads
  obtain ⟨login, broken, copy, hremote⟩ := hloads.remote
  have hsent : ∀ part, after.world.asked.Sent part → mid.world.asked.Sent part :=
    fun part hpart => (hloads.link.sent part hpart).resolve_right id
  refine ⟨k, hack.low, hack.high, by rw [hremote]; rfl, by rw [hremote]; rfl, ?_, ?_⟩
  · exact hack.committed _ _ hloads.link.ready.wf hloads.link.later hsent
  · intro moves hmoves
    rw [← hack.ids] at hmoves
    obtain ⟨hwf, hmoved⟩ := Net.moves_wf hloads.link.ready.wf moves hmoves
    refine hack.committed _ _ hwf (hloads.link.later.trans hmoved) fun part hpart => hsent part ?_
    rw [(Net.moves_same after.world moves).asked] at hpart
    exact hpart

-- One byte is written to an empty database and committed.
theorem commit_exactly_once_one_block :
    ∃ db after, sample calm sampleOptions [.Write 0 [1]] = some db ∧
      Database.commit (Net.env sampleSetup) 0 db = (.ok (), after) ∧
      after.remote.version = 1 ∧ db.pages.dirtyBlocks.length = 1 ∧
      Committed db [0] after.world.server := by
  have hfacts : (sample calm sampleOptions [.Write 0 [1]]).any (fun db =>
      decide ((Database.commit (Net.env sampleSetup) 0 db).1 = .ok () ∧
        (Database.commit (Net.env sampleSetup) 0 db).2.world.drawn = 1 ∧
        db.pages.isClean = false ∧ db.pages.dirtyBlocks.length = 1 ∧ db.remote.version = 0 ∧
        db.world.ids 0 = [0])) = true := by decide +kernel
  obtain ⟨db, hdb, hfacts⟩ := (Option.any_eq_true _ _).mp hfacts
  rw [decide_eq_true_eq] at hfacts
  obtain ⟨hok, hdrawn, hclean, hdirty, hversion, hids⟩ := hfacts
  have hcommit : Database.commit (Net.env sampleSetup) 0 db =
      (.ok (), (Database.commit (Net.env sampleSetup) 0 db).2) := Prod.ext hok rfl
  rcases commit_exactly_once sampleSetup (sample_reached calm_fresh
      (fun _ _ _ => trivial) hdb) 0 hcommit with
    ⟨hclean', -⟩ | ⟨k, -, hk, hafter, -, hcommitted, -⟩
  · rw [hclean] at hclean'
    cases hclean'
  · obtain rfl : k = 0 := by omega
    rw [hids] at hcommitted
    exact ⟨db, _, hdb, hcommit, by rw [hafter, hversion], hdirty, hcommitted⟩

end RemoteVfs.Session
