import RemoteVfs.Client.Frames
import RemoteVfs.Network.Client

namespace RemoteVfs

open Base Base.Prog

-- The blocks of some ranges with their indexes.
def Image.slices (image : Image) (ranges : List (Nat × Nat)) : List (Nat × Bytes) :=
  ranges.flatMap fun range => (List.range' range.1 range.2).map fun i => (i, image.block i)

namespace Server

theorem flatten_cut {α : Type} (cuts : List Nat) (list : List α) : (cut cuts list).flatten = list := by
  induction cuts generalizing list with
  | nil => simp [cut]
  | cons size sizes ih =>
      unfold cut
      split_ifs
      · simp [ih]
      · simp

-- Cutting a run gives runs.
theorem cut_range' (cuts : List Nat) (first count : Nat) :
    ∀ run ∈ cut cuts (List.range' first count), ∃ a n, run = List.range' a n := by
  induction cuts generalizing first count with
  | nil =>
      intro run hrun
      rw [cut, List.mem_singleton] at hrun
      exact ⟨first, count, hrun⟩
  | cons size sizes ih =>
      intro run hrun
      unfold cut at hrun
      split_ifs at hrun with hsize
      · obtain ⟨k, -, htake, hdrop⟩ := List.range'_eq_append_iff.mp
          (List.take_append_drop size (List.range' first count)).symm
        rw [htake, hdrop] at hrun
        rcases List.mem_cons.mp hrun with rfl | hrest
        · exact ⟨first, k, rfl⟩
        · exact ih _ _ run hrest
      · rw [List.mem_singleton] at hrun
        exact ⟨first, count, hrun⟩

theorem unpack_run (image : Image) (a n first : Nat) :
    Client.unpack ⟨(List.range' a n).headD first, (List.range' a n).map image.block, false⟩ =
      (List.range' a n).map fun i => (i, image.block i) := by
  apply List.ext_getElem?
  intro i
  simp only [Client.unpack, List.getElem?_mapIdx, List.getElem?_map]
  by_cases hi : i < n
  · obtain ⟨m, rfl⟩ : ∃ m, n = m + 1 := ⟨n - 1, by omega⟩
    rw [List.getElem?_range' hi]
    simp [List.range'_succ]
  · rw [List.getElem?_eq_none (by simpa using hi)]
    rfl

theorem unpack_pieces (cuts : List Nat) (image : Image) (first count : Nat) :
    ((pieces cuts image first count).flatMap fun piece =>
      Client.unpack ⟨piece.1, piece.2, false⟩) =
        (List.range' first count).map fun i => (i, image.block i) := by
  have hruns := cut_range' cuts first count
  conv_rhs => rw [← flatten_cut cuts (List.range' first count)]
  unfold pieces
  generalize cut cuts (List.range' first count) = runs at hruns ⊢
  induction runs with
  | nil => rfl
  | cons run rest ih =>
      obtain ⟨a, n, rfl⟩ := hruns run List.mem_cons_self
      rw [List.map_cons, List.flatMap_cons, unpack_run, List.flatten_cons, List.map_append,
        ih fun r hr => hruns r (List.mem_cons_of_mem _ hr)]

theorem unpack_frames (pieces : List (Nat × List Bytes)) :
    (frames pieces).flatMap Client.unpack =
      pieces.flatMap fun piece => Client.unpack ⟨piece.1, piece.2, false⟩ := by
  rw [List.flatMap_def, List.flatMap_def]
  congr 1
  apply List.ext_getElem?
  intro i
  simp only [frames, List.getElem?_map, List.getElem?_mapIdx, Option.map_map]
  rfl

-- The frames of a fetch hold the blocks of its ranges in order.
theorem unpack_pages (cuts : List Nat) (image : Image) (fetch : Pb.Fetch) :
    (pages cuts image fetch).flatMap Client.unpack = image.slices (ranges fetch) := by
  rw [pages, unpack_frames, List.flatMap_assoc, Image.slices]
  congr 1
  funext range
  exact unpack_pieces cuts image range.1 range.2

theorem last_frames {pieces : List (Nat × List Bytes)} {i : Nat} {pages : Pb.Pages}
    (h : (frames pieces)[i]? = some pages) (hlast : pages.last = true) :
    i + 1 = (frames pieces).length := by
  simp only [frames, List.getElem?_mapIdx, Option.map_eq_some_iff] at h
  obtain ⟨piece, -, rfl⟩ := h
  simpa [frames] using hlast

end Server

namespace Net

variable {net : Net} {n : Nat}

-- What was received is the beginning of what the server answered.
theorem heard_prefix (h : net.Wf n) {id stamp : Nat} (hid : id ≠ 0) {body : Pb.ClientBody}
    (hasked : net.asked id = some (body, stamp)) (hne : net.heard id ≠ []) :
    ∃ bodies, net.server.Answers stamp body bodies ∧ net.heard id <+: Conn.framed id bodies := by
  unfold heard at hne ⊢
  cases hlast : (net.conns.map Conn.seen).getLast? with
  | none => rw [hlast] at hne; exact absurd rfl hne
  | some seen =>
      rw [hlast] at hne
      obtain ⟨conn, hconn, rfl⟩ := List.mem_map.mp (List.mem_of_getLast? hlast)
      obtain ⟨frame, hframe⟩ := List.exists_mem_of_ne_nil _ hne
      obtain ⟨hseen, heq⟩ := List.mem_filter.mp hframe
      simp only [decide_eq_true_eq] at heq
      obtain ⟨-, bodies, -, -, hanswers, hreplies⟩ :=
        h.truth hconn (List.mem_of_mem_take hseen) (heq ▸ hid) (heq ▸ hasked)
      refine ⟨bodies, hanswers, ?_⟩
      rw [heq] at hreplies
      rw [← hreplies]
      exact (List.take_prefix _ _).filter _

end Net

namespace Link

variable {P : Pb.Commit → Prop} {D : Disk → Disk → Prop} [IsPreorder Disk D] (setup : Net.Setup)

-- `blocks` are the blocks of the frames received so far.
def Collected (id : Nat) (blocks : List (Nat × Bytes)) (link : Link Net) : Prop :=
  ∃ frames : List Pb.Pages, link.world.heard id = Conn.framed id (frames.map .Pages) ∧
    blocks = (frames.flatMap Client.unpack).map Client.wrapped

-- The blocks are those of the requested version.
def Fetched (fetch : Pb.Fetch) (blocks : List (Nat × Bytes)) (link : Link Net) : Prop :=
  fetch.version ≤ link.world.server.version ∧
    blocks = ((link.world.server.imageAt fetch.version).slices (Server.ranges fetch)).map Client.wrapped

-- The frame marked as the last one completes the answer.
theorem Collected.fetched {link : Link Net} (hready : link.Ready P) {id version : Nat} (hid : id ≠ 0)
    {fetch : Pb.Fetch} (hasks : Asks version id (.Fetch fetch) link) {frames : List Pb.Pages}
    {pages : Pb.Pages} (hlast : pages.last = true)
    (hheard : link.world.heard id = Conn.framed id ((frames ++ [pages]).map .Pages)) :
    Fetched fetch (((frames ++ [pages]).flatMap Client.unpack).map Client.wrapped) link := by
  obtain ⟨stamp, -, hasked⟩ := hasks
  obtain ⟨bodies, hanswers, hprefix⟩ :=
    Net.heard_prefix hready.wf hid hasked (by rw [hheard]; simp [Conn.framed])
  have hinj : Function.Injective fun body : Pb.ServerBody => (⟨id, some body⟩ : Pb.ServerFrame) := by
    intro a b hab
    simpa using hab
  rw [hheard, Conn.framed, Conn.framed, List.prefix_map_iff_of_injective hinj] at hprefix
  rcases hanswers with rfl | ⟨e, rfl⟩ | ⟨hversion, cuts, rfl⟩
  · simp at hprefix
  · have := hprefix.subset (List.mem_map_of_mem (List.mem_append_right _ (List.mem_singleton_self pages)))
    simp at this
  · have hpages : frames ++ [pages] <+: Server.pages cuts
        (link.world.server.imageAt fetch.version) fetch := by
      refine (List.prefix_map_iff_of_injective fun a b hab => ?_).mp hprefix
      simpa using hab
    have hget : (Server.pages cuts (link.world.server.imageAt fetch.version) fetch)[frames.length]? =
        some pages := by
      obtain ⟨rest, hrest⟩ := hpages
      rw [← hrest]
      simp
    have hlength := Server.last_frames hget hlast
    have heq := hpages.eq_of_length (by rw [List.length_append, List.length_singleton]; exact hlength)
    refine ⟨hversion, ?_⟩
    rw [heq, Server.unpack_pages]

theorem fetchStep_spec (start : Link Net) {fact : Link Net → Prop} (hfact : Lasting fact)
    (fetch : Pb.Fetch) {id : Nat} (hid : id ≠ 0) (expected blockSize : Nat)
    (blocks : List (Nat × Bytes)) :
    Triple (fun link => Kept P D start link ∧
        (fact link ∧ Asks start.world.server.version id (.Fetch fetch) link) ∧ Collected id blocks link)
      (Client.fetchStep (Net.env setup) id expected blockSize blocks)
      (Ends (Kept P D start) (orDone
        (fun blocks link => (fact link ∧ Asks start.world.server.version id (.Fetch fetch) link) ∧
          Collected id blocks link)
        fun blocks link => fact link ∧ Fetched fetch blocks link)) := by
  rintro link ⟨hkept, hlink, frames, hheard, rfl⟩
  have hasks := hfact.and (lasting_asks start.world.server.version id (.Fetch fetch))
  refine Ends.bind (receive_spec setup start hasks hid _) (fun frame => ?_) link ⟨hkept, hlink, hheard⟩
  refine Triple.ite (fun hother => Ends.pure ?_) fun hother => ?_
  · rintro link ⟨hkept, hlink, -, hheard⟩
    rw [if_neg hother, List.append_nil] at hheard
    exact ⟨hkept, hlink, frames, hheard, rfl⟩
  · rw [not_not] at hother
    obtain ⟨requestId, body⟩ := frame
    obtain rfl : requestId = id := hother
    rcases body with _ | body
    · exact Ends.fail fun _ h => h.1
    cases body with
    | Pages pages =>
        dsimp only
        cases pages.blocks.find? (·.length ≠ blockSize) with
        | some data => exact Ends.fail fun _ h => h.1
        | none =>
            have hnext : Conn.framed requestId (frames.map .Pages) ++ [⟨requestId, some (.Pages pages)⟩] =
                Conn.framed requestId ((frames ++ [pages]).map .Pages) := by simp [Conn.framed]
            have hunpack : (frames.flatMap Client.unpack).map Client.wrapped ++
                  pages.blocks.mapIdx (fun offset data => ((pages.firstBlock + offset) % 2 ^ 64, data)) =
                ((frames ++ [pages]).flatMap Client.unpack).map Client.wrapped := by
              rw [Client.mapIdx_wrapped]
              simp
            refine Triple.ite (fun hlast => Triple.ite (fun _ => Ends.fail fun _ h => h.1) fun _ =>
              Ends.pure ?_) fun _ => Ends.pure ?_
            · rintro link ⟨hkept, hlink, -, hheard⟩
              rw [if_pos rfl, hnext] at hheard
              refine ⟨hkept, hlink.1, ?_⟩
              have hfetched := Collected.fetched hkept.ready hid hlink.2 hlast hheard
              rw [← hunpack] at hfetched
              exact hfetched
            · rintro link ⟨hkept, hlink, -, hheard⟩
              rw [if_pos rfl, hnext] at hheard
              exact ⟨hkept, hlink, frames ++ [pages], hheard, hunpack⟩
    | Error e => exact Ends.fail fun _ h => h.1
    | _ => exact Ends.fail fun _ h => h.1

theorem fetchFrames_spec (start : Link Net) {fact : Link Net → Prop} (hfact : Lasting fact)
    (fetch : Pb.Fetch) (expected blockSize : Nat) :
    Triple (fun link => Kept P D start link ∧ fact link)
      (Client.fetchFrames (Net.env setup) fetch expected blockSize)
      (Ends (Kept P D start) fun blocks link => fact link ∧ Fetched fetch blocks link) := by
  refine Ends.bind (send_triple setup (by simp) start hfact) fun id => ?_
  rintro link ⟨hkept, hlink, hid, hheard⟩
  exact Ends.loop _ (fun blocks => fetchStep_spec setup start hfact fetch hid expected blockSize blocks)
    _ [] link ⟨hkept, hlink, [], hheard, rfl⟩

theorem note_moved (ranges : List (Nat × Nat)) :
    Moves (Moved P D) (Client.note ranges : Prog (Link Net) ClientError Unit) :=
  client_moved fun _ => le_refl _

theorem fetchFrames_moved (fetch : Pb.Fetch) (expected blockSize : Nat) :
    Moves (Moved P D) (Client.fetchFrames (Net.env setup) fetch expected blockSize) :=
  moved_of_triple fun start => (fetchFrames_spec setup start lasting_true fetch expected blockSize).mono
    (fun _ h => ⟨h, trivial⟩) fun _ _ h => h

theorem fetch_moved (fetch : Pb.Fetch) (blockSize : Nat) :
    Moves (Moved P D) (Client.fetch (Net.env setup) fetch blockSize) :=
  Moves.bind (note_moved _) fun _ => Moves.bind (fetchFrames_moved setup _ _ _) fun _ => Moves.pure _

theorem fetchRanges_moved (dbId : String) (version : Nat) (ranges : List (Nat × Nat))
    (blockSize : Nat) :
    Moves (Moved P D) (Client.fetchRanges (Net.env setup) dbId version ranges blockSize) :=
  Moves.bind (note_moved _) fun _ => fetchFrames_moved setup _ _ _

theorem fetch_spec (start : Link Net) {fact : Link Net → Prop} (hfact : Lasting fact)
    (fetch : Pb.Fetch) (hranges : fetch.ranges = []) (blockSize : Nat) :
    Triple (fun link => Kept P D start link ∧ fact link)
      (Client.fetch (Net.env setup) fetch blockSize)
      (Ends (Kept P D start) fun blocks link => fact link ∧
        fetch.version ≤ link.world.server.version ∧ blocks =
          (List.range' fetch.firstBlock fetch.count).map
            (link.world.server.imageAt fetch.version).block) := by
  refine Ends.bind (Kept.triple (note_moved _) start hfact) fun _ => ?_
  refine Ends.bind (fetchFrames_spec setup start hfact fetch fetch.count blockSize) fun blocks => ?_
  refine Ends.pure ?_
  rintro link ⟨hkept, hlink, hversion, rfl⟩
  refine ⟨hkept, hlink, hversion, ?_⟩
  simp [Image.slices, Server.ranges, hranges, Client.wrapped]

theorem fetchRanges_spec (start : Link Net) {fact : Link Net → Prop} (hfact : Lasting fact)
    (dbId : String) (version : Nat) (ranges : List (Nat × Nat)) (hne : ranges ≠ [])
    (hfits : ∀ range ∈ ranges, range.1 + range.2 ≤ 2 ^ 64) (blockSize : Nat) :
    Triple (fun link => Kept P D start link ∧ fact link)
      (Client.fetchRanges (Net.env setup) dbId version ranges blockSize)
      (Ends (Kept P D start) fun blocks link => fact link ∧
        version ≤ link.world.server.version ∧
          blocks = (link.world.server.imageAt version).slices ranges) := by
  refine Ends.bind (Kept.triple (note_moved _) start hfact) fun _ => ?_
  refine Ends.mono (fetchFrames_spec setup start hfact _ _ blockSize) (fun _ h => h) ?_
  rintro blocks link - ⟨hlink, hversion, rfl⟩
  refine ⟨hlink, hversion, ?_⟩
  have hranges : Server.ranges ⟨dbId, version, 0, 0, ranges.map fun range =>
      (⟨range.1, range.2⟩ : Pb.Range)⟩ = ranges := by
    simp [Server.ranges, hne, Function.comp_def]
  rw [hranges, Client.wrapped_of_fits]
  intro entry hentry
  unfold Image.slices at hentry
  simp only [List.mem_flatMap, List.mem_map, List.mem_range'_1] at hentry
  obtain ⟨range, hrange, i, hi, rfl⟩ := hentry
  have := hfits range hrange
  change i < 2 ^ 64
  omega

end Link

end RemoteVfs
