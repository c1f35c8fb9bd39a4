import RemoteVfs.Client
import RemoteVfs.Base.Program.Rules

namespace RemoteVfs.Client

open Base Base.Prog Link

variable {ω : Type} {E : Env ω}

section Sized

-- Blocks of the size that was asked for.
def Sized (blockSize : Nat) (blocks : List (Nat × Bytes)) : Prop :=
  ∀ entry ∈ blocks, entry.2.length = blockSize

theorem Sized.append {blockSize : Nat} {blocks more : List (Nat × Bytes)} (h : Sized blockSize blocks)
    (hmore : Sized blockSize more) : Sized blockSize (blocks ++ more) := by
  intro entry hentry
  rcases List.mem_append.mp hentry with hentry | hentry
  · exact h entry hentry
  · exact hmore entry hentry

-- A list in which no block of another size was found.
theorem sized_of_find {blockSize : Nat} {blocks : List Bytes}
    (h : blocks.find? (·.length ≠ blockSize) = none) : ∀ data ∈ blocks, data.length = blockSize := by
  intro data hdata
  simpa using List.find?_eq_none.mp h data hdata

theorem Sized.mapIdx {blockSize : Nat} {blocks : List Bytes}
    (h : ∀ data ∈ blocks, data.length = blockSize) (label : Nat → Nat) :
    Sized blockSize (blocks.mapIdx fun offset data => (label offset, data)) := by
  intro entry hentry
  obtain ⟨offset, hoffset, rfl⟩ := List.mem_mapIdx.mp hentry
  exact h _ (List.getElem_mem hoffset)

theorem fetchStep_sized (id expected blockSize : Nat) (blocks : List (Nat × Bytes)) :
    Triple (fun _ => True ∧ Sized blockSize blocks) (fetchStep E id expected blockSize blocks)
      (Ends (fun _ => True) (orDone (fun blocks _ => Sized blockSize blocks)
        fun blocks _ => blocks.length = expected ∧ Sized blockSize blocks)) := by
  rintro link ⟨-, hsized⟩
  refine Ends.bind (Ends.any (receive E)) (fun frame => ?_) link trivial
  refine Triple.ite (fun _ => Ends.pure fun _ _ => ⟨trivial, hsized⟩) fun _ => ?_
  cases frame.body with
  | none => exact Ends.fail fun _ _ => trivial
  | some body =>
      cases body with
      | Pages pages =>
          dsimp only
          cases hfind : pages.blocks.find? (·.length ≠ blockSize) with
          | some data => exact Ends.fail fun _ _ => trivial
          | none =>
              have hmore := hsized.append (Sized.mapIdx (sized_of_find hfind)
                fun offset => (pages.firstBlock + offset) % 2 ^ 64)
              refine Triple.ite (fun _ => Triple.ite (fun _ => Ends.fail fun _ _ => trivial)
                fun hlength => Ends.pure fun _ _ => ⟨trivial, ?_, hmore⟩) fun _ =>
                Ends.pure fun _ _ => ⟨trivial, hmore⟩
              exact Decidable.not_not.mp hlength
      | Error e => exact Ends.fail fun _ _ => trivial
      | _ => exact Ends.fail fun _ _ => trivial

theorem fetchFrames_sized (fetch : Pb.Fetch) (expected blockSize : Nat) :
    Triple (fun _ => True) (fetchFrames E fetch expected blockSize)
      (Ends (fun _ => True) fun blocks _ => blocks.length = expected ∧ Sized blockSize blocks) := by
  refine Ends.bind (Ends.any (send E _)) fun id => ?_
  refine Triple.mono (Ends.loop (fun blocks _ => Sized blockSize blocks)
    (fetchStep_sized id expected blockSize) E.fuel []) (fun _ _ => ⟨trivial, ?_⟩) fun _ _ h => h
  exact fun entry hentry => absurd hentry List.not_mem_nil

-- What a fetch returns: as many blocks as were asked for, all of the right size.
theorem fetch_sized (fetch : Pb.Fetch) (blockSize : Nat) :
    Triple (fun _ => True) (Client.fetch E fetch blockSize) (Ends (fun _ => True) fun blocks _ =>
      blocks.length = fetch.count ∧ ∀ data ∈ blocks, data.length = blockSize) := by
  refine Ends.bind (Ends.any (note _)) fun _ => ?_
  refine Ends.bind (Triple.mono (fetchFrames_sized fetch fetch.count blockSize) (fun _ _ => trivial)
    fun _ _ h => h) fun blocks => Ends.pure ?_
  rintro s ⟨-, hlength, hsized⟩
  refine ⟨trivial, by rw [List.length_map, hlength], fun data hdata => ?_⟩
  obtain ⟨entry, hentry, rfl⟩ := List.mem_map.mp hdata
  exact hsized entry hentry

theorem fetchRanges_sized (dbId : String) (version : Nat) (ranges : List (Nat × Nat)) (blockSize : Nat) :
    Triple (fun _ => True) (fetchRanges E dbId version ranges blockSize)
      (Ends (fun _ => True) fun blocks _ =>
        blocks.length = (ranges.map Prod.snd).sum % 2 ^ 64 ∧ Sized blockSize blocks) := by
  refine Ends.bind (Ends.any (note _)) fun _ => ?_
  exact Ends.mono (fetchFrames_sized _ _ blockSize) (fun _ _ => trivial) fun _ _ _ h => h

end Sized

-- The blocks of a frame with the indexes that the server gives them.
def unpack (pages : Pb.Pages) : List (Nat × Bytes) :=
  pages.blocks.mapIdx fun offset data => (pages.firstBlock + offset, data)

-- The frames of pages that a fetch takes for request `id`, up to the one that ends it, and whether
-- that one is marked as the last. Any other frame for the request ends it with an error, as does a
-- block of another size.
def pagesOf (id blockSize : Nat) : List (Except String Pb.ServerFrame) → List Pb.Pages × Bool
  | [] => ([], false)
  | .error _ :: _ => ([], false)
  | .ok frame :: rest =>
    if frame.requestId ≠ id then pagesOf id blockSize rest
    else
      match frame.body with
      | some (.Pages pages) =>
        if (pages.blocks.find? (·.length ≠ blockSize)).isSome then ([], false)
        else if pages.last then ([pages], true)
        else
          let (more, ended) := pagesOf id blockSize rest
          (pages :: more, ended)
      | _ => ([], false)

-- A transport that delivers the frames of a list one after another and then is closed.
structure Script (E : Env ω) where
  inbox : ω → List (Except String Pb.ServerFrame)
  next : ∀ world frame rest, inbox world = frame :: rest →
    (E.receive world).1 = .ok frame ∧ inbox (E.receive world).2 = rest
  closed : ∀ world, inbox world = [] → ∃ reason, (E.receive world).1 = .err reason
  sent : ∀ frame world, (E.send frame world).1 ≠ .hang ∧ inbox (E.send frame world).2 = inbox world
  clock : ∀ world, inbox (E.now world).2 = inbox world

-- The client has a connection.
def Connected (link : Link ω) : Prop := link.client.connected = true ∧ link.client.socket = true

section Scripted

variable (script : Script E) (all : List (Except String Pb.ServerFrame)) (id blockSize : Nat) (up : Prop)

-- The frames received so far carried these pages for the request, and at most `left` are to come.
-- If the request went out, the connection is still there.
structure Heard (pages : List Pb.Pages) (left : Nat) (link : Link ω) : Prop where
  gone : ∃ seen, all = seen ++ script.inbox link.world
  pages : pagesOf id blockSize all =
    (pages ++ (pagesOf id blockSize (script.inbox link.world)).1,
      (pagesOf id blockSize (script.inbox link.world)).2)
  few : (script.inbox link.world).length ≤ left
  up : up → Connected link

-- The error of a request that the server did not answer with an error.
def Ours : ClientError → Prop
  | .Transport _ | .Protocol _ => True
  | .Server _ | .Token _ => False

-- A frame is the next one, or the connection is gone.
theorem poll_script {rest : List (Except String Pb.ServerFrame)} (link : Link ω)
    (hinbox : script.inbox link.world = rest) :
    match poll E link with
    | (.ok frame, after) => rest = frame :: script.inbox after.world ∧ after.client = link.client
    | (.err reason, _) => Ours reason ∧ rest = []
    | (.hang, _) => False := by
  unfold poll Prog.handle outside Prog.zoom
  cases rest with
  | nil =>
      obtain ⟨reason, hreason⟩ := script.closed link.world hinbox
      generalize E.receive link.world = run at hreason ⊢
      obtain ⟨result, world⟩ := run
      cases hreason
      exact ⟨trivial, rfl⟩
  | cons frame rest =>
      obtain ⟨hnext, hrest⟩ := script.next link.world frame rest hinbox
      generalize E.receive link.world = run at hnext hrest ⊢
      obtain ⟨result, world⟩ := run
      cases hnext
      exact ⟨congrArg (frame :: ·) hrest.symm, rfl⟩

theorem unprompted_ok (frame : Pb.ServerFrame) (link : Link ω) :
    ∃ client, unprompted frame link = (.ok (), { link with client := client }) ∧
      client.connected = link.client.connected ∧ client.socket = link.client.socket := by
  unfold unprompted
  cases frame.body with
  | none => exact ⟨link.client, rfl, rfl, rfl⟩
  | some body =>
      cases body with
      | LeaseRevoked revoked =>
          refine ⟨_, rfl, ?_⟩
          unfold noteRevoked
          dsimp only
          split_ifs
          · exact ⟨rfl, rfl⟩
          · exact ⟨rfl, rfl⟩
          · exact ⟨rfl, rfl⟩
      | _ => exact ⟨_, rfl, rfl, rfl⟩

-- A frame for another request changes nothing.
theorem Heard.skip {pages : List Pb.Pages} {left : Nat} {link after : Link ω} {frame : Pb.ServerFrame}
    (h : Heard script all id blockSize up pages left link)
    (hinbox : script.inbox link.world = .ok frame :: script.inbox after.world)
    (hframe : frame.requestId ≠ id) (hup : up → Connected after) :
    Heard script all id blockSize up pages (script.inbox after.world).length after := by
  obtain ⟨seen, hall⟩ := h.gone
  refine ⟨⟨seen ++ [.ok frame], ?_⟩, ?_, le_refl _, hup⟩
  · rw [hall, hinbox, List.append_assoc, List.singleton_append]
  · have hpages := h.pages
    rwa [hinbox, pagesOf, if_pos hframe] at hpages

-- A frame that is not the last one adds its pages.
theorem Heard.next {pages : List Pb.Pages} {left : Nat} {link after : Link ω} {more : Pb.Pages}
    (h : Heard script all id blockSize up pages left link)
    (hinbox : script.inbox link.world = .ok ⟨id, some (.Pages more)⟩ :: script.inbox after.world)
    (hsized : more.blocks.find? (·.length ≠ blockSize) = none) (hlast : ¬more.last = true)
    (hup : up → Connected after) :
    Heard script all id blockSize up (pages ++ [more]) (script.inbox after.world).length after := by
  obtain ⟨seen, hall⟩ := h.gone
  refine ⟨⟨seen ++ [.ok ⟨id, some (.Pages more)⟩], ?_⟩, ?_, le_refl _, hup⟩
  · rw [hall, hinbox, List.append_assoc, List.singleton_append]
  · have hpages := h.pages
    rw [hinbox, pagesOf, if_neg (not_not.mpr rfl)] at hpages
    dsimp only at hpages
    rw [hsized, if_neg (by simp), if_neg hlast] at hpages
    rw [hpages, List.append_assoc, List.singleton_append]

-- The frame that is returned is the next one that answers a request. Otherwise no more frame comes
-- that ends the fetch.
theorem receive_script (hid : id ≠ 0) {pages : List Pb.Pages} {left : Nat} (hfuel : left < E.fuel) :
    Triple (Heard script all id blockSize up pages left) (receive E) fun o after =>
      match o with
      | .ok frame => ∃ link, Heard script all id blockSize up pages left link ∧ (up → Connected after) ∧
          script.inbox link.world = .ok frame :: script.inbox after.world
      | .err reason => Ours reason ∧ (up → (pagesOf id blockSize all).2 = false)
      | .hang => False := by
  refine Triple.mono (Triple.loopMeasure (fun _ => Heard script all id blockSize up pages left) _
    (fun _ link => (script.inbox link.world).length) (fun _ n => ?_) E.fuel ())
    (fun link hheard => ⟨hheard, Nat.lt_of_le_of_lt hheard.few hfuel⟩) fun _ _ h => h
  rintro link ⟨hheard, rfl⟩
  unfold receiveStep
  rw [gets_bind]
  by_cases hdown : (!link.client.connected || !link.client.socket) = true
  · rw [if_pos hdown]
    refine ⟨trivial, fun hup => ?_⟩
    obtain ⟨hconnected, hsocket⟩ := hheard.up hup
    simp [hconnected, hsocket] at hdown
  rw [if_neg hdown, bind_apply]
  have hpoll := poll_script script link rfl
  have hflag := congrArg Prod.snd hheard.pages
  generalize poll E link = run at hpoll ⊢
  rcases run with ⟨frame | reason | _, after⟩
  · obtain ⟨hinbox, hclient⟩ := hpoll
    have hup : up → Connected after := by
      intro hup
      rw [Connected, hclient]
      exact hheard.up hup
    cases frame with
    | error err =>
        refine ⟨trivial, fun _ => ?_⟩
        rw [hflag, hinbox]
        rfl
    | ok frame =>
        dsimp only
        by_cases hframe : frame.requestId = 0
        · rw [if_pos hframe]
          obtain ⟨client, hdone, hconnected, hsocket⟩ := unprompted_ok frame after
          rw [bind_ok _ hdone]
          have hskip : Heard script all id blockSize up pages (script.inbox after.world).length
              { after with client := client } :=
            hheard.skip script all id blockSize up
              (show _ = _ :: script.inbox (Link.mk client after.world).world from hinbox)
              (by rw [hframe]; exact hid.symm) fun h => by
                rw [Connected, hconnected, hsocket]
                exact hup h
          refine ⟨⟨hskip.gone, hskip.pages, ?_, hskip.up⟩, ?_⟩
          · have hfew := hheard.few
            rw [hinbox, List.length_cons] at hfew
            exact Nat.le_of_succ_le hfew
          · rw [hinbox, List.length_cons]
            exact Nat.lt_succ_self _
        · rw [if_neg hframe]
          exact ⟨link, hheard, hup, hinbox⟩
  · refine ⟨hpoll.1, fun _ => ?_⟩
    rw [hflag, hpoll.2]
    rfl
  · exact hpoll.elim

-- An error that is the server's own only if the server sent it.
def Reported : ClientError → Prop
  | .Server e => .ok ⟨id, some (.Error e)⟩ ∈ all
  | .Token _ => False
  | .Transport _ | .Protocol _ => True

-- The blocks with the indexes that the server gave them.
def sent : List (Nat × Bytes) := (pagesOf id blockSize all).1.flatMap unpack

-- The last frame has come, with as many blocks as expected.
def Complete (expected : Nat) : Prop :=
  (pagesOf id blockSize all).2 = true ∧ (sent all id blockSize).length = expected

-- The index as the client computes it.
def wrapped (entry : Nat × Bytes) : Nat × Bytes := (entry.1 % 2 ^ 64, entry.2)

theorem mapIdx_wrapped (pages : Pb.Pages) :
    (pages.blocks.mapIdx fun offset data => ((pages.firstBlock + offset) % 2 ^ 64, data)) =
      (unpack pages).map wrapped := by
  rw [unpack, List.mapIdx_eq_zipIdx_map, List.mapIdx_eq_zipIdx_map, List.map_map]
  rfl

-- What a fetch comes to: the blocks of a complete answer, or an error.
def Answered (expected : Nat) : Outcome ClientError (List (Nat × Bytes)) → Prop
  | .ok blocks => Complete all id blockSize expected ∧ blocks = (sent all id blockSize).map wrapped
  | .err reason => Reported all id reason ∧ (up → ¬Complete all id blockSize expected)
  | .hang => False

theorem reported_of_ours {reason : ClientError} (h : Ours reason) : Reported all id reason := by
  cases reason with
  | Server e => exact h.elim
  | Token reason => exact h.elim
  | Transport reason => trivial
  | Protocol reason => trivial

theorem fetchStep_script (hid : id ≠ 0) {left : Nat} (hfuel : left < E.fuel) (expected : Nat)
    (pages : List Pb.Pages) :
    Triple (Heard script all id blockSize up pages left)
      (fetchStep E id expected blockSize ((pages.flatMap unpack).map wrapped))
      (andThen (orDone
        (fun blocks link => ∃ next fewer, blocks = (next.flatMap unpack).map wrapped ∧ fewer < left ∧
          Heard script all id blockSize up next fewer link)
        fun blocks _ => Answered all id blockSize up expected (.ok blocks))
        fun o _ => Answered all id blockSize up expected o) := by
  intro start hheard
  unfold fetchStep
  rw [bind_apply]
  have hreceive := receive_script script all id blockSize up hid hfuel start hheard
  generalize receive E start = run at hreceive ⊢
  rcases run with ⟨frame | reason | _, after⟩
  · obtain ⟨link, hlink, hup, hinbox⟩ := hreceive
    have hless : (script.inbox after.world).length < left := by
      have hfew := hlink.few
      rw [hinbox, List.length_cons] at hfew
      exact hfew
    have hflag := congrArg Prod.snd hlink.pages
    dsimp only
    by_cases hother : frame.requestId ≠ id
    · rw [if_pos hother]
      exact ⟨pages, _, rfl, hless, hlink.skip script all id blockSize up hinbox hother hup⟩
    rw [if_neg hother]
    -- Any other frame for the request ends the fetch.
    have hfailed : (pagesOf id blockSize (script.inbox link.world)).2 = false → ∀ reason,
        Reported all id reason → Answered all id blockSize up expected (.err reason) := by
      intro hfalse reason hreported
      refine ⟨hreported, fun _ hcomplete => ?_⟩
      have hended := hcomplete.1
      rw [hflag.trans hfalse] at hended
      cases hended
    rw [hinbox] at hfailed
    obtain ⟨seen, hall⟩ := hlink.gone
    have hpages := hlink.pages
    rw [hinbox] at hall hpages
    obtain ⟨requestId, body⟩ := frame
    rw [not_not] at hother
    simp only at hother
    subst hother
    simp only [pagesOf, ne_eq, not_true_eq_false, if_false] at hfailed hpages
    cases body with
    | none => exact hfailed rfl _ trivial
    | some body =>
        cases body with
        | Pages last =>
            dsimp only at hfailed hpages ⊢
            cases hfind : last.blocks.find? (·.length ≠ blockSize) with
            | some data =>
                rw [hfind] at hfailed
                exact hfailed rfl _ trivial
            | none =>
                rw [hfind] at hpages
                dsimp only
                simp only [Option.isSome_none, Bool.false_eq_true, if_false] at hpages
                have hmore : pages.flatMap unpack ++ unpack last = (pages ++ [last]).flatMap unpack := by
                  rw [List.flatMap_append, List.flatMap_singleton]
                rw [mapIdx_wrapped, ← List.map_append, hmore]
                by_cases hlast : last.last = true
                · rw [if_pos hlast] at hpages ⊢
                  have hsent : sent all requestId blockSize = (pages ++ [last]).flatMap unpack :=
                    congrArg (fun answer => answer.1.flatMap unpack) hpages
                  split_ifs with hlength
                  · refine ⟨trivial, fun _ hcomplete => hlength ?_⟩
                    rw [List.length_map, ← hsent]
                    exact hcomplete.2
                  · rw [not_not, List.length_map, ← hsent] at hlength
                    exact ⟨⟨congrArg Prod.snd hpages, hlength⟩, by rw [hsent]⟩
                · rw [if_neg hlast]
                  exact ⟨pages ++ [last], _, rfl, hless,
                    hlink.next script all requestId blockSize up hinbox hfind hlast hup⟩
        | Error e =>
            have hmem : .ok ⟨requestId, some (.Error e)⟩ ∈ all := by
              rw [hall]
              simp
            exact hfailed rfl _ hmem
        | _ => exact hfailed rfl _ trivial
  · refine ⟨reported_of_ours all id hreceive.1, fun hup hcomplete => ?_⟩
    have hended := hcomplete.1
    rw [hreceive.2 hup] at hended
    cases hended
  · exact hreceive.elim

theorem post_script (frame : Pb.ClientFrame) (link : Link ω) :
    match post E frame link with
    | (.ok _, sent) => script.inbox sent.world = script.inbox link.world ∧ sent.client = link.client
    | (.err reason, _) => Ours reason ∧ (E.send frame link.world).1 ≠ .ok ()
    | (.hang, _) => False := by
  obtain ⟨hends, hinbox⟩ := script.sent frame link.world
  unfold post Prog.handle outside Prog.zoom
  generalize E.send frame link.world = run at hends hinbox ⊢
  rcases run with ⟨_ | _ | _, world⟩
  · exact ⟨hinbox, rfl⟩
  · exact ⟨trivial, nofun⟩
  · exact absurd rfl hends

-- The request goes out.
def Goes (E : Env ω) (body : Pb.ClientBody) (link : Link ω) : Prop :=
  Connected link ∧ (E.send ⟨link.client.nextId + 1, body⟩ link.world).1 = .ok ()

-- The request gets the next id.
theorem send_script (body : Pb.ClientBody) (link : Link ω) :
    match send E body link with
    | (.ok id, sent) => id = link.client.nextId + 1 ∧ script.inbox sent.world = script.inbox link.world ∧
        Connected sent
    | (.err reason, _) => Ours reason ∧ ¬Goes E body link
    | (.hang, _) => False := by
  unfold send
  rw [gets_bind]
  by_cases hdown : (!link.client.connected || !link.client.socket) = true
  · rw [if_pos hdown]
    refine ⟨trivial, fun hgoes => ?_⟩
    simp [hgoes.1.1, hgoes.1.2] at hdown
  rw [if_neg hdown]
  simp only [modify_bind, mapClient]
  set ready : Link ω := { link with client := { link.client with nextId := link.client.nextId + 1 } }
  have hpost := post_script script ⟨link.client.nextId + 1, body⟩ ready
  rw [bind_apply]
  generalize post E ⟨link.client.nextId + 1, body⟩ ready = run at hpost ⊢
  rcases run with ⟨_ | _ | _, sent⟩
  · obtain ⟨hinbox, hclient⟩ := hpost
    refine ⟨rfl, (script.clock sent.world).trans hinbox, ?_⟩
    change sent.client.connected = true ∧ sent.client.socket = true
    rw [hclient]
    simpa using hdown
  · exact ⟨hpost.1, fun hgoes => hpost.2 hgoes.2⟩
  · exact hpost

theorem fetchFrames_script (link : Link ω) (hfuel : (script.inbox link.world).length < E.fuel)
    (fetch : Pb.Fetch) (expected : Nat) :
    Answered (script.inbox link.world) (link.client.nextId + 1) blockSize (Goes E (.Fetch fetch) link) expected
      (fetchFrames E fetch expected blockSize link).1 := by
  have hsend := send_script script (.Fetch fetch) link
  unfold fetchFrames
  rw [bind_apply]
  generalize send E (.Fetch fetch) link = run at hsend ⊢
  rcases run with ⟨id | reason | _, sent⟩
  · obtain ⟨rfl, hinbox, hopen⟩ := hsend
    generalize Goes E (.Fetch fetch) link = up
    generalize script.inbox link.world = all at hfuel hinbox ⊢
    refine Triple.loopMeasure
      (fun blocks now => ∃ pages, blocks = (pages.flatMap unpack).map wrapped ∧
        Heard script all (link.client.nextId + 1) blockSize up pages all.length now)
      (fun o _ => Answered all (link.client.nextId + 1) blockSize up expected o)
      (fun _ now => (script.inbox now.world).length) (fun blocks n => ?_) E.fuel [] sent ?_
    · rintro now ⟨⟨pages, rfl, hheard⟩, rfl⟩
      have hstep := fetchStep_script script all (link.client.nextId + 1) blockSize up (Nat.succ_ne_zero _)
        (Nat.lt_of_le_of_lt hheard.few hfuel) expected pages now
        ⟨hheard.gone, hheard.pages, le_refl _, hheard.up⟩
      generalize fetchStep E (link.client.nextId + 1) expected blockSize _ now = run at hstep ⊢
      rcases run with ⟨(next | _) | _ | _, after⟩
      · obtain ⟨next, fewer, rfl, hfewer, hnext⟩ := hstep
        have hall := hheard.few
        have hless := hnext.few
        exact ⟨⟨next, rfl, hnext.gone, hnext.pages, by omega, hnext.up⟩, by omega⟩
      · exact hstep
      · exact hstep
      · exact hstep
    · exact ⟨⟨[], rfl, ⟨[], hinbox.symm⟩, by rw [hinbox]; rfl, by rw [hinbox], fun _ => hopen⟩,
        by rw [hinbox]; exact hfuel⟩
  · exact ⟨reported_of_ours _ _ hsend.1, fun hgoes => absurd hgoes hsend.2⟩
  · exact hsend.elim

end Scripted

-- The indexes of the blocks of the ranges, in the order of the request.
def indexesOf (ranges : List (Nat × Nat)) : List Nat :=
  ranges.flatMap fun (firstBlock, count) => List.range' firstBlock count

theorem length_indexesOf (ranges : List (Nat × Nat)) :
    (indexesOf ranges).length = (ranges.map Prod.snd).sum := by
  unfold indexesOf
  rw [List.length_flatMap]
  simp only [List.length_range']

section Labels

variable (all : List (Except String Pb.ServerFrame)) (id blockSize : Nat)

-- The server gives the blocks of a complete answer the requested indexes, and none exceeds a u64.
def Labelled (requested : List Nat) (expected : Nat) : Prop :=
  (∀ entry ∈ sent all id blockSize, entry.1 < 2 ^ 64) ∧
    (Complete all id blockSize expected → (sent all id blockSize).map Prod.fst = requested)

-- What is returned is seen through `view`: the blocks with the requested indexes, and no index
-- overflows.
def Delivers {β : Type} (requested : List Nat) (view : List (Nat × Bytes) → β)
    (o : Outcome ClientError β) : Prop :=
  (∀ entry ∈ sent all id blockSize, entry.1 < 2 ^ 64) ∧
    match o with
    | .ok value => value = view (sent all id blockSize) ∧ (sent all id blockSize).map Prod.fst = requested
    | .err reason => Reported all id reason
    | .hang => False

variable {all id blockSize}

theorem wrapped_of_fits {blocks : List (Nat × Bytes)} (h : ∀ entry ∈ blocks, entry.1 < 2 ^ 64) :
    blocks.map wrapped = blocks := by
  refine (List.map_congr_left fun entry hentry => ?_).trans (List.map_id _)
  rw [wrapped, Nat.mod_eq_of_lt (h entry hentry)]
  rfl

-- The labels decide.
theorem Answered.delivers_iff {β : Type} {up : Prop} {expected : Nat}
    {o : Outcome ClientError (List (Nat × Bytes))} (h : Answered all id blockSize up expected o)
    (requested : List Nat) (view : List (Nat × Bytes) → β) :
    (Labelled all id blockSize requested expected → Delivers all id blockSize requested view (o.map view)) ∧
      (up → Delivers all id blockSize requested view (o.map view) →
        Labelled all id blockSize requested expected) := by
  cases o with
  | ok blocks =>
      obtain ⟨hcomplete, rfl⟩ := h
      refine ⟨fun hlabels => ⟨hlabels.1, ?_, hlabels.2 hcomplete⟩, fun _ hdelivers => ?_⟩
      · rw [wrapped_of_fits hlabels.1]
      · exact ⟨hdelivers.1, fun _ => hdelivers.2.2⟩
  | err reason =>
      exact ⟨fun hlabels => ⟨hlabels.1, h.1⟩, fun hup hdelivers =>
        ⟨hdelivers.1, fun hcomplete => absurd hcomplete (h.2 hup)⟩⟩
  | hang => exact h.elim

end Labels

-- If the server labels a complete answer as requested, a fetch returns exactly the blocks that
-- were requested, or an error, and no index overflows. If the request went out, it does so only then.
theorem fetch_returns_requested (script : Script E) (link : Link ω)
    (hfuel : (script.inbox link.world).length < E.fuel) (blockSize : Nat) :
    let all := script.inbox link.world
    let id := link.client.nextId + 1
    (∀ request : Pb.Fetch,
      let requested := List.range' request.firstBlock request.count
      let labelled := Labelled all id blockSize requested request.count
      let delivers := Delivers all id blockSize requested (List.map Prod.snd)
        (Client.fetch E request blockSize link).1
      (labelled → delivers) ∧ (Goes E (.Fetch request) link → delivers → labelled)) ∧
    ∀ dbId version ranges,
      let request : Pb.Fetch :=
        ⟨dbId, version, 0, 0, ranges.map fun (firstBlock, count) => ⟨firstBlock, count⟩⟩
      let labelled := Labelled all id blockSize (indexesOf ranges) ((ranges.map Prod.snd).sum % 2 ^ 64)
      let delivers := Delivers all id blockSize (indexesOf ranges) (fun blocks => blocks)
        (fetchRanges E dbId version ranges blockSize link).1
      (labelled → delivers) ∧ (Goes E (.Fetch request) link → delivers → labelled) := by
  intro all id
  have hanswer : ∀ request expected more,
      Answered all id blockSize (Goes E (.Fetch request) link) expected
        (fetchFrames E request expected blockSize
          (mapClient (fun client => { client with trace := client.trace.map (· ++ more) }) link)).1 :=
    fun request expected more => fetchFrames_script script blockSize (mapClient _ link) hfuel request expected
  constructor
  · intro request
    have hiff := (hanswer request request.count [(request.firstBlock, request.count)]).delivers_iff
      (List.range' request.firstBlock request.count) (List.map Prod.snd)
    unfold Client.fetch note
    rw [modify_bind, bind_apply]
    generalize fetchFrames E request request.count blockSize _ = run at hiff ⊢
    rcases run with ⟨_ | _ | _, after⟩
    · exact hiff
    · exact hiff
    · exact hiff
  · intro dbId version ranges request
    have hiff := (hanswer request ((ranges.map Prod.snd).sum % 2 ^ 64) ranges).delivers_iff
      (indexesOf ranges) fun blocks => blocks
    unfold fetchRanges note
    rw [modify_bind]
    change (_ → Delivers _ _ _ _ _ (fetchFrames E request _ blockSize _).1) ∧
      (_ → Delivers _ _ _ _ _ (fetchFrames E request _ blockSize _).1 → _)
    generalize fetchFrames E request _ blockSize _ = run at hiff ⊢
    rcases run with ⟨_ | _ | _, after⟩
    · exact hiff
    · exact hiff
    · exact hiff

section Sample

abbrev Inbox := List (Except String Pb.ServerFrame)

-- A connection over which these frames arrive, with some store of a local copy.
def scripted (fuel : Nat) (store : LocalStore Inbox) : Env Inbox where
  fuel := fuel
  native := false
  dial := pure ()
  reopen := pure ()
  send _ := pure ()
  receive := fun
    | [] => (.err "closed", [])
    | frame :: rest => (.ok frame, rest)
  loggedIn _ inbox := inbox
  reachable inbox := (true, inbox)
  token := pure ""
  now inbox := (0, inbox)
  pause _ inbox := inbox
  random inbox := ([], inbox)
  sign bytes := bytes
  store := store
  spawn inbox := (false, inbox)
  progress inbox := (0, inbox)
  debug _ := ""
  debugBroken _ := ""

def noStore : LocalStore Inbox where
  head := pure none
  read _ _ := pure []
  write _ _ := pure ()
  forget _ _ := pure ()
  clear := pure ()
  select _ := pure ()
  flush := pure ()

def script (fuel : Nat) (store : LocalStore Inbox) : Script (scripted fuel store) where
  inbox inbox := inbox
  next world frame rest hinbox := by
    subst hinbox
    exact ⟨rfl, rfl⟩
  closed world hinbox := by
    subst hinbox
    exact ⟨"closed", rfl⟩
  sent _ _ := ⟨nofun, rfl⟩
  clock _ := rfl

-- A client that is logged in, and the frames it will receive.
def listening (inbox : Inbox) : Link Inbox where
  client := Client.fresh ⟨.Ed25519, [], false, [], false⟩ true 0
  world := inbox

-- Two blocks of one byte from `first` on, in one frame.
def twoAt (first : Nat) : Inbox := [.ok ⟨1, some (.Pages ⟨first, [[8], [9]], true⟩)⟩]

theorem fetch_returns_requested_two :
    (Client.fetch (scripted 2 noStore) ⟨"db", 1, 3, 2, []⟩ 1 (listening (twoAt 3))).1 = .ok [[8], [9]] ∧
      (fetchRanges (scripted 2 noStore) "db" 1 [(3, 1), (4, 1)] 1 (listening (twoAt 3))).1 =
        .ok [(3, [8]), (4, [9])] ∧
      sent (twoAt 3) 1 1 = [(3, [8]), (4, [9])] := by
  have hlabelled : Labelled (twoAt 3) 1 1 (List.range' 3 2) 2 :=
    ⟨by decide +kernel, fun _ => by decide +kernel⟩
  obtain ⟨hfetch, -⟩ := fetch_returns_requested (script 2 noStore) (listening (twoAt 3)) (by decide) 1
  have hdelivers := ((hfetch ⟨"db", 1, 3, 2, []⟩).1 hlabelled).2
  have hok : (Client.fetch (scripted 2 noStore) ⟨"db", 1, 3, 2, []⟩ 1 (listening (twoAt 3))).1 =
      .ok [[8], [9]] := by decide +kernel
  rw [hok] at hdelivers
  exact ⟨hok, by decide +kernel, List.zip_of_prod hdelivers.2 hdelivers.1.symm⟩

-- The labels of the frames are not compared with the request: blocks 0 and 1 are requested, blocks
-- 5 and 6 are returned, or a block whose index has wrapped to 0.
theorem fetch_returns_other_blocks :
    (fetchRanges (scripted 2 noStore) "db" 1 [(0, 2)] 1 (listening (twoAt 5))).1 =
        .ok [(5, [8]), (6, [9])] ∧
      (Client.fetch (scripted 2 noStore) ⟨"db", 1, 0, 2, []⟩ 1 (listening (twoAt 5))).1 =
        .ok [[8], [9]] ∧
      (fetchRanges (scripted 2 noStore) "db" 1 [(0, 2)] 1 (listening (twoAt (2 ^ 64 - 1)))).1 =
        .ok [(2 ^ 64 - 1, [8]), (0, [9])] := by
  decide +kernel

end Sample

end RemoteVfs.Client
