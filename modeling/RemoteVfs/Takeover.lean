import RemoteVfs.Inner

namespace RemoteVfs

-- What report_takeovers does: it takes the revocations under the lock of the client, then
-- reads which database is open under the lock of the files, and then reports one database
-- after the other.
inductive Reporter where
  | Idle
  | Taken (revoked : List String)
  | Looked (revoked : List String) (current : Option String)
  deriving DecidableEq, Repr

-- The part of the VFS that takeovers are reported from. Of the open database, its name and
-- the epoch of its lease.
structure Vfs where
  client : Client
  database : Option (String × Nat)
  failure : Option Failure
  reporter : Reporter
  -- the calls of the listener
  reported : List String

namespace Vfs

-- The databases that are still to be reported, unless they are not open.
def unreported (vfs : Vfs) : List String :=
  vfs.client.unreported ++ match vfs.reporter with
    | .Idle => []
    | .Taken revoked | .Looked revoked _ => revoked

inductive Event where
  -- a LeaseRevoked that some request reads, or that a browser hands over
  | Revoked (revoked : Pb.LeaseRevoked)
  | Open (name : String) (leaseEpoch : Nat)
  | Close
  -- an operation on the database fails, or heals it
  | Record (failure : Option Failure)
  | Take
  | Look
  | Report
  deriving DecidableEq, Repr

-- One event. An event that cannot happen changes nothing.
def step (vfs : Vfs) : Event → Vfs
  | .Revoked revoked => { vfs with client := vfs.client.noteRevoked revoked }
  | .Open name leaseEpoch =>
    match vfs.database with
    | none => { vfs with database := some (name, leaseEpoch), failure := none }
    | some _ => vfs
  | .Close => { vfs with database := none }
  | .Record failure => { vfs with failure := failure }
  | .Take =>
    match vfs.reporter with
    | .Idle =>
      let (revoked, client) := vfs.client.takeUnreported
      if revoked.isEmpty then { vfs with client := client }
      else { vfs with client := client, reporter := .Taken revoked }
    | _ => vfs
  | .Look =>
    match vfs.reporter with
    | .Taken revoked => { vfs with reporter := .Looked revoked (vfs.database.map Prod.fst) }
    | _ => vfs
  | .Report =>
    match vfs.reporter with
    | .Looked [] _ => { vfs with reporter := .Idle }
    | .Looked (name :: rest) current =>
      if current = some name then
        { vfs with
          failure := some .TakenOver
          reported := vfs.reported ++ [name]
          reporter := .Looked rest current }
      else { vfs with reporter := .Looked rest current }
    | _ => vfs

def run (vfs : Vfs) (events : List Event) : Vfs := events.foldl step vfs

-- The database that the next event reports as taken over.
def reports (vfs : Vfs) : Event → Option String
  | .Report =>
    match vfs.reporter with
    | .Looked (name :: _) current => if current = some name then some name else none
    | _ => none
  | _ => none

-- A database is not opened while a revocation of it is still to be reported, not closed
-- while it is being reported, and a revocation that is read while it is open is one of
-- its lease.
def orderly (vfs : Vfs) : Event → Bool
  | .Open name _ => name ∉ vfs.unreported
  | .Close =>
    match vfs.reporter with
    | .Looked _ _ => false
    | _ => true
  | .Revoked revoked =>
    match vfs.database with
    | some (name, leaseEpoch) => name ≠ revoked.dbId || leaseEpoch < revoked.newLeaseEpoch
    | none => true
  | _ => true

def Orderly (vfs : Vfs) : List Event → Prop
  | [] => True
  | event :: rest => vfs.orderly event = true ∧ (vfs.step event).Orderly rest

instance (vfs : Vfs) : (events : List Event) → Decidable (vfs.Orderly events)
  | [] => .isTrue trivial
  | event :: rest =>
    have := instDecidableOrderly (vfs.step event) rest
    inferInstanceAs (Decidable (_ ∧ _))

-- One round of `report_takeovers` that nothing else happens in.
def round (vfs : Vfs) : List Event :=
  if vfs.client.unreported.isEmpty then [.Take]
  else .Take :: .Look :: List.replicate (vfs.client.unreported.length + 1) .Report

structure Registered (vfs : Vfs) : Prop where
  unreported : vfs.client.unreported = []
  database : vfs.database = none
  reporter : vfs.reporter = .Idle

-- Whatever is still to be reported of the open database is a revocation of its lease.
structure Inv (vfs : Vfs) : Prop where
  revoked : ∀ name leaseEpoch, vfs.database = some (name, leaseEpoch) → name ∈ vfs.unreported →
    vfs.client.wasRevoked name leaseEpoch = true
  looked : ∀ revoked name, vfs.reporter = .Looked revoked (some name) →
    vfs.database.map Prod.fst = some name

variable {vfs : Vfs}

theorem Registered.inv (h : vfs.Registered) : vfs.Inv where
  revoked name leaseEpoch hopen := by rw [h.database] at hopen; cases hopen
  looked revoked name hreporter := by rw [h.reporter] at hreporter; cases hreporter

theorem mem_noteRevoked {client : Client} {revoked : Pb.LeaseRevoked} {name : String}
    (h : name ∈ (client.noteRevoked revoked).unreported) :
    name ∈ client.unreported ∨ name = revoked.dbId := by
  unfold Client.noteRevoked at h
  dsimp only at h
  split_ifs at h with hnewer hmem
  · exact Or.inl h
  · simpa using h
  · exact Or.inl h

theorem revoked_noteRevoked (client : Client) (revoked : Pb.LeaseRevoked) :
    (client.noteRevoked revoked).revoked = client.revoked.insert revoked.dbId
      (max ((client.revoked.lookup revoked.dbId).getD 0) revoked.newLeaseEpoch) := by
  unfold Client.noteRevoked
  dsimp only
  by_cases hnewer : (client.revoked.lookup revoked.dbId).getD 0 < revoked.newLeaseEpoch
  · rw [if_pos hnewer, Nat.max_eq_right (Nat.le_of_lt hnewer)]
  · rw [if_neg hnewer, Nat.max_eq_left (Nat.le_of_not_lt hnewer)]

-- A revocation is never taken back.
theorem wasRevoked_noteRevoked {client : Client} {revoked : Pb.LeaseRevoked} {name : String}
    {leaseEpoch : Nat} (h : client.wasRevoked name leaseEpoch = true ∨
      name = revoked.dbId ∧ leaseEpoch < revoked.newLeaseEpoch) :
    (client.noteRevoked revoked).wasRevoked name leaseEpoch = true := by
  rw [Client.wasRevoked, revoked_noteRevoked]
  by_cases hname : name = revoked.dbId
  · subst hname
    rw [AList.lookup_insert, Option.any_some, decide_eq_true_eq]
    rcases h with hwas | ⟨-, hnew⟩
    · rw [Client.wasRevoked] at hwas
      cases hlookup : client.revoked.lookup revoked.dbId with
      | none =>
          rw [hlookup] at hwas
          cases hwas
      | some epoch =>
          rw [hlookup] at hwas
          have hlt : leaseEpoch < epoch := by simpa using hwas
          exact Nat.lt_of_lt_of_le hlt (Nat.le_max_left _ _)
    · exact Nat.lt_of_lt_of_le hnew (Nat.le_max_right _ _)
  · rw [AList.lookup_insert_ne hname]
    exact h.resolve_right fun h => hname h.1

theorem Inv.step (h : vfs.Inv) {event : Event} (horderly : vfs.orderly event = true) :
    (vfs.step event).Inv := by
  cases event with
  | Revoked revoked =>
      refine ⟨fun name leaseEpoch hopen hmem => wasRevoked_noteRevoked ?_, h.looked⟩
      have hdatabase : vfs.database = some (name, leaseEpoch) := hopen
      have hcase : name ∈ vfs.unreported ∨ name = revoked.dbId := by
        rcases List.mem_append.mp hmem with hnew | hold
        · exact (mem_noteRevoked hnew).imp_left fun hold => List.mem_append_left _ hold
        · exact Or.inl (List.mem_append_right _ hold)
      rcases hcase with hold | hname
      · exact Or.inl (h.revoked name leaseEpoch hdatabase hold)
      · simp only [orderly, hdatabase, Bool.or_eq_true, decide_eq_true_eq] at horderly
        exact Or.inr ⟨hname, horderly.resolve_left fun hne => hne hname⟩
  | Open name leaseEpoch =>
      simp only [Vfs.step]
      cases hdatabase : vfs.database with
      | some current => exact h
      | none =>
          refine ⟨fun name' leaseEpoch' hopen hmem => ?_, fun revoked name' hreporter => ?_⟩
          · cases hopen
            simp only [orderly, decide_eq_true_eq] at horderly
            exact absurd hmem horderly
          · have hlooked := h.looked revoked name' hreporter
            rw [hdatabase] at hlooked
            cases hlooked
  | Close =>
      refine ⟨fun name leaseEpoch hopen => ?_, fun revoked name hreporter => ?_⟩
      · cases hopen
      · have hreporter : vfs.reporter = .Looked revoked (some name) := hreporter
        simp only [orderly, hreporter] at horderly
        cases horderly
  | Record failure => exact ⟨h.revoked, h.looked⟩
  | Take =>
      cases hreporter : vfs.reporter with
      | Idle =>
          have hstep : vfs.step .Take = if vfs.client.unreported.isEmpty = true then
              { vfs with client := vfs.client.takeUnreported.2 }
            else
              { vfs with
                client := vfs.client.takeUnreported.2
                reporter := .Taken vfs.client.unreported } := by
            simp only [Vfs.step, hreporter]
            rfl
          rw [hstep]
          by_cases hempty : vfs.client.unreported.isEmpty = true
          · rw [if_pos hempty]
            refine ⟨fun name leaseEpoch _ hmem => ?_, h.looked⟩
            simp [unreported, hreporter, Client.takeUnreported] at hmem
          · rw [if_neg hempty]
            refine ⟨fun name leaseEpoch hopen hmem => h.revoked name leaseEpoch hopen ?_, ?_⟩
            · exact List.mem_append_left _ hmem
            · intro revoked name hlooked
              cases hlooked
      | _ =>
          simp only [Vfs.step, hreporter]
          exact h
  | Look =>
      simp only [Vfs.step]
      cases hreporter : vfs.reporter with
      | Taken revoked =>
          refine ⟨fun name leaseEpoch hopen hmem => h.revoked name leaseEpoch hopen ?_, ?_⟩
          · rw [unreported, hreporter]
            exact hmem
          · intro revoked' name hlooked
            simp only [Reporter.Looked.injEq] at hlooked
            exact hlooked.2
      | _ => exact h
  | Report =>
      have hshorter : ∀ name rest current, vfs.reporter = .Looked (name :: rest) current →
          ∀ other, other ∈ vfs.client.unreported ++ rest → other ∈ vfs.unreported := by
        intro name rest current hreporter other hmem
        rw [unreported, hreporter]
        rcases List.mem_append.mp hmem with hclient | hrest
        · exact List.mem_append_left _ hclient
        · exact List.mem_append_right _ (List.mem_cons_of_mem _ hrest)
      simp only [Vfs.step]
      cases hreporter : vfs.reporter with
      | Looked revoked current =>
          cases revoked with
          | nil =>
              refine ⟨fun name leaseEpoch hopen hmem => h.revoked name leaseEpoch hopen ?_, ?_⟩
              · rw [unreported, hreporter]
                exact hmem
              · intro revoked name hlooked
                cases hlooked
          | cons name rest =>
              have hrest : ∀ revoked name', Reporter.Looked rest current = .Looked revoked (some name') →
                  vfs.database.map Prod.fst = some name' := by
                intro revoked name' hlooked
                simp only [Reporter.Looked.injEq] at hlooked
                exact h.looked _ name' (hreporter.trans (by rw [hlooked.2]))
              dsimp only
              split_ifs
              · exact ⟨fun other leaseEpoch hopen hmem => h.revoked other leaseEpoch hopen
                  (hshorter name rest current hreporter other hmem), hrest⟩
              · exact ⟨fun other leaseEpoch hopen hmem => h.revoked other leaseEpoch hopen
                  (hshorter name rest current hreporter other hmem), hrest⟩
      | _ => exact h

theorem Inv.run (h : vfs.Inv) {events : List Event} (horderly : vfs.Orderly events) :
    (vfs.run events).Inv := by
  induction events generalizing vfs with
  | nil => exact h
  | cons event rest ih => exact ih (h.step horderly.1) horderly.2

theorem run_reports (vfs : Vfs) (revoked : List String) (current : Option String) :
    { vfs with reporter := .Looked revoked current }.run (List.replicate (revoked.length + 1) .Report) =
      { vfs with
        failure := if revoked.any (current = some ·) then some .TakenOver else vfs.failure
        reported := vfs.reported ++ revoked.filter (current = some ·)
        reporter := .Idle } := by
  induction revoked generalizing vfs with
  | nil => simp [run, step]
  | cons name rest ih =>
      have hnext : run { vfs with reporter := .Looked (name :: rest) current }
          (List.replicate ((name :: rest).length + 1) .Report) =
          run (step { vfs with reporter := .Looked (name :: rest) current } .Report)
            (List.replicate (rest.length + 1) .Report) := rfl
      rw [hnext]
      by_cases hcurrent : current = some name
      · have hstep : step { vfs with reporter := .Looked (name :: rest) current } .Report =
            { vfs with
              failure := some .TakenOver
              reported := vfs.reported ++ [name]
              reporter := .Looked rest current } := if_pos hcurrent
        rw [hstep, ih { vfs with failure := some .TakenOver, reported := vfs.reported ++ [name] }]
        simp [hcurrent]
      · have hstep : step { vfs with reporter := .Looked (name :: rest) current } .Report =
            { vfs with reporter := .Looked rest current } := if_neg hcurrent
        rw [hstep, ih vfs]
        simp [hcurrent]

theorem run_round (hidle : vfs.reporter = .Idle) :
    vfs.run vfs.round =
      { vfs with
        client := vfs.client.takeUnreported.2
        failure := if vfs.client.unreported.any (vfs.database.map Prod.fst = some ·) then some .TakenOver
          else vfs.failure
        reported := vfs.reported ++ vfs.client.unreported.filter (vfs.database.map Prod.fst = some ·) } := by
  obtain ⟨client, database, failure, reporter, reported⟩ := vfs
  subst hidle
  cases hempty : client.unreported with
  | nil => simp [round, hempty, run, step, Client.takeUnreported]
  | cons name rest =>
      have htaken : run ⟨client, database, failure, .Idle, reported⟩
          (round ⟨client, database, failure, .Idle, reported⟩) =
          run ⟨client.takeUnreported.2, database, failure, .Looked (name :: rest) (database.map Prod.fst),
            reported⟩ (List.replicate ((name :: rest).length + 1) .Report) := by
        simp [round, hempty, run, step, Client.takeUnreported]
      rw [htaken]
      exact run_reports ⟨client.takeUnreported.2, database, failure, .Idle, reported⟩ (name :: rest) _

-- In such runs a takeover is reported only of the database that is open, and only if its
-- lease was revoked.
theorem takeover_reported_of_open_lease (hregistered : vfs.Registered) {events : List Event}
    (horderly : vfs.Orderly events) {event : Event} {name : String}
    (hreports : (vfs.run events).reports event = some name) :
    ∃ leaseEpoch, (vfs.run events).database = some (name, leaseEpoch) ∧
      (vfs.run events).client.wasRevoked name leaseEpoch = true := by
  have hinv := (hregistered.inv).run horderly
  generalize vfs.run events = now at hinv hreports ⊢
  cases event with
  | Report =>
      simp only [reports] at hreports
      split at hreports
      · rename_i other rest current hreporter
        split_ifs at hreports with hcurrent
        obtain rfl : other = name := by simpa using hreports
        subst hcurrent
        obtain ⟨⟨opened, leaseEpoch⟩, hdatabase, rfl⟩ :=
          Option.map_eq_some_iff.mp (hinv.looked _ other hreporter)
        refine ⟨leaseEpoch, hdatabase, hinv.revoked _ leaseEpoch hdatabase ?_⟩
        rw [unreported, hreporter]
        exact List.mem_append_right _ List.mem_cons_self
      · cases hreports
  | _ => cases hreports

-- A VFS right after it was registered.
def registered : Vfs :=
  ⟨.fresh ⟨.Ed25519, [], false, [], false⟩ false 0, none, none, .Idle, []⟩

theorem takeover_reported_of_open_lease_once :
    ((registered.run [.Open "db" 1, .Revoked ⟨"db", 2⟩, .Take, .Look]).reports .Report = some "db") ∧
      ∃ leaseEpoch, (registered.run [.Open "db" 1, .Revoked ⟨"db", 2⟩, .Take, .Look]).database =
          some ("db", leaseEpoch) ∧
        (registered.run [.Open "db" 1, .Revoked ⟨"db", 2⟩, .Take, .Look]).client.wasRevoked "db"
          leaseEpoch = true := by
  have hreports : (registered.run [.Open "db" 1, .Revoked ⟨"db", 2⟩, .Take, .Look]).reports .Report =
    some "db" := by decide +kernel
  exact ⟨hreports, takeover_reported_of_open_lease ⟨rfl, rfl, rfl⟩ (by decide +kernel) hreports⟩

-- The database is taken over and taken back before the first takeover is reported.
theorem old_takeover_is_reported :
    let vfs := registered.run [.Open "db" 1, .Revoked ⟨"db", 2⟩, .Close, .Open "db" 3, .Take, .Look]
    vfs.reports .Report = some "db" ∧ vfs.database = some ("db", 3) ∧
      vfs.client.wasRevoked "db" 3 = false ∧ (vfs.step .Report).failure = some .TakenOver := by
  decide +kernel

end Vfs

namespace Inner

open Base

variable {ω τ ε : Type}

-- What takeovers of the databases on a server are reported from, while none is being reported.
def vfs (inner : Inner ω τ) (reported : List String) : Option Vfs :=
  match inner.files with
  | .Closed (.Server link) _ failure => some ⟨link.client, none, failure, .Idle, reported⟩
  | .Open name ⟨.Server db, failure, _, _⟩ =>
    some ⟨db.source.link.client, some (name, db.remote.leaseEpoch), failure, .Idle, reported⟩
  | _ => none

variable {inner : Inner ω τ} {now : Vfs} {reported : List String}

-- Under the lock of the VFS `report_takeovers` is one round that is not interrupted.
theorem reportTakeovers_is_round (h : inner.vfs reported = some now) :
    ∃ reported', ((reportTakeovers : Prog (Inner ω τ) ε Unit) inner).2.vfs reported' =
      some (now.run now.round) := by
  refine ⟨reported ++ now.client.unreported.filter (now.database.map Prod.fst = some ·), ?_⟩
  obtain ⟨config, cache, files⟩ := inner
  cases files with
  | Closed backend stats failure =>
      cases backend with
      | Local world => cases h
      | Server link =>
          cases h
          rw [Vfs.run_round rfl]
          simp [Inner.vfs, reportTakeovers, takeUnreported]
          rfl
  | Open name main =>
      obtain ⟨db, failure, refuses, timeout⟩ := main
      cases db with
      | Local db => cases h
      | Server db =>
          cases h
          rw [Vfs.run_round rfl]
          have hrun : ((reportTakeovers : Prog (Inner ω τ) ε Unit)
              ⟨config, cache, .Open name ⟨.Server db, failure, refuses, timeout⟩⟩).2.files =
              .Open name ⟨.Server { db with source := { db.source with
                  link := db.source.link.mapClient fun client => client.takeUnreported.2 } },
                if name ∈ db.source.link.client.unreported then some .TakenOver else failure, refuses,
                timeout⟩ := by
            change (if name ∈ db.source.link.client.unreported then _ else _ : Inner ω τ).files = _
            split_ifs <;> rfl
          have hany : db.source.link.client.unreported.any (some name = some ·) =
              decide (name ∈ db.source.link.client.unreported) := by
            rw [Bool.eq_iff_iff]
            simp
          simp only [Inner.vfs, hrun, Option.map_some, hany, decide_eq_true_eq]
          rfl

theorem onPush_is_round (revoked : Pb.LeaseRevoked) (h : inner.vfs reported = some now) :
    ∃ reported', ((onPush revoked : Prog (Inner ω τ) ε Unit) inner).2.vfs reported' =
      some (now.run (.Revoked revoked :: (now.step (.Revoked revoked)).round)) := by
  have hnoted : ∃ noted : Inner ω τ,
      (onPush revoked : Prog (Inner ω τ) ε Unit) inner = reportTakeovers noted ∧
        noted.vfs reported = some (now.step (.Revoked revoked)) := by
    obtain ⟨config, cache, files⟩ := inner
    cases files with
    | Closed backend stats failure =>
        cases backend with
        | Local world => cases h
        | Server link =>
            cases h
            let link := link.mapClient (Client.noteRevoked · revoked)
            exact ⟨⟨config, cache, .Closed (.Server link) stats failure⟩, rfl, rfl⟩
    | Open name main =>
        obtain ⟨db, failure, refuses, timeout⟩ := main
        cases db with
        | Local db => cases h
        | Server db =>
            cases h
            let link := db.source.link.mapClient (Client.noteRevoked · revoked)
            let db : Database ω := { db with source := { db.source with link := link } }
            exact ⟨⟨config, cache, .Open name ⟨.Server db, failure, refuses, timeout⟩⟩, rfl, rfl⟩
  obtain ⟨noted, hrun, hvfs⟩ := hnoted
  rw [hrun]
  exact reportTakeovers_is_round hvfs

end Inner

end RemoteVfs
