import RemoteVfs.Loads
import RemoteVfs.Session.Failed

namespace RemoteVfs

open Base Base.Prog Held

variable {τ ω ε α : Type}

namespace Pages

-- A property of the pages that holds between the operations, and a weaker one that holds at
-- all times. It is enough if it comes back once room was made. A load of `count` blocks from
-- `first` on stores blocks at indexes in `wanted first count`.
structure Lasting (wanted : Nat → Nat → Nat → Prop) (size : Nat) (weak inv : Pages → Prop) : Prop where
  weaken : ∀ pages, inv pages → weak pages
  pageSize : ∀ pages, inv pages → pages.pageSize = size
  touch : ∀ pages index, inv pages → inv (pages.touch index)
  load : ∀ pages stats first count loaded, inv pages → pages.Asks first count →
    count ≤ pages.perFetch →
    (∀ entry ∈ loaded, wanted first count entry.1) →
    Client.Sized pages.pageSize loaded → inv ((pages.makeRoom count stats).1.keepAll loaded)
  put : ∀ pages index within chunk, inv pages → within + chunk.length ≤ size →
    (∀ block, pages.block index = some block → within + chunk.length ≤ block.length) →
    inv (pages.put index within chunk)
  truncate : ∀ pages bytes, inv pages → inv (pages.truncate bytes)
  committed : ∀ pages, inv pages → weak pages.committed.2
  emptied : ∀ pages pageCount, inv pages → weak (pages.emptied pageCount)
  room : ∀ pages stats, weak pages → inv (pages.makeRoom 0 stats).1

-- The state after an operation. One that hangs is left in its middle.
def Left (weak inv : Pages → Prop) : Outcome ε α → Held τ → Prop
  | .hang, h => weak h.pages
  | _, h => inv h.pages

variable {wanted : Nat → Nat → Nat → Prop} {size : Nat} {weak inv : Pages → Prop} {source : Source τ}

theorem Lasting.left (hlasting : Lasting wanted size weak inv) {body : Prog (Held τ) ε α}
    (h : Moves (Carries fun h : Held τ => inv h.pages) body) :
    Triple (fun h => inv h.pages) body (Left weak inv) := by
  intro before hbefore
  have hafter := h before hbefore
  generalize body before = run at hafter ⊢
  rcases run with ⟨value | reason | _, after⟩
  · exact hafter
  · exact hafter
  · exact hlasting.weaken _ hafter

theorem Left.bind {β : Type} {pre : Held τ → Prop} {first : Prog (Held τ) ε β}
    {next : β → Prog (Held τ) ε α} (hfirst : Triple pre first (Left weak inv))
    (hnext : ∀ value, Triple (fun h => inv h.pages) (next value) (Left weak inv)) :
    Triple pre (first >>= next) (Left weak inv) := by
  refine Triple.bind (hfirst.mono (fun _ h => h) fun o s h => ?_) hnext
  cases o with
  | ok value => exact h
  | err reason => exact h
  | hang => exact h

theorem Left.both (hlasting : Lasting wanted size weak inv) {o : Outcome ε α} {h : Held τ}
    (hleft : Left weak inv o h) : weak h.pages ∧ (o ≠ .hang → inv h.pages) := by
  cases o with
  | ok value => exact ⟨hlasting.weaken _ hleft, fun _ => hleft⟩
  | err reason => exact ⟨hlasting.weaken _ hleft, fun _ => hleft⟩
  | hang => exact ⟨hleft, fun hreturned => absurd rfl hreturned⟩

-- A load adds what is missing, after room was made for it.
theorem Lasting.stays (hlasting : Lasting wanted size weak inv)
    (hfill : ∀ first count, Moves (Stores (wanted first count)) (source.fill first count)) :
    Stays (Carries fun h : Held τ => inv h.pages) source where
  count _ h := h
  touch h index _ hinv := hlasting.touch h.pages index hinv
  load h first count hasks hcount hinv := by
    obtain ⟨loaded, hwanted, hsized, hpages⟩ := hfill first count (h.makeRoom count)
    rw [hpages]
    refine hlasting.load h.pages h.stats first count loaded hinv hasks hcount hwanted ?_
    rwa [← (shape_makeRoom h.pages count h.stats).pageSize]

variable (hlasting : Lasting wanted size weak inv)
  (hfill : ∀ first count, Moves (Stores (wanted first count)) (source.fill first count))

include hlasting hfill

theorem read_lasts (offset length : Nat) :
    Moves (Carries fun h : Held τ => inv h.pages) (read source offset length) :=
  read_stays (hlasting.stays hfill) offset length

theorem write_lasts (offset : Nat) (data : Bytes) :
    Moves (Carries fun h : Held τ => inv h.pages) (write source offset data) := by
  refine write_carries (hlasting.stays hfill) (fun h => hlasting.pageSize h.pages) ?_
  intro h index within chunk hinv hchunk hfits
  exact hlasting.put h.pages index within chunk hinv hchunk.length.2 hfits

end Pages

namespace Database

open Pages Remote

variable {E : Env ω}

theorem breakWith_pages (broken : Broken) :
    Moves (Same Held.pages) (breakWith broken : Prog (Database ω) Broken α) := fun _ => rfl

theorem onLink_pages (body : Prog (Link ω) ε α) : Moves (Same Held.pages) (onLink body) := fun _ => rfl

theorem count_pages (change : Stats → Stats) :
    Moves (Same Held.pages) (count change : Prog (Database ω) ε Unit) := fun _ => rfl

-- Nothing touches the pages before the commit is acknowledged.
theorem commitRound_pages (parts : List Pb.Commit) (commitId : Bytes) (deadline : Nat) (state : Unit) :
    Moves (Same Held.pages) (commitRound E parts commitId deadline state) :=
  Fetch.asks_pages.commitRound (fun _ _ => rfl) parts commitId deadline state

section Lasting

variable {wanted : Nat → Nat → Nat → Prop} {size : Nat} {weak inv : Pages → Prop}

theorem unlessBroken_left {body : Prog (Database ω) Broken α}
    (h : Triple (fun db => inv db.pages) body (Left weak inv)) :
    Triple (fun db => inv db.pages) (unlessBroken body) (Left weak inv) := by
  intro db hdb
  unfold unlessBroken
  rw [get_bind]
  cases db.remote.broken with
  | some broken => exact hdb
  | none => exact h db hdb

variable (hlasting : Lasting wanted size weak inv)

include hlasting

theorem left_of_pages {body : Prog (Database ω) ε α} (h : Moves (Same Held.pages) body) :
    Triple (fun db => inv db.pages) body (Left weak inv) :=
  hlasting.left (h.mono fun _ after h hbefore => show inv after.pages from h ▸ hbefore)

theorem commitDone_left (parts time : Nat) (commitId : Bytes) (version : Nat) :
    Triple (fun db => inv db.pages) (commitDone E parts time commitId version) (Left weak inv) := by
  have hrest : ∀ written, Triple (fun db : Database ω => weak db.pages)
      (do
        writeCopy E written
        Prog.modify (Held.makeRoom 0)
        Prog.modify Held.count : Prog (Database ω) Broken Unit) (Left weak inv) := by
    intro written db hdb
    have hpages : ((writeCopy E written : Prog (Database ω) Broken Unit) db).2.pages = db.pages :=
      (writeCopy_around E written db).pages
    have hnever : Raises (fun _ : Broken => False) (writeCopy E written) := writeCopy_raises E written
    have hnever := hnever db
    rw [bind_apply]
    generalize (writeCopy E written : Prog (Database ω) Broken Unit) db = run at hpages hnever ⊢
    rcases run with ⟨_ | reason | _, (after : Database ω)⟩
    · exact hlasting.room after.pages after.stats (hpages ▸ hdb)
    · exact (hnever reason rfl).elim
    · exact show weak after.pages from hpages ▸ hdb
  intro db hdb
  exact hrest _ _ (hlasting.committed db.pages hdb)

theorem commit_left (reconnectTimeout : Nat) :
    Triple (fun db => inv db.pages) (commit E reconnectTimeout) (Left weak inv) := by
  refine unlessBroken_left (Triple.get fun db => ?_)
  refine Triple.mono ?_ (fun _ h => h.1) fun _ _ h => h
  refine Triple.ite (fun _ => fun _ h => h) fun _ => Triple.ite (fun _ => fun _ h => h) fun _ => ?_
  have hbegin : Moves (Same Held.pages) (commitBegin E) := fun _ => rfl
  refine Left.bind (left_of_pages hlasting hbegin) fun begun => ?_
  refine Left.bind (left_of_pages hlasting (onLink_pages _)) fun started => ?_
  refine Left.bind (left_of_pages hlasting (Moves.loop (commitRound_pages _ _ _) _ _)) fun version => ?_
  refine Left.bind (left_of_pages hlasting (onLink_pages _)) fun ended => ?_
  exact commitDone_left hlasting _ _ _ _

-- The blocks are replaced only if all of the new ones could be loaded.
theorem reload_left (hpreloads : Preloads E weak) (opened : Pb.Opened) :
    Triple (fun db => inv db.pages) (reload E opened) (Left weak inv) := by
  intro db hdb
  unfold reload
  rw [get_bind, modify_bind]
  have hfill := fill_preloads hpreloads (restarted opened db) (hlasting.emptied db.pages _ hdb)
  rw [bind_apply]
  unfold Prog.handle
  generalize Remote.fill E (restarted opened db) = run at hfill ⊢
  rcases run with ⟨_ | reason | _, (after : Database ω)⟩
  · obtain ⟨pages, stats, hpages, hafter⟩ := hfill
    exact show inv after.pages from hafter ▸ hlasting.room pages stats hpages
  · exact hdb
  · exact hfill.2

theorem heal_left (hpreloads : Preloads E weak) :
    Triple (fun db => inv db.pages) (heal E) (Left weak inv) := by
  have hresume : Moves (Same Held.pages) (Prog.handle (resume E) breakOn) :=
    Moves.handle Fetch.asks_pages.resume fun _ => breakWith_pages _
  refine Left.bind (left_of_pages hlasting hresume) fun opened => Triple.get fun db => ?_
  refine Triple.mono ?_ (fun _ h => h.1) fun _ _ h => h
  refine Triple.ite (fun _ => left_of_pages hlasting (breakWith_pages _)) fun _ => ?_
  exact Left.bind (left_of_pages hlasting (count_pages _)) fun _ => reload_left hlasting hpreloads opened

end Lasting

-- The pages of a database that was just opened.
theorem openOn_lasts {dbId : String} {options : OpenOptions} {pages : Pages} {remote : Remote}
    {desk after : Desk ω} (hopen : openOn E dbId options desk = (.ok (pages, remote), after)) :
    ∃ opened : Pb.Opened, checked opened none = .ok opened ∧ pages.pageSize = opened.pageSize ∧
      ∀ {wanted weak inv}, Lasting wanted opened.pageSize weak inv → Preloads E weak →
        weak (.new opened.pageSize opened.pageCount options.blocksPerFetch options.cap) → inv pages := by
  obtain ⟨opened, link, -, hchecked, hfill⟩ := openOn_returns E hopen
  have hroom : ∀ {weak}, Preloads E weak →
      weak (.new opened.pageSize opened.pageCount options.blocksPerFetch options.cap) →
      ∃ stored stats, weak stored ∧ pages = (stored.makeRoom 0 stats).1 := by
    intro weak hpreloads hnew
    have hspec := fill_preloads hpreloads
      ⟨.new opened.pageSize opened.pageCount options.blocksPerFetch options.cap, desk.stats,
        ⟨openedRemote dbId options opened link.client.logins, link⟩⟩ hnew
    rw [hfill] at hspec
    exact hspec
  refine ⟨opened, hchecked, ?_, fun {wanted weak inv} hlasting hpreloads hnew => ?_⟩
  · have hsame : Preloads E (fun pages => pages.pageSize = opened.pageSize) :=
      Preloads.of_keepAll fun pages loaded h => (shape_keepAll pages loaded).pageSize.trans h
    obtain ⟨stored, stats, hsize, rfl⟩ := hroom hsame rfl
    exact (shape_makeRoom stored 0 stats).pageSize.trans hsize
  · obtain ⟨stored, stats, hweak, rfl⟩ := hroom hpreloads hnew
    exact hlasting.room stored stats hweak

end Database

namespace Session

open Database Pages

variable {E : Env ω}

-- The operation came back: it neither hung nor panicked.
def Op.Returns (E : Env ω) (db : Database ω) : Op → Prop
  | Read offset length => (Database.read E offset length db).1 ≠ .hang
  | Write offset data => (Database.write E offset data db).1 ≠ .hang
  | Truncate size => (Database.truncate size db).1 ≠ .hang
  | Commit reconnectTimeout => (Database.commit E reconnectTimeout db).1 ≠ .hang
  | Heal => db.isUnreachable = true → (Database.heal E db).1 ≠ .hang
  | Label label => (onLink (Client.withClient E (Client.setSlotLabel E label)) db).1 ≠ .hang

instance (E : Env ω) (db : Database ω) (op : Op) : Decidable (op.Returns E db) := by
  cases op with
  | Heal => exact inferInstanceAs (Decidable (_ = true → _ ≠ _))
  | _ => exact inferInstanceAs (Decidable (_ ≠ _))

-- A sequence of operations that all came back.
def Returned (E : Env ω) : List Op → Database ω → Prop
  | [], _ => True
  | op :: rest, db => op.Returns E db ∧ Returned E rest (op.run E db)

instance decidableReturned (E : Env ω) :
    (ops : List Op) → (db : Database ω) → Decidable (Returned E ops db)
  | [], _ => isTrue trivial
  | op :: rest, db =>
    have := decidableReturned E rest (op.run E db)
    inferInstanceAs (Decidable (op.Returns E db ∧ Returned E rest (op.run E db)))

variable {wanted : Nat → Nat → Nat → Prop} {size : Nat} {weak inv : Pages → Prop}
  (hlasting : Lasting wanted size weak inv)
  (hfill : ∀ first count, Moves (Stores (wanted first count)) (Fetch.fill E first count))
  (hpreloads : Remote.Preloads E weak)

include hlasting hfill hpreloads

theorem Op.lasts {db : Database ω} (hdb : inv db.pages) (op : Op) :
    weak (op.run E db).pages ∧ (op.Returns E db → inv (op.run E db).pages) := by
  have hleft : ∀ {α : Type} {body : Prog (Database ω) Broken α},
      Triple (fun db => inv db.pages) body (Left weak inv) →
        weak (body db).2.pages ∧ ((body db).1 ≠ .hang → inv (body db).2.pages) :=
    fun h => Left.both hlasting (h db hdb)
  cases op with
  | Read offset length =>
      exact hleft (unlessBroken_left (hlasting.left (read_lasts hlasting hfill offset length)))
  | Write offset data =>
      exact hleft (unlessBroken_left (hlasting.left (write_lasts hlasting hfill offset data)))
  | Truncate size =>
      refine hleft (unlessBroken_left (hlasting.left (Moves.modify fun h => ?_)))
      exact hlasting.truncate h.pages size
  | Commit reconnectTimeout => exact hleft (commit_left hlasting reconnectTimeout)
  | Heal =>
      simp only [Op.run, Op.Returns]
      split_ifs with hunreachable
      · have := hleft (heal_left hlasting hpreloads)
        exact ⟨this.1, fun h => this.2 (h hunreachable)⟩
      · exact ⟨hlasting.weaken _ hdb, fun _ => hdb⟩
  | Label label => exact ⟨hlasting.weaken _ hdb, fun _ => hdb⟩

theorem run_lasts {ops : List Op} {db : Database ω} (hdb : inv db.pages) (hreturned : Returned E ops db) :
    inv (ops.foldl (Op.run E) db).pages := by
  induction ops generalizing db with
  | nil => exact hdb
  | cons op rest ih =>
      exact ih ((Op.lasts hlasting hfill hpreloads hdb op).2 hreturned.1) hreturned.2

end Session

namespace LocalDatabase

open Pages

variable {bridge : LocalBridge ω}

def Op.Returns (bridge : LocalBridge ω) (db : LocalDatabase ω) : Op → Prop
  | Read offset length => (LocalDatabase.read bridge offset length db).1 ≠ .hang
  | Write offset data => (LocalDatabase.write bridge offset data db).1 ≠ .hang
  | Truncate size => (LocalDatabase.truncate size db).1 ≠ .hang
  | Commit => (LocalDatabase.commit bridge db).1 ≠ .hang

instance (bridge : LocalBridge ω) (db : LocalDatabase ω) (op : Op) : Decidable (op.Returns bridge db) := by
  cases op <;> exact inferInstanceAs (Decidable (_ ≠ _))

def Returned (bridge : LocalBridge ω) : List Op → LocalDatabase ω → Prop
  | [], _ => True
  | op :: rest, db => op.Returns bridge db ∧ Returned bridge rest (op.run bridge db)

instance decidableReturned (bridge : LocalBridge ω) :
    (ops : List Op) → (db : LocalDatabase ω) → Decidable (Returned bridge ops db)
  | [], _ => isTrue trivial
  | op :: rest, db =>
    have := decidableReturned bridge rest (op.run bridge db)
    inferInstanceAs (Decidable (op.Returns bridge db ∧ Returned bridge rest (op.run bridge db)))

section Lasting

variable {wanted : Nat → Nat → Nat → Prop} {size : Nat} {weak inv : Pages → Prop}

theorem unlessBroken_left {body : Prog (LocalDatabase ω) Broken α}
    (h : Triple (fun db => inv db.pages) body (Left weak inv)) :
    Triple (fun db => inv db.pages) (unlessBroken body) (Left weak inv) := by
  intro db hdb
  unfold unlessBroken
  rw [get_bind]
  cases db.source.broken with
  | some broken => exact hdb
  | none => exact h db hdb

variable (hlasting : Lasting wanted size weak inv)
  (hfill : ∀ first count, Moves (Stores (wanted first count)) (Load.fill bridge first count))

include hlasting

theorem left_of_pages {body : Prog (LocalDatabase ω) ε α} (h : Moves (Same Held.pages) body) :
    Triple (fun db => inv db.pages) body (Left weak inv) :=
  hlasting.left (h.mono fun _ after h hbefore => show inv after.pages from h ▸ hbefore)

theorem commit_left : Triple (fun db => inv db.pages) (commit bridge) (Left weak inv) := by
  refine unlessBroken_left (Triple.get fun db => ?_)
  refine Triple.mono ?_ (fun _ h => h.1) fun _ _ h => h
  have hworld : ∀ {ε α : Type} (body : Prog ω ε α), Moves (Same Held.pages) (onWorld body) :=
    fun _ _ => rfl
  refine Triple.ite (fun _ => fun _ h => h) fun _ => ?_
  refine Left.bind (left_of_pages hlasting (hworld _)) fun started => ?_
  refine Left.bind (left_of_pages hlasting (Moves.handle (hworld _) fun _ => fun _ => rfl)) fun _ => ?_
  refine Left.bind (left_of_pages hlasting (hworld _)) fun ended => ?_
  exact fun db hdb => hlasting.room _ _ (hlasting.committed db.pages hdb)

include hfill

theorem Op.lasts {db : LocalDatabase ω} (hdb : inv db.pages) (op : Op) :
    weak (op.run bridge db).pages ∧ (op.Returns bridge db → inv (op.run bridge db).pages) := by
  have hleft : ∀ {α : Type} {body : Prog (LocalDatabase ω) Broken α},
      Triple (fun db => inv db.pages) body (Left weak inv) →
        weak (body db).2.pages ∧ ((body db).1 ≠ .hang → inv (body db).2.pages) :=
    fun h => Left.both hlasting (h db hdb)
  cases op with
  | Read offset length => exact hleft (hlasting.left (read_lasts hlasting hfill offset length))
  | Write offset data =>
      exact hleft (unlessBroken_left (hlasting.left (write_lasts hlasting hfill offset data)))
  | Truncate size =>
      refine hleft (unlessBroken_left (hlasting.left (Moves.modify fun h => ?_)))
      exact hlasting.truncate h.pages size
  | Commit => exact hleft (commit_left hlasting)

theorem run_lasts {ops : List Op} {db : LocalDatabase ω} (hdb : inv db.pages)
    (hreturned : Returned bridge ops db) : inv (ops.foldl (Op.run bridge) db).pages := by
  induction ops generalizing db with
  | nil => exact hdb
  | cons op rest ih => exact ih ((Op.lasts hlasting hfill hdb op).2 hreturned.1) hreturned.2

end Lasting

-- The pages of a local database that was just opened.
theorem openOn_lasts {name : String} {options : LocalOptions} {desk after : Desk ω}
    {db : LocalDatabase ω} (hopen : openOn bridge name options desk = (.ok db, after)) :
    ∃ opened : LocalOpened, opened.pageSize ≠ 0 ∧ ∀ {wanted weak inv},
      Lasting wanted opened.pageSize weak inv →
      (∀ pages loaded, weak pages → Client.Sized pages.pageSize loaded → weak (pages.keepAll loaded)) →
      weak (.new opened.pageSize opened.pageCount options.blocksPerFetch options.cap) → inv db.pages := by
  unfold openOn at hopen
  rw [bind_apply] at hopen
  generalize Prog.zoom Desk.world _ _ desk = run at hopen
  rcases run with ⟨opened | refusal | _, desk'⟩
  · dsimp only at hopen
    split_ifs at hopen with hhead
    · cases hopen
    rw [not_or] at hhead
    refine ⟨opened, hhead.1, fun {wanted weak inv} hlasting hsized hnew => ?_⟩
    unfold opening at hopen
    dsimp only at hopen
    set start : LocalDatabase ω :=
      ⟨.new opened.pageSize opened.pageCount options.blocksPerFetch options.cap, desk'.stats,
        ⟨opened.epoch, none, desk'.world⟩⟩ with hstart
    generalize hloaded : (if !start.pages.onDemand && decide (0 < start.pages.pageCount) then
      Load.fill bridge 0 start.pages.pageCount start else (.ok (), start)) = loaded at hopen
    have hweak : weak loaded.2.pages := by
      rw [← hloaded]
      split_ifs
      · obtain ⟨blocks, -, hblocks, hpages⟩ := Load.fill_any 0 start.pages.pageCount start
        rw [hpages]
        exact hsized _ _ hnew hblocks
      · exact hnew
    rcases loaded with ⟨_ | _ | _, last⟩
    · cases hopen
      exact hlasting.room last.pages last.stats hweak
    · cases hopen
    · cases hopen
  · cases hopen
  · cases hopen

end LocalDatabase

end RemoteVfs
