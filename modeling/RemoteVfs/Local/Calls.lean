import RemoteVfs.Database
import RemoteVfs.Base.Program.Rules
import Mathlib.Order.Basic

namespace RemoteVfs

open Base Base.Prog

-- The counters but `held_blocks`, which says how many blocks are in memory right now, and
-- `local_failures`, which natively is a copy of another counter.
def Stats.totals (stats : Stats) :=
  (stats.commits, stats.commitFrames, stats.committedBlocks, stats.committedBytes, stats.commitTime,
    stats.maxCommitTime, stats.fetches, stats.fetchedBlocks, stats.fetchTime, stats.reconnects,
    stats.localWrites, stats.localBlocksWritten, stats.localReads, stats.localBlocksRead,
    stats.localMisses, stats.caughtUp, stats.forgottenBlocks, stats.evictedBlocks,
    stats.recoveredCommits, stats.resentCommits, stats.healed)

-- Something was counted and nothing taken back.
def Stats.Grown (before after : Stats) : Prop :=
  before.totals ≤ after.totals ∧ after.localFailures = before.localFailures

-- A relation that every call of the local copy stays inside, on the side of the world.
structure Env.StoreMoves {ω : Type} (E : Env ω) (W : ω → ω → Prop) : Prop where
  head : Moves W E.store.head
  read : ∀ first count, Moves W (E.store.read first count)
  write : ∀ head blocks, Moves W (E.store.write head blocks)
  forget : ∀ head blocks, Moves W (E.store.forget head blocks)
  clear : Moves W E.store.clear
  spawn : ∀ world, W world (E.spawn world).2
  progress : ∀ world, W world (E.progress world).2

namespace Env.StoreMoves

variable {ω ε : Type} {E : Env ω} {W : ω → ω → Prop} [IsPreorder ω W]

theorem job (h : E.StoreMoves W) (head : Head) (blocks : List (Nat × Bytes)) (writer : Background) :
    Moves W (Background.job E head blocks writer : Prog ω ε Background) := by
  refine Moves.ite (Moves.pure _) (Moves.bind (Moves.attempt (h.write head blocks)) ?_)
  rintro (_ | _)
  · refine Moves.bind (Moves.attempt h.clear) ?_
    rintro (_ | _)
    · exact Moves.pure _
    · exact Moves.pure _
  · exact Moves.pure _

theorem jobs (h : E.StoreMoves W) (list : List (Head × List (Nat × Bytes))) (writer : Background) :
    Moves W (Background.jobs E list writer : Prog ω ε Background) := by
  induction list generalizing writer with
  | nil => exact Moves.pure _
  | cons entry rest ih => exact Moves.bind (h.job entry.1 entry.2 writer) fun writer => ih writer

theorem advance (h : E.StoreMoves W) (count : Nat) (writer : Background) :
    Moves W (writer.advance E count : Prog ω ε Background) := h.jobs _ _

theorem copyRead (h : E.StoreMoves W) (copy : LocalCopy) (first count : Nat) :
    Moves W (copy.read E first count) := by
  cases copy with
  | None => exact Moves.pure _
  | Ready => exact Moves.bind (h.read first count) fun _ => Moves.pure _
  | Writing writer =>
      refine Moves.bind (Moves.ite ?_ (Moves.fail _)) fun _ => Moves.pure _
      refine Moves.bind (h.advance _ _) fun writer => Moves.ite (Moves.fail _) ?_
      exact Moves.bind (h.read first count) fun _ => Moves.pure _

theorem catchUp (h : E.StoreMoves W) (copy : LocalCopy) (head : Head) (blocks : List Nat) :
    Moves W (copy.catchUp E head blocks) := by
  cases copy with
  | Ready => exact h.forget head blocks
  | None => exact Moves.fail _
  | Writing writer => exact Moves.fail _

end Env.StoreMoves

theorem Remote.forgetCopy_moves {ω ε : Type} {E : Env ω} {R : Database ω → Database ω → Prop}
    [IsPreorder (Database ω) R] (hclear : Moves R (Database.onWorld E.store.clear))
    (hdrop : Moves R (dropCopy : Prog (Database ω) ε Unit)) :
    Moves R (forgetCopy E : Prog (Database ω) ε Unit) := by
  refine Moves.bind (Moves.gets _) fun db => ?_
  cases db.remote.copy with
  | Ready =>
      refine Moves.bind (Moves.attempt hclear) ?_
      rintro (_ | _)
      · exact hdrop
      · exact Moves.pure _
  | None => exact Moves.pure _
  | Writing writer => exact Moves.pure _

-- A relation that loading an opened database stays inside if the calls of its copy do.
structure Env.CopyCalls {ω : Type} (E : Env ω) (R : Database ω → Database ω → Prop) : Prop where
  head : Moves R (Database.onWorld E.store.head)
  clear : Moves R (Database.onWorld E.store.clear)
  catchUp : ∀ (copy : LocalCopy) head blocks, Moves R (Database.onWorld (copy.catchUp E head blocks))
  dropCopy : ∀ {ε : Type}, Moves R (Remote.dropCopy : Prog (Database ω) ε Unit)
  writeCopy : ∀ {ε : Type} indexes, Moves R (Remote.writeCopy E indexes : Prog (Database ω) ε Unit)
  preloadStep : ∀ {ε : Type} first,
    Moves R (Remote.preloadStep E first : Prog (Database ω) ε (Nat ⊕ Bool))
  count : ∀ {ε : Type} (change : Stats → Stats), (∀ stats, Stats.Grown stats (change stats)) →
    Moves R (Database.count change : Prog (Database ω) ε Unit)

namespace Env.CopyCalls

open Remote

variable {ω ε : Type} {E : Env ω} {R : Database ω → Database ω → Prop} [IsPreorder (Database ω) R]

theorem giveCopyUp (h : E.CopyCalls R) : Moves R (giveCopyUp E : Prog (Database ω) ε Bool) :=
  Moves.bind (forgetCopy_moves h.clear h.dropCopy) fun _ => Moves.pure _

theorem useCopy (h : E.CopyCalls R) : Moves R (useCopy E : Prog (Database ω) ε Bool) := by
  refine Moves.bind (Moves.gets _) fun db => Moves.ite (Moves.pure _) ?_
  refine Moves.bind (Moves.gets _) fun db => ?_
  refine Moves.bind (Moves.loop h.preloadStep _ _) fun loaded => ?_
  refine Moves.ite (Moves.bind (h.count _ fun stats => ?_) fun _ => Moves.pure _) (Moves.pure _)
  simp [Stats.Grown, Stats.totals]

-- The rest, if the requests to the server about the database and the blocks in memory stay inside
-- the relation too.
theorem catchCopyUp_from (h : E.CopyCalls R)
    (hkeep : ∀ loaded, Moves R (Prog.modify (Held.mapPages (Pages.keepAll · loaded)) :
      Prog (Database ω) ClientError Unit))
    (hnow : Moves R (Database.onLink (Client.now E) : Prog (Database ω) ClientError Nat)) {db : Database ω}
    (hchanges : ∀ version, Moves R (Database.onLink (Client.changes E db.remote.dbId version)))
    (hfetch : ∀ version ranges size,
      Moves R (Database.onLink (Client.fetchRanges E db.remote.dbId version ranges size))) (behind : Head) :
    R db (Remote.catchCopyUp E behind db).2 := by
  unfold Remote.catchCopyUp
  rw [get_bind]
  refine Moves.bind (hchanges _) (fun changes => ?_) db
  refine Moves.ite (Moves.pure _) (Moves.ite (Moves.pure _) ?_)
  refine Moves.bind (Moves.attempt (h.catchUp _ _ _)) ?_
  rintro (_ | _)
  · exact Moves.bind h.dropCopy fun _ => Moves.pure _
  · refine Moves.bind (h.count _ fun stats => by simp [Stats.Grown, Stats.totals]) fun _ => ?_
    refine Moves.ite ?_ (Moves.pure _)
    refine Moves.bind hnow fun _ => Moves.bind (hfetch _ _ _) fun _ => Moves.bind hnow fun _ => ?_
    refine Moves.bind (h.count _ fun stats => by simp [Stats.Grown, Stats.totals]) fun _ => ?_
    exact Moves.bind (hkeep _) fun _ => Moves.bind (h.writeCopy _) fun _ => Moves.pure _

theorem catchCopyUp (h : E.CopyCalls R)
    (hkeep : ∀ loaded, Moves R (Prog.modify (Held.mapPages (Pages.keepAll · loaded)) :
      Prog (Database ω) ClientError Unit))
    (hnow : Moves R (Database.onLink (Client.now E) : Prog (Database ω) ClientError Nat))
    (hchanges : ∀ dbId version, Moves R (Database.onLink (Client.changes E dbId version)))
    (hfetch : ∀ dbId version ranges size,
      Moves R (Database.onLink (Client.fetchRanges E dbId version ranges size))) (behind : Head) :
    Moves R (catchCopyUp E behind) :=
  fun db => h.catchCopyUp_from hkeep hnow (hchanges db.remote.dbId) (hfetch db.remote.dbId) behind

theorem takeCopy (h : E.CopyCalls R) (hcatch : ∀ behind, Moves R (Remote.catchCopyUp E behind)) :
    Moves R (takeCopy E) := by
  refine Moves.bind (Moves.gets _) fun db => Moves.ite (Moves.pure _) ?_
  refine Moves.bind (Moves.attempt h.head) ?_
  rintro (_ | head)
  · exact Moves.bind h.dropCopy fun _ => Moves.pure _
  · dsimp only
    cases head.filter (usable db.remote db.pages) with
    | none => exact h.giveCopyUp
    | some head =>
        refine Moves.ite (Moves.fail _) (Moves.ite ?_ h.useCopy)
        exact Moves.bind (hcatch _) fun _ => Moves.ite h.useCopy h.giveCopyUp

end Env.CopyCalls

-- The same on the side of the database, with its counters and the state of the copy.
structure Env.CopyMoves {ω : Type} (E : Env ω) (W : ω → ω → Prop)
    (R : Database ω → Database ω → Prop) : Prop where
  store : E.StoreMoves W
  world : ∀ {ε α : Type} {body : Prog ω ε α}, Moves W body → Moves R (Database.onWorld body)
  count : ∀ {ε : Type} (change : Stats → Stats),
    Moves R (Database.count change : Prog (Database ω) ε Unit)
  setCopy : ∀ {ε : Type} (copy : LocalCopy), Moves R (Database.setCopy copy : Prog (Database ω) ε Unit)

namespace Env.CopyMoves

open Remote

variable {ω ε : Type} {E : Env ω} {W : ω → ω → Prop} {R : Database ω → Database ω → Prop}
  [IsPreorder (Database ω) R]

theorem dropCopy (h : E.CopyMoves W R) : Moves R (dropCopy : Prog (Database ω) ε Unit) :=
  Moves.bind (h.count _) fun _ => h.setCopy _

theorem writer (h : E.CopyMoves W R) :
    Moves R (writer E : Prog (Database ω) ε (Option Background)) := by
  refine Moves.bind (Moves.gets _) fun db => ?_
  cases db.remote.copy with
  | Ready => exact Moves.bind (h.world h.store.spawn) fun _ => Moves.pure _
  | None => exact Moves.pure _
  | Writing writer => exact Moves.pure _

theorem writeCopyBrowser (h : E.CopyMoves W R) (head : Head) (blocks : List (Nat × Bytes)) :
    Moves R (writeCopyBrowser E head blocks : Prog (Database ω) ε Unit) := by
  refine Moves.bind (Moves.gets _) fun db => ?_
  cases db.remote.copy with
  | Ready =>
      refine Moves.bind (Moves.attempt (h.world (h.store.write head blocks))) ?_
      rintro (_ | _)
      · exact Moves.bind (h.count _) fun _ => h.setCopy _
      · exact h.count _
  | None => exact Moves.pure _
  | Writing writer => exact Moves.pure _

variable [IsPreorder ω W]

theorem writeCopyNative (h : E.CopyMoves W R) (head : Head) (blocks : List (Nat × Bytes)) :
    Moves R (writeCopyNative E head blocks : Prog (Database ω) ε Unit) := by
  refine Moves.bind h.writer ?_
  rintro (_ | writer)
  · exact Moves.pure _
  · refine Moves.bind (h.world h.store.progress) fun progress => ?_
    refine Moves.bind (h.world (h.store.advance _ _)) fun writer => Moves.bind (h.count _) fun _ => ?_
    cases writer.write head blocks with
    | some writer => exact Moves.bind (h.setCopy _) fun _ => h.count _
    | none => exact h.setCopy _

theorem writeCopy (h : E.CopyMoves W R) (indexes : List Nat) :
    Moves R (writeCopy E indexes : Prog (Database ω) ε Unit) := by
  refine Moves.bind (Moves.gets _) fun db => Moves.ite (Moves.pure _) ?_
  exact Moves.ite (h.writeCopyNative _ _) (h.writeCopyBrowser _ _)

section Blocks

-- What is read from the copy is kept in memory.
variable (hkeep : ∀ {ε : Type} (loaded : List (Nat × Bytes)),
  Moves R (Prog.modify (Held.mapPages (Pages.keepAll · loaded)) : Prog (Database ω) ε Unit))
include hkeep

theorem takeFromCopy (h : E.CopyMoves W R) (first blocks : Nat) :
    Moves R (takeFromCopy E first blocks : Prog (Database ω) ε Bool) := by
  refine Moves.bind (Moves.gets _) fun db => Moves.ite (Moves.pure _) ?_
  refine Moves.bind (h.count _) fun _ => ?_
  refine Moves.bind (Moves.attempt (h.world (h.store.copyRead _ _ _))) ?_
  rintro (_ | ⟨read, copy⟩)
  · exact Moves.bind h.dropCopy fun _ => Moves.pure _
  · refine Moves.bind (h.setCopy _) fun _ => Moves.ite ?_ ?_
    · exact Moves.bind (h.count _) fun _ => Moves.pure _
    · exact Moves.bind (h.count _) fun _ => Moves.bind (hkeep _) fun _ => Moves.pure _

theorem preloadStep (h : E.CopyMoves W R) (first : Nat) :
    Moves R (preloadStep E first : Prog (Database ω) ε (Nat ⊕ Bool)) := by
  refine Moves.bind (Moves.gets _) fun db => Moves.ite (Moves.pure _) ?_
  refine Moves.bind (Moves.attempt (h.world (h.store.copyRead _ _ _))) ?_
  rintro (_ | ⟨read, copy⟩)
  · exact Moves.bind h.dropCopy fun _ => Moves.pure _
  · refine Moves.bind (h.setCopy _) fun _ => Moves.ite ?_ ?_
    · exact Moves.bind (h.count _) fun _ => Moves.pure _
    · exact Moves.bind (h.count _) fun _ => Moves.bind (hkeep _) fun _ => Moves.pure _

theorem calls (h : E.CopyMoves W R) : E.CopyCalls R where
  head := h.world h.store.head
  clear := h.world h.store.clear
  catchUp copy head blocks := h.world (h.store.catchUp copy head blocks)
  dropCopy := h.dropCopy
  writeCopy := h.writeCopy
  preloadStep := h.preloadStep hkeep
  count change _ := h.count change

end Blocks

end Env.CopyMoves

end RemoteVfs
