import RemoteVfs.Network.Invariant
import RemoteVfs.Base.Program.Rules

namespace RemoteVfs

open Base Base.Prog

-- The client and the network fit together, and every commit that may be sent has a commit
-- id that the client has drawn.
structure Link.Ready (P : Pb.Commit → Prop) (link : Link Net) : Prop where
  wf : link.world.Wf link.client.nextId
  allowed : ∀ part, P part → ∃ k < link.world.drawn, part.commitId = link.world.ids k

-- What every step of the client keeps. `P` are the commits that may be sent on the way,
-- `D` bounds how the cache file changes.
structure Link.Kept (P : Pb.Commit → Prop) (D : Disk → Disk → Prop) (before after : Link Net) :
    Prop where
  ready : after.Ready P
  later : before.world.Later after.world
  sent : ∀ part, after.world.asked.Sent part → before.world.asked.Sent part ∨ P part
  disk : D before.world.disk after.world.disk

-- No commit is sent.
def NoCommit (_ : Pb.Commit) : Prop := False

def Link.Moved (P : Pb.Commit → Prop) (D : Disk → Disk → Prop) (before after : Link Net) : Prop :=
  before.Ready P → Link.Kept P D before after

namespace Net

-- What the others' moves leave alone.
structure Same (before after : Net) : Prop where
  asked : after.asked = before.asked
  disk : after.disk = before.disk

theorem Same.trans {a b c : Net} (hab : a.Same b) (hbc : b.Same c) : a.Same c :=
  ⟨hbc.asked.trans hab.asked, hbc.disk.trans hab.disk⟩

theorem move_same (net : Net) (move : Move) : net.Same (net.move move) := by
  cases move with
  | Serve conn fate =>
      simp only [Net.move, serve]
      split
      · exact ⟨rfl, rfl⟩
      · split <;> exact ⟨rfl, rfl⟩
  | Commit commitId pageCount blocks =>
      simp only [Net.move]
      split_ifs <;> exact ⟨rfl, rfl⟩
  | _ => exact ⟨rfl, rfl⟩

theorem moves_same (net : Net) (moves : List Move) : net.Same (net.moves moves) := by
  induction moves generalizing net with
  | nil => exact ⟨rfl, rfl⟩
  | cons move rest ih => exact (move_same net move).trans (ih _)

theorem tick_same (net : Net) : net.Same net.tick.2 := by
  obtain ⟨hasked, hdisk⟩ :=
    moves_same { net with turn := net.turn + 1 } (net.turns net.turn).moves
  exact ⟨hasked, hdisk⟩

-- Nothing is sent.
def Quietly (D : Disk → Disk → Prop) (before after : Net) : Prop :=
  ∀ n, before.Wf n → after.Wf n ∧ before.Later after ∧ after.asked = before.asked ∧
    D before.disk after.disk

-- A call into the world that sends nothing.
abbrev Quiet {ε α : Type} (D : Disk → Disk → Prop) (op : Prog Net ε α) : Prop :=
  Moves (Quietly D) op

variable {D : Disk → Disk → Prop}

instance [IsPreorder Disk D] : IsPreorder Net (Quietly D) where
  refl _ _ h := ⟨h, Later.refl _, rfl, Std.Refl.refl _⟩
  trans _ _ _ hab hbc n h := by
    obtain ⟨hb, hlater, hasked, hdisk⟩ := hab n h
    obtain ⟨hc, hlater', hasked', hdisk'⟩ := hbc n hb
    exact ⟨hc, hlater.trans hlater', hasked'.trans hasked, IsTrans.trans _ _ _ hdisk hdisk'⟩

theorem Wf.mono {net : Net} {m n : Nat} (h : net.Wf m) (hmn : m ≤ n) : net.Wf n :=
  ⟨h.distinct, h.conns, fun id hid => (h.bound id hid).trans hmn, h.log, h.others,
    h.drawn⟩

theorem quiet_tick [IsPreorder Disk D] {ε α : Type} (answer : Turn → Outcome ε α) :
    Quiet D (fun net => (answer net.tick.1, net.tick.2)) := by
  intro net n h
  obtain ⟨hwf, hlater⟩ := tick_wf h
  have hsame := tick_same net
  exact ⟨hwf, hlater, hsame.asked, hsame.disk ▸ Std.Refl.refl _⟩

-- A call that does something on top of the others' moves.
theorem quiet_attempt [IsPreorder Disk D] {α : Type} {body : Turn → Prog Net String α}
    (h : ∀ turn, Quiet D (body turn)) : Quiet D (attempt body) := by
  intro net n hwf
  obtain ⟨hwf', hlater⟩ := tick_wf hwf
  have hsame := tick_same net
  unfold attempt
  dsimp only
  cases net.tick.1.fail with
  | some reason => exact ⟨hwf', hlater, hsame.asked, hsame.disk ▸ Std.Refl.refl _⟩
  | none =>
      obtain ⟨h1, h2, h3, h4⟩ := h net.tick.1 net.tick.2 n hwf'
      exact ⟨h1, hlater.trans h2, h3.trans hsame.asked, hsame.disk ▸ h4⟩

theorem quiet_stay [IsPreorder Disk D] {ε α : Type} (answer : Net → Outcome ε α) :
    Quiet D (fun net => (answer net, net)) :=
  fun _ _ h => ⟨h, Later.refl _, rfl, Std.Refl.refl _⟩

-- Changing the connections only.
theorem quiet_conns [IsPreorder Disk D] {net : Net} {n : Nat} (h : net.Wf n) {conns : List Conn}
    (hconns : ∀ conn ∈ conns, conn.Wf net.server net.asked) :
    ({ net with conns := conns } : Net).Wf n ∧ net.Later { net with conns := conns } ∧
      ({ net with conns := conns } : Net).asked = net.asked ∧
      D net.disk ({ net with conns := conns } : Net).disk :=
  ⟨h.of_log_eq (Server.Extends.refl _) rfl hconns, later_of_server (Server.Extends.refl _), rfl,
    Std.Refl.refl _⟩

theorem quiet_connect [IsPreorder Disk D] : Quiet D connect := by
  refine quiet_attempt fun _ net n h => quiet_conns h fun conn hconn => ?_
  rcases List.mem_append.mp hconn with hold | hnew
  · exact h.conns conn hold
  · rw [List.mem_singleton.mp hnew]
    exact Conn.wf_new _ _

theorem mem_modify_last {α : Type} {change : α → α} {list : List α} {value : α}
    (h : value ∈ list.modify (list.length - 1) change) :
    value ∈ list ∨ ∃ old ∈ list, list.getLast? = some old ∧ value = change old := by
  obtain ⟨j, hj⟩ := List.mem_iff_getElem?.mp h
  rw [List.getElem?_modify] at hj
  obtain ⟨old, hold, rfl⟩ := Option.map_eq_some_iff.mp hj
  have hmem := List.mem_of_getElem? hold
  split_ifs with hlast
  · exact Or.inr ⟨old, hmem, by rw [List.getLast?_eq_getElem?, hlast, hold], rfl⟩
  · exact Or.inl hmem

theorem quiet_receive [IsPreorder Disk D] : Quiet D receive := by
  refine quiet_attempt fun turn net n h => ?_
  unfold next
  cases turn.malformed with
  | some reason => exact ⟨h, Later.refl _, rfl, Std.Refl.refl _⟩
  | none =>
      dsimp only
      split
      · exact ⟨h, Later.refl _, rfl, Std.Refl.refl _⟩
      · rename_i frame hframe
        refine quiet_conns h fun conn hconn => ?_
        rcases mem_modify_last hconn with hold | ⟨old, hold, hlast, rfl⟩
        · exact h.conns conn hold
        · rw [hlast] at hframe
          exact (h.conns old hold).receive (List.getElem?_eq_some_iff.mp hframe).1

theorem quiet_random [IsPreorder Disk D] {ε : Type} : Quiet D (Env.ask random : Prog Net ε Bytes) := by
  intro net n h
  obtain ⟨hwf, hlater⟩ := tick_wf h
  have hsame := tick_same net
  refine ⟨⟨?_, hwf.conns, hwf.bound, hwf.log, hwf.others, ?_⟩, ?_, hsame.asked,
    hsame.disk ▸ Std.Refl.refl _⟩
  · exact ⟨hwf.distinct.injective, hwf.distinct.nonempty, hwf.distinct.others⟩
  · intro part hpart
    obtain ⟨k, hk, hid⟩ := hwf.drawn part hpart
    exact ⟨k, Nat.lt_succ_of_lt hk, hid⟩
  · exact ⟨hlater.ext, hlater.asked, hlater.ids, hlater.turns, hlater.drawn.trans (Nat.le_succ _)⟩

end Net

namespace Link

variable {P : Pb.Commit → Prop} {D : Disk → Disk → Prop}

theorem Kept.refl [IsPreorder Disk D] {link : Link Net} (h : link.Ready P) : Kept P D link link :=
  ⟨h, Net.Later.refl _, fun _ h => Or.inl h, Std.Refl.refl _⟩

theorem Kept.trans [IsPreorder Disk D] {a b c : Link Net} (hab : Kept P D a b)
    (hbc : Kept P D b c) : Kept P D a c := by
  refine ⟨hbc.ready, hab.later.trans hbc.later, fun part hpart => ?_,
    IsTrans.trans _ _ _ hab.disk hbc.disk⟩
  rcases hbc.sent part hpart with h | h
  · exact hab.sent part h
  · exact Or.inr h

instance [IsPreorder Disk D] : IsPreorder (Link Net) (Moved P D) where
  refl _ h := Kept.refl h
  trans _ _ _ hab hbc ha := (hab ha).trans (hbc (hab ha).ready)

theorem Ready.noCommit {link : Link Net} (h : link.Ready P) : link.Ready NoCommit :=
  ⟨h.wf, fun _ h => h.elim⟩

theorem Ready.of_later {before after : Link Net} (h : before.Ready P)
    (hwf : after.world.Wf after.client.nextId) (hlater : before.world.Later after.world) :
    after.Ready P := by
  refine ⟨hwf, fun part hpart => ?_⟩
  obtain ⟨k, hk, hid⟩ := h.allowed part hpart
  exact ⟨k, Nat.lt_of_lt_of_le hk hlater.drawn, by rw [hlater.ids]; exact hid⟩

theorem outside_moved {ε α : Type} {op : Prog Net ε α} (h : Net.Quiet D op) :
    Moves (Moved P D) (outside op) := by
  intro link hready
  obtain ⟨hwf, hlater, hasked, hdisk⟩ := h link.world _ hready.wf
  refine ⟨hready.of_later hwf hlater, hlater, fun part hpart => Or.inl ?_, hdisk⟩
  have hpart' : (op link.world).2.asked.Sent part := hpart
  rw [hasked] at hpart'
  exact hpart'

-- Changing the client alone. Request ids only go up.
theorem client_moved [IsPreorder Disk D] {ε : Type} {change : Client → Client}
    (h : ∀ client, client.nextId ≤ (change client).nextId) :
    Moves (Moved P D) (Prog.modify (mapClient change) : Prog (Link Net) ε Unit) := by
  intro link hready
  exact ⟨⟨hready.wf.mono (h _), hready.allowed⟩, Net.Later.refl _, fun _ h => Or.inl h,
    Std.Refl.refl _⟩

end Link

end RemoteVfs
