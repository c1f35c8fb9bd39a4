import RemoteVfs.Local
import RemoteVfs.Base.Program.Rules

namespace RemoteVfs

open Base Base.Prog

namespace Background

variable {ω ε : Type} (E : Env ω)

theorem thread_jobs (list : List (Head × List (Nat × Bytes))) (rest : List Job) (writer : Background) :
    (thread E (list.map (fun entry => Job.Write entry.1 entry.2) ++ rest) writer : Prog ω ε _) =
      jobs E list writer >>= thread E rest := by
  induction list generalizing writer with
  | nil => rfl
  | cons entry list ih =>
      obtain ⟨head, blocks⟩ := entry
      rw [List.map_cons, List.cons_append, thread, jobs]
      funext s
      simp only [bind_apply]
      generalize (job E head blocks writer : Prog ω ε Background) s = run
      rcases run with ⟨after | _ | _, s'⟩
      · exact congrFun (ih after) s'
      · rfl
      · rfl

theorem jobs_raises {errors : ε → Prop} (list : List (Head × List (Nat × Bytes))) (writer : Background) :
    Raises errors (jobs E list writer) := by
  induction list generalizing writer with
  | nil => exact Raises.pure _
  | cons entry list ih =>
      refine Raises.bind (Raises.ite (Raises.pure _) (Raises.bind (Raises.attempt _) ?_)) fun writer =>
        ih writer
      rintro (_ | _)
      · refine Raises.bind (Raises.attempt _) ?_
        rintro (_ | _)
        · exact Raises.pure _
        · exact Raises.pure _
      · exact Raises.pure _

-- `read` waits for the thread to come to its job.
theorem read_eq_thread {writer : Background} (hrunning : writer.running = true) (first count : Nat)
    (s : ω) :
    (thread E (writer.queue.map (fun entry => Job.Write entry.1 entry.2) ++ [.Read first count])
        { writer with queue := [] } : Prog ω String _) s =
      match read E first count writer s with
      | (.ok (blocks, _), s') => (.ok [.ok blocks], s')
      | (.err reason, s') => (.ok [.error reason], s')
      | (.hang, s') => (.hang, s') := by
  have hraises : Raises (fun _ : String => False) (jobs E writer.queue { writer with queue := [] }) :=
    jobs_raises E _ _
  have hnever := hraises s
  rw [thread_jobs, read, if_pos hrunning, advance, List.take_length, List.drop_length]
  simp only [bind_apply]
  generalize (jobs E writer.queue { writer with queue := [] } : Prog ω String Background) s = run
    at hnever ⊢
  rcases run with ⟨after | reason | _, s'⟩
  · simp only [thread, answer]
    split_ifs
    · rfl
    · simp only [bind_apply, Prog.attempt]
      generalize E.store.read first count s' = answer
      rcases answer with ⟨blocks | reason | _, s''⟩ <;> rfl
  · exact (hnever reason rfl).elim
  · rfl

end Background

end RemoteVfs
