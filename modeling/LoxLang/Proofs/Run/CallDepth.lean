import LoxLang.Proofs.Run.Restoration

/-!
# The depth of calls

The tasks under way at a moment of a run form a stack, each performed by the one below it.  A task
starts at the depth of the one that performs it, and one deeper if that is a call, which then has
passed its checks.  So the depth is the count of the calls on the stack.

* `Task.UnderWay` — the tasks under way at a moment.

Principal results: `Task.back`, `Task.Calls.starts`, `Task.UnderWay.depth`.
-/

namespace LoxLang

namespace Task

/-- Nothing is asked of the nodes. -/
theorem codeIs_true (t : Task) : t.CodeIs fun _ => True :=
  ⟨fun _ _ => trivial, fun _ _ _ _ _ => trivial⟩

/-- **A task leaves the machine as it found it**, but for the store, the output and the clock. -/
theorem back {t : Task} {e : Machine} (h : t.end? = some e) : t.machine.Back (fun _ => True) e :=
  t.codeIs_true.back h

/-- **Whatever a task performs starts from a machine that is as the task found it**, or from what the
task makes of it for others. -/
theorem Calls.starts {t c : Task} (h : t.Calls c) :
    ∃ m, t.machine.Back (fun _ => True) m ∧ c.machine = t.opens m :=
  (t.codeIs_true.starts h).2

/-- No task changes the table of distances. -/
theorem Calls.table {t c : Task} (h : t.Calls c) : c.machine.table = t.machine.table := by
  obtain ⟨m, hback, hstart⟩ := h.starts
  rw [hstart]
  cases t <;> exact hback.table

/-- Whether a task is a call that passes its checks: the value takes as many arguments, and fewer
calls are active than allowed. -/
def isAdmitted : Task → Bool
  | .call _ callee args _ m =>
    m.store.arity? callee = some args.length ∧ (m.depth : Int) < m.maxDepth
  | _ => false

/-! ## Calls under way -/

/-- The tasks under way at a moment of a task, the innermost first. -/
inductive UnderWay (task : Task) : List Task → Prop where
  | start : UnderWay task [task]
  | step {t t' : Task} {ts : List Task} :
      UnderWay task (t :: ts) → Calls t t' → UnderWay task (t' :: t :: ts)

/-- A task starts with the depth of the one that performs it, and with one more inside a call. -/
theorem Calls.depth {t t' : Task} (h : Calls t t') :
    t'.machine.depth = t.machine.depth + (if t.isAdmitted then 1 else 0) ∧
      t'.machine.maxDepth = t.machine.maxDepth ∧
      (t.isAdmitted = true → (t.machine.depth : Int) < t.machine.maxDepth) := by
  obtain ⟨m, hback, hstart⟩ := h.starts
  rw [hstart]
  cases h with
  | @invoke n callee args paren m₀ harity hdepth =>
    have hadmitted : isAdmitted (.call (n + 1) callee args paren m₀) = true :=
      decide_eq_true ⟨harity, hdepth⟩
    rw [if_pos hadmitted]
    exact ⟨congrArg (· + 1) hback.depth, hback.maxDepth, fun _ => hdepth⟩
  | _ => exact ⟨hback.depth, hback.maxDepth, by simp [isAdmitted]⟩

/-- **The depth counts the calls under way**: those that passed their checks and have not ended. -/
theorem UnderWay.depth {task t : Task} {ts : List Task} (h : task.UnderWay (t :: ts)) :
    t.machine.depth = task.machine.depth + ts.countP isAdmitted ∧
      t.machine.maxDepth = task.machine.maxDepth ∧
      ((task.machine.depth : Int) ≤ max task.machine.maxDepth 0 →
        (t.machine.depth : Int) ≤ max task.machine.maxDepth 0) := by
  generalize hstack : t :: ts = stack at h
  induction h generalizing t ts with
  | start =>
    cases hstack
    exact ⟨rfl, rfl, id⟩
  | @step t₀ t' ts' hstack' hcalls ih =>
    cases hstack
    obtain ⟨hdepth, hmax, hbound⟩ := ih rfl
    obtain ⟨hdepth', hmax', hbelow⟩ := hcalls.depth
    refine ⟨?_, hmax'.trans hmax, fun htask => ?_⟩
    · rw [hdepth', hdepth, List.countP_cons]
      omega
    · have hle := hbound htask
      by_cases hadmitted : t₀.isAdmitted = true
      · have hlt := hbelow hadmitted
        rw [hdepth', if_pos hadmitted]
        omega
      · rw [hdepth', if_neg hadmitted]
        omega

end Task

end LoxLang
