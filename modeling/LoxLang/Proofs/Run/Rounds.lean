import LoxLang.Proofs.Grammar.Rules
import LoxLang.Proofs.Run.Allowance

/-!
# The meaning of a `for`

A `for` is read as a tree of other statements.  `ForLoop.run` says what it means without that tree:
one new frame around the whole loop, the first clause once, and then rounds of the condition, the
body and the increment, all in that frame.

The tree has its frames elsewhere: one around the first clause and the loop if there is a first
clause, and one around the body and the increment in every round if there is an increment.
`ForLoop.runApart` has them there, and is the tree but for the allowance.

* `rounds` — takes turns as long as a test allows it.
* `ForLoop.run` — the meaning of a `for`.
* `ForLoop.runApart` — the same parts in the frames of the tree.

Principal results: `ForLoop.tree_stays`, `ForLoop.stays_tree`.
-/

namespace LoxLang

/-! ## Loops -/

/-- Goes on after a statement that completed normally. -/
def Outcome.andThen (o : Outcome Completion) (next : Machine → Outcome Completion) :
    Outcome Completion :=
  o.bind fun completion m =>
  match completion with
  | .normal => next m
  | .returned value => .done (.returned value) m

/-- Runs something in a new frame inside the current one, and goes back. -/
def Machine.within (m : Machine) (run : Machine → Outcome Completion) : Outcome Completion :=
  (run (m.enter .empty m.frame)).ending (Machine.leaveTo m.frame)

/-- Takes turns as long as a test allows it, up to the first that returns. -/
def rounds (test : Nat → Machine → Outcome Bool) (turn : Nat → Machine → Outcome Completion) :
    Nat → Machine → Outcome Completion
  | 0, _ => .exhausted
  | n + 1, m =>
    (test n m).bind fun again m =>
    if again then (turn n m).andThen (rounds test turn n) else .done .normal m

/-- The parts of a `for`. -/
structure ForLoop where
  start : Option Stmt
  cond : Option Expr
  increment : Option Expr
  body : Stmt

namespace ForLoop

/-- The first clause, if there is one. -/
def begin (l : ForLoop) (n : Nat) (m : Machine) : Outcome Completion :=
  match l.start with
  | none => .done .normal m
  | some start => execute n start m

/-- Whether there is another round.  A missing condition is true. -/
def test (l : ForLoop) (n : Nat) (m : Machine) : Outcome Bool :=
  match l.cond with
  | none => .done true m
  | some cond => (evaluate n cond m).bind fun v m => .done v.truthy m

/-- The increment, if there is one. -/
def advance (l : ForLoop) (n : Nat) (m : Machine) : Outcome Completion :=
  match l.increment with
  | none => .done .normal m
  | some value => (evaluate n value m).bind fun _ m => .done .normal m

/-- The body, and then the increment unless the body returns. -/
def turn (l : ForLoop) (n : Nat) (m : Machine) : Outcome Completion :=
  (execute n l.body m).andThen (l.advance n)

/-- **The meaning of a `for`**: one new frame around the whole loop, the first clause once, then
rounds in that frame. -/
def run (l : ForLoop) (n : Nat) (m : Machine) : Outcome Completion :=
  m.within fun m => (l.begin n m).andThen (rounds l.test l.turn n)

/-- A turn as the tree takes it: with an increment, it has a frame of its own. -/
def turnApart (l : ForLoop) (n : Nat) (m : Machine) : Outcome Completion :=
  match l.increment with
  | none => execute n l.body m
  | some _ => m.within (l.turn n)

/-- The parts of a `for` in the frames of its tree. -/
def runApart (l : ForLoop) (n : Nat) (m : Machine) : Outcome Completion :=
  match l.start with
  | none => rounds l.test l.turnApart n m
  | some start => m.within fun m => (execute n start m).andThen (rounds l.test l.turnApart n)

end ForLoop

/-! ## More allowance -/

namespace Outcome.Stays

variable {α : Type}

/-- What one more step of allowance does not change, no more allowance changes. -/
theorem of_succ {f : Nat → Outcome α} (h : ∀ n, (f n).Stays (f (n + 1))) {n k : Nat} (hle : n ≤ k) :
    (f n).Stays (f k) := by
  induction hle with
  | refl => exact .refl _
  | step _ ih => exact ih.trans (h _)

theorem andThen {o o' : Outcome Completion} {f f' : Machine → Outcome Completion} (h : o.Stays o')
    (hf : ∀ m, (f m).Stays (f' m)) : (o.andThen f).Stays (o'.andThen f') := by
  refine h.bind fun completion m => ?_
  cases completion with
  | normal => exact hf m
  | returned v => exact .refl _

theorem within {m : Machine} {f f' : Machine → Outcome Completion}
    (hf : ∀ m, (f m).Stays (f' m)) : (m.within f).Stays (m.within f') :=
  (hf _).ending

end Outcome.Stays

theorem execute_stays {n k : Nat} (hle : n ≤ k) (s : Stmt) (m : Machine) :
    (execute n s m).Stays (execute k s m) :=
  .of_succ (f := fun n => execute n s m) (fun n => (steady n).execute s m) hle

theorem evaluate_stays {n k : Nat} (hle : n ≤ k) (e : Expr) (m : Machine) :
    (evaluate n e m).Stays (evaluate k e m) :=
  .of_succ (f := fun n => evaluate n e m) (fun n => (steady n).evaluate e m) hle

/-- The rounds of tests and turns that need more allowance. -/
theorem rounds_stays {test test' : Nat → Machine → Outcome Bool}
    {turn turn' : Nat → Machine → Outcome Completion} {k : Nat}
    (htest : ∀ n m, (test n m).Stays (test' (n + k) m))
    (hturn : ∀ n m, (turn n m).Stays (turn' (n + k) m)) :
    ∀ n m, (rounds test turn n m).Stays (rounds test' turn' (n + k) m)
  | 0, _ => .exhausted _
  | n + 1, m => by
    rw [Nat.add_right_comm, rounds, rounds]
    refine (htest n m).bind fun again m₁ => ?_
    cases again with
    | false => exact .refl _
    | true => exact (hturn n m₁).andThen (rounds_stays htest hturn n)

/-- A condition as a test. -/
def holds (cond : Expr) (n : Nat) (m : Machine) : Outcome Bool :=
  (evaluate n cond m).bind fun v m => .done v.truthy m

/-- The rounds of a loop. -/
theorem repeatWhile_eq (cond : Expr) (s : Stmt) :
    ∀ n m, repeatWhile n cond s m = rounds (holds cond) (fun n => execute n s) n m
  | 0, m => by
    rw [repeatWhile, rounds]
  | n + 1, m => by
    have hnext : repeatWhile n cond s = rounds (holds cond) (fun n => execute n s) n :=
      funext (repeatWhile_eq cond s n)
    rw [repeatWhile, rounds, holds, hnext]
    cases evaluate n cond m <;> rfl

/-! ## Blocks of two statements -/

/-- A list of one statement is the statement. -/
theorem executeAll_one_stays (t : Stmt) (n : Nat) (m : Machine) :
    (executeAll n [t] m).Stays (execute n t m) := by
  cases n with
  | zero =>
    rw [executeAll]
    exact .exhausted _
  | succ n =>
    have hsame : (executeAll (n + 1) [t] m).Stays (execute n t m) := by
      rw [executeAll]
      intro hne
      cases ho : execute n t m with
      | done completion m₁ =>
        rw [ho] at hne
        cases completion with
        | returned v => rfl
        | normal =>
          cases n with
          | zero => exact absurd (by rw [Outcome.bind_done, executeAll]) hne
          | succ n => rw [Outcome.bind_done, executeAll]
      | _ => rfl
    exact hsame.trans (execute_stays (Nat.le_succ n) t m)

theorem stays_executeAll_one (t : Stmt) (n : Nat) (m : Machine) :
    (execute n t m).Stays (executeAll (n + 1) [t] m) := by
  cases n with
  | zero =>
    rw [execute]
    exact .exhausted _
  | succ n =>
    intro _
    rw [executeAll]
    cases execute (n + 1) t m with
    | done completion m₁ =>
      cases completion with
      | returned v => rfl
      | normal => rw [Outcome.bind_done, executeAll]
    | _ => rfl

/-- A block of two statements runs them in one new frame. -/
theorem block_stays (id : Nat) (s t : Stmt) (n : Nat) (m : Machine) :
    (execute n (.block id [s, t]) m).Stays
      (m.within fun m => (execute n s m).andThen (execute n t)) := by
  match n with
  | 0 =>
    rw [execute]
    exact .exhausted _
  | 1 =>
    rw [execute, executeIn]
    exact .exhausted _
  | 2 =>
    rw [execute, executeIn, executeAll]
    exact .exhausted _
  | n + 3 =>
    rw [execute, executeIn, executeAll]
    refine Outcome.Stays.ending ((execute_stays (by omega) s _).bind fun completion m₁ => ?_)
    cases completion with
    | returned v => exact .refl _
    | normal => exact (executeAll_one_stays t n m₁).trans (execute_stays (by omega) t m₁)

theorem stays_block (id : Nat) (s t : Stmt) (n : Nat) (m : Machine) :
    (m.within fun m => (execute n s m).andThen (execute n t)).Stays
      (execute (n + 4) (.block id [s, t]) m) := by
  rw [execute, executeIn, executeAll]
  refine Outcome.Stays.ending ((execute_stays (by omega) s _).bind fun completion m₁ => ?_)
  cases completion with
  | returned v => exact .refl _
  | normal => exact stays_executeAll_one t n m₁

/-! ## The tree of a `for` -/

namespace ForLoop

variable (l : ForLoop)

/-- The condition that the tree has. -/
theorem holds_stays (always : Nat) {n k : Nat} (hle : n ≤ k) (m : Machine) :
    (holds (l.cond.getD (.literal always (.bool true))) n m).Stays (l.test k m) := by
  unfold holds test
  cases l.cond with
  | some cond => exact (evaluate_stays hle cond m).bind fun _ _ => .refl _
  | none =>
    cases n with
    | zero =>
      rw [Option.getD_none, evaluate]
      exact .exhausted _
    | succ n =>
      rw [Option.getD_none, evaluate]
      exact .refl _

theorem stays_holds (always : Nat) {n k : Nat} (hlt : n < k) (m : Machine) :
    (l.test n m).Stays (holds (l.cond.getD (.literal always (.bool true))) k m) := by
  unfold holds test
  cases l.cond with
  | some cond => exact (evaluate_stays (Nat.le_of_lt hlt) cond m).bind fun _ _ => .refl _
  | none =>
    obtain ⟨k, rfl⟩ := Nat.exists_eq_succ_of_ne_zero (Nat.ne_of_gt (Nat.zero_lt_of_lt hlt))
    rw [Option.getD_none, evaluate]
    exact .refl _

/-- The body that the loop of the tree has. -/
def treeBody (step inner : Nat) : Stmt :=
  match l.increment with
  | none => l.body
  | some value => .block inner [l.body, .expression step value]

theorem treeBody_stays (step inner : Nat) {n k : Nat} (hle : n ≤ k) (m : Machine) :
    (execute n (l.treeBody step inner) m).Stays (l.turnApart k m) := by
  unfold treeBody turnApart
  cases hincrement : l.increment with
  | none => exact execute_stays hle l.body m
  | some value =>
    refine (block_stays inner l.body _ n m).trans (.within fun m₁ => ?_)
    refine (execute_stays hle l.body m₁).andThen fun m₂ => ?_
    rw [advance, hincrement]
    cases n with
    | zero =>
      rw [execute]
      exact .exhausted _
    | succ n =>
      rw [execute]
      exact (evaluate_stays (by omega) value m₂).bind fun _ _ => .refl _

theorem stays_treeBody (step inner : Nat) (n : Nat) (m : Machine) :
    (l.turnApart n m).Stays (execute (n + 5) (l.treeBody step inner) m) := by
  unfold treeBody turnApart
  cases hincrement : l.increment with
  | none => exact execute_stays (by omega) l.body m
  | some value =>
    refine Outcome.Stays.trans (.within fun m₁ => ?_) (stays_block inner l.body _ (n + 1) m)
    refine (execute_stays (by omega) l.body m₁).andThen fun m₂ => ?_
    rw [advance, hincrement, execute]
    exact .refl _

theorem loop_stays (step inner always loop : Nat) (n : Nat) (m : Machine) :
    (execute n (.loop loop (l.cond.getD (.literal always (.bool true))) (l.treeBody step inner))
      m).Stays (rounds l.test l.turnApart n m) := by
  cases n with
  | zero =>
    rw [execute]
    exact .exhausted _
  | succ n =>
    rw [execute, repeatWhile_eq]
    exact rounds_stays (k := 1) (fun n m => l.holds_stays always (Nat.le_succ n) m)
      (fun n m => l.treeBody_stays step inner (Nat.le_succ n) m) n m

theorem stays_loop (step inner always loop : Nat) (n : Nat) (m : Machine) :
    (rounds l.test l.turnApart n m).Stays
      (execute (n + 6) (.loop loop (l.cond.getD (.literal always (.bool true)))
        (l.treeBody step inner)) m) := by
  rw [execute, repeatWhile_eq]
  exact rounds_stays (k := 5) (fun n m => l.stays_holds always (by omega) m)
    (fun n m => l.stays_treeBody step inner n m) n m

/-- The tree of a `for`, with the numbers of its new nodes. -/
def tree (step inner always loop outer : Nat) : Stmt :=
  Grammar.whileForm step inner always loop outer l.start l.cond l.increment l.body

theorem tree_eq (step inner always loop outer : Nat) :
    l.tree step inner always loop outer =
      match l.start with
      | none => .loop loop (l.cond.getD (.literal always (.bool true))) (l.treeBody step inner)
      | some start => .block outer [start,
          .loop loop (l.cond.getD (.literal always (.bool true))) (l.treeBody step inner)] := rfl

/-- **What the tree of a `for` comes to, its parts come to in the frames of the tree.** -/
theorem tree_stays (step inner always loop outer n : Nat) (m : Machine) :
    (execute n (l.tree step inner always loop outer) m).Stays (l.runApart n m) := by
  rw [tree_eq, runApart]
  cases l.start with
  | none => exact l.loop_stays step inner always loop n m
  | some start =>
    refine (block_stays outer start _ n m).trans (.within fun m₁ => ?_)
    exact (Outcome.Stays.refl _).andThen fun m₂ => l.loop_stays step inner always loop n m₂

/-- **What its parts come to in the frames of the tree, the tree of a `for` comes to**, with some
more allowance. -/
theorem stays_tree (step inner always loop outer n : Nat) (m : Machine) :
    (l.runApart n m).Stays (execute (n + 10) (l.tree step inner always loop outer) m) := by
  rw [tree_eq, runApart]
  cases l.start with
  | none => exact (l.stays_loop step inner always loop n m).trans (execute_stays (by omega) _ m)
  | some start =>
    refine Outcome.Stays.trans (.within fun m₁ => ?_) (stays_block outer start _ (n + 6) m)
    exact (execute_stays (by omega) start m₁).andThen fun m₂ =>
      l.stays_loop step inner always loop n m₂

end ForLoop

end LoxLang
