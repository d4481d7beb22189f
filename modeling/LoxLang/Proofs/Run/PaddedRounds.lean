import LoxLang.Proofs.Run.PaddedRun
import LoxLang.Proofs.Run.Rounds

/-!
# The frames of a loop and of its tree

The tree of a `for` has its frames elsewhere than its meaning has them, and those of the one that
the other lacks stay blank: the frame of the loop if there is no first clause, and the frame of a
turn.  So a loop whose parts lead to the same places comes to the same end in both.

Principal results: `rounds_padded`, `ForLoop.Aligned.turnApart`, `ForLoop.Aligned.runApart`.
-/

namespace LoxLang

section

variable {T T' : Distances} {W W₁ : PadWorld} {P : FramePairs} {pads : List Pad}
  {m m' : Machine} {f f' g g' : Nat}

/-! ## Going on and going back -/

theorem Outcome.andThen_normal (o : Outcome Completion) :
    (o.andThen fun m => .done .normal m) = o := by
  cases o with
  | done completion m => cases completion <;> rfl
  | _ => rfl

theorem Outcome.ending_self {α : Type} (o : Outcome α) : o.ending (fun m => m) = o := by
  cases o <;> rfl

theorem PadOutcome.andThen {o o' : Outcome Completion} {next next' : Machine → Outcome Completion}
    (ho : PadOutcome T T' W f f' (PadCompletion T T') o o')
    (hnext : ∀ {P : FramePairs} {m m' : Machine}, PadMachines.Since T T' W f f' P m m' →
      PadOutcome T T' ⟨P, m.store, m'.store⟩ m.frame m'.frame (PadCompletion T T') (next m)
        (next' m')) :
    PadOutcome T T' W f f' (PadCompletion T T') (o.andThen next) (o'.andThen next') := by
  refine ho.bind fun {_ _ _ completion} h hcompletion => ?_
  cases completion with
  | normal => exact hnext h
  | returned v => exact .done h.machines.since hcompletion

/-- Going back from an inner frame on the first machine only. -/
theorem PadMachines.Since.leaveFirst (h : PadMachines.Since T T' W₁ g f' P m m') (hg : W.Grows W₁)
    (f : Nat) : PadMachines.Since T T' W f f' P (m.leaveTo f) m' :=
  have hm := h.machines
  ⟨⟨hm.heap, hm.depth, hm.maxDepth, hm.table, hm.table', hm.output, hm.clock⟩, hg.trans h.grows, rfl,
    h.frame'⟩

/-- Going back from an inner frame on the second machine only. -/
theorem PadMachines.Since.leaveSecond (h : PadMachines.Since T T' W₁ f g' P m m') (hg : W.Grows W₁)
    (f' : Nat) : PadMachines.Since T T' W f f' P m (m'.leaveTo f') :=
  have hm := h.machines
  ⟨⟨hm.heap, hm.depth, hm.maxDepth, hm.table, hm.table', hm.output, hm.clock⟩, hg.trans h.grows,
    h.frame, rfl⟩

/-! ## Rounds -/

/-- **Rounds of tests and turns that come to the same end come to the same end.** -/
theorem rounds_padded {test test' : Nat → Machine → Outcome Bool}
    {turn turn' : Nat → Machine → Outcome Completion}
    (htest : ∀ n {P : FramePairs} {m m' : Machine}, PadMachines.At T T' P pads m m' →
      PadOutcome T T' ⟨P, m.store, m'.store⟩ m.frame m'.frame (fun _ _ => True) (test n m)
        (test' n m'))
    (hturn : ∀ n {P : FramePairs} {m m' : Machine}, PadMachines.At T T' P pads m m' →
      PadOutcome T T' ⟨P, m.store, m'.store⟩ m.frame m'.frame (PadCompletion T T') (turn n m)
        (turn' n m')) :
    ∀ n {P : FramePairs} {m m' : Machine}, PadMachines.At T T' P pads m m' →
      PadOutcome T T' ⟨P, m.store, m'.store⟩ m.frame m'.frame (PadCompletion T T')
        (rounds test turn n m) (rounds test' turn' n m')
  | 0, _, _, _, _ => .exhausted
  | n + 1, P, m, m', h => by
    rw [rounds, rounds]
    refine (htest n h).bind fun {_ _ _ again} h₁ _ => ?_
    cases again with
    | false => exact .done h₁.machines.since trivial
    | true =>
      have hat := h₁.at h.chain
      exact (hturn n hat).andThen fun h₂ => rounds_padded htest hturn n (h₂.at hat.chain)

end

/-! ## Loops -/

namespace ForLoop

/-- The links of the frame of a loop.  Without a first clause, the tree lacks it. -/
def loopPads (l : ForLoop) : List Pad := [if l.start.isSome then .both else .second]

/-- The links of the frame of a turn.  With an increment, the tree has one of its own. -/
def turnPads (l : ForLoop) : List Pad :=
  if l.increment.isSome then .first :: l.loopPads else l.loopPads

/-- Loops whose parts lead to the same places, one in the frames of its tree. -/
structure Aligned (T T' : Distances) (l l' : ForLoop) : Prop where
  start : Option.Rel (PadStmt T T' [.both]) l.start l'.start
  cond : Option.Rel (PadExpr T T' l.loopPads) l.cond l'.cond
  increment : Option.Rel (PadExpr T T' l.turnPads) l.increment l'.increment
  body : PadStmt T T' l.turnPads l.body l'.body

namespace Aligned

variable {T T' : Distances} {l l' : ForLoop} {P : FramePairs} {m m' : Machine}

theorem test (h : Aligned T T' l l') (n : Nat) (hat : PadMachines.At T T' P l.loopPads m m') :
    PadOutcome T T' ⟨P, m.store, m'.store⟩ m.frame m'.frame (fun _ _ => True) (l.test n m)
      (l'.test n m') := by
  have hcond := h.cond
  unfold ForLoop.test
  generalize l.cond = cond? at hcond
  generalize l'.cond = cond?' at hcond
  cases hcond with
  | none => exact .done hat.machines.since trivial
  | some he =>
    exact ((padRun T T' n).evaluate hat he).bind fun h₁ _ => .done h₁.machines.since trivial

theorem turn (h : Aligned T T' l l') (n : Nat) (hat : PadMachines.At T T' P l.turnPads m m') :
    PadOutcome T T' ⟨P, m.store, m'.store⟩ m.frame m'.frame (PadCompletion T T') (l.turn n m)
      (l'.turn n m') := by
  have hincrement := h.increment
  refine ((padRun T T' n).execute hat h.body).andThen fun h₁ => ?_
  unfold ForLoop.advance
  generalize l.increment = increment? at hincrement
  generalize l'.increment = increment?' at hincrement
  cases hincrement with
  | none => exact .done h₁.machines.since trivial
  | some he =>
    exact ((padRun T T' n).evaluate (h₁.at hat.chain) he).bind fun h₂ _ =>
      .done h₂.machines.since trivial

/-- A turn in a blank frame of its own. -/
theorem turnApart (h : Aligned T T' l l') (n : Nat)
    (hat : PadMachines.At T T' P l.loopPads m m') :
    PadOutcome T T' ⟨P, m.store, m'.store⟩ m.frame m'.frame (PadCompletion T T') (l.turnApart n m)
      (l'.turn n m') := by
  cases hincrement : l.increment with
  | none =>
    have hpads : l.turnPads = l.loopPads := by rw [turnPads, hincrement]; rfl
    have hadvance : l.advance n = fun m => .done .normal m := by
      funext m₁
      rw [ForLoop.advance, hincrement]
    have hsame : l.turnApart n m = l.turn n m := by
      rw [ForLoop.turnApart, hincrement, ForLoop.turn, hadvance, Outcome.andThen_normal]
    rw [hsame]
    rw [← hpads] at hat
    exact h.turn n hat
  | some value =>
    have hpads : l.turnPads = .first :: l.loopPads := by rw [turnPads, hincrement]; rfl
    have hsame : l.turnApart n m = m.within (l.turn n) := by
      rw [ForLoop.turnApart, hincrement]
    obtain ⟨hinner, hgrows⟩ := hat.enterFirst
    rw [← hpads] at hinner
    rw [hsame, Machine.within, ← Outcome.ending_self (l'.turn n m')]
    exact (h.turn n hinner).ending fun h₁ => ⟨h₁.leaveFirst hgrows m.frame, rfl, rfl⟩

/-- **A loop comes to the same end in the frames of its tree and in its own.** -/
theorem runApart (h : Aligned T T' l l') (n : Nat) (hat : PadMachines.At T T' P [] m m') :
    PadOutcome T T' ⟨P, m.store, m'.store⟩ m.frame m'.frame (PadCompletion T T') (l.runApart n m)
      (l'.run n m') := by
  have hstart := h.start
  have hrounds := @rounds_padded T T' l.loopPads l.test l'.test l.turnApart l'.turn
    (fun n => h.test n) (fun n => h.turnApart n) n
  unfold loopPads at hrounds
  unfold ForLoop.runApart ForLoop.run ForLoop.begin Machine.within
  generalize l.start = start? at hstart hrounds
  generalize l'.start = start?' at hstart
  cases hstart with
  | none =>
    obtain ⟨hinner, hgrows⟩ := hat.enterSecond
    rw [← Outcome.ending_self (rounds l.test l.turnApart n m)]
    exact (hrounds hinner).ending fun h₁ => ⟨h₁.leaveSecond hgrows m'.frame, rfl, rfl⟩
  | some hs =>
    obtain ⟨P₁, hinner, hgrows⟩ := hat.machines.enter hat.chain (b := .empty)
      fun _ _ hv => by cases hv
    have hloop := ((padRun T T' n).execute hinner hs).andThen fun h₁ =>
      hrounds (h₁.at hinner.chain)
    exact hloop.ending fun h₁ => ⟨h₁.leaveTo hgrows m.frame m'.frame, rfl, rfl⟩

end Aligned

end ForLoop

end LoxLang
