import Scriptlet.Proofs.Run.Budget

/-!
Contract: the limits on calls and on indices cut a run short and change nothing
else.

Owns:
- limits that are at least as high as others, and the failures of a limit that is
  raised;
- an evaluation under higher limits is the same, unless it failed by a limit that
  they raise.

Entering a call and storing in a slot are the only steps that read these limits.
-/

namespace Scriptlet

open Run

/-! ## Higher limits -/

namespace Limits

/-- Whether limits are at least as high as others, under the same step budget. -/
structure Raises (low high : Limits) : Prop where
  maxSteps : high.maxSteps = low.maxSteps
  maxCallDepth : low.maxCallDepth ≤ high.maxCallDepth
  maxArrayIndex : low.maxArrayIndex ≤ high.maxArrayIndex

/-- Whether a failure is that of a limit which others raise. -/
def CutBelow (low high : Limits) : RunError → Prop
  | .callDepthExceeded _ => low.maxCallDepth < high.maxCallDepth
  | .indexOutOfRange _ _ => low.maxArrayIndex < high.maxArrayIndex
  | _ => False

end Limits

/-- Whether an evaluation is the same as another one, unless that fails by a limit
that is raised. -/
def SameUnlessCut (low high : Limits) {α : Type} (left right : Run α) : Prop :=
  ∀ before, right before = left before ∨
    ∃ error after, left before = .error (.failed error) after ∧ low.CutBelow high error

section

variable {low high : Limits} {α β : Type}

theorem SameUnlessCut.of_eq {left right : Run α} (same : right = left) :
    SameUnlessCut low high left right := by
  intro before
  left
  rw [same]

theorem SameUnlessCut.bind {left right : Run α} {leftNext rightNext : α → Run β}
    (same : SameUnlessCut low high left right)
    (sameNext : ∀ result, SameUnlessCut low high (leftNext result) (rightNext result)) :
    SameUnlessCut low high (left >>= leftNext) (right >>= rightNext) := by
  intro before
  rcases same before with isSame | ⟨error, after, failed, isCut⟩
  · cases outcome : left before with
    | ok result after =>
        rw [bind_of_ok outcome, bind_of_ok (isSame.trans outcome)]
        exact sameNext result after
    | error halt after =>
        rw [bind_of_error outcome, bind_of_error (isSame.trans outcome)]
        exact .inl rfl
  · exact .inr ⟨error, after, bind_of_error failed, isCut⟩

/-- A step that first checks a limit, and fails with an error of that limit. -/
theorem sameUnlessCut_check {limit raised : Nat} (raises : limit ≤ raised)
    (Exceeds : Nat → Prop) [DecidablePred Exceeds] (exceeds : Exceeds raised → Exceeds limit)
    (error : Nat → RunError) (isCut : limit < raised → low.CutBelow high (error limit))
    (rest : Run α) :
    SameUnlessCut low high (if Exceeds limit then fail (error limit) else rest)
      (if Exceeds raised then fail (error raised) else rest) := by
  intro before
  by_cases isExceeded : Exceeds limit
  · rcases Nat.eq_or_lt_of_le raises with rfl | isRaised
    · exact .inl rfl
    · right
      rw [if_pos isExceeded]
      exact ⟨error limit, before, rfl, isCut isRaised⟩
  · left
    rw [if_neg isExceeded, if_neg (isExceeded ∘ exceeds)]

end

/-! ## Evaluations under higher limits -/

section

variable {low high : Limits} (raises : low.Raises high) (random : Option RandomSource)

include raises

theorem sameUnlessCut_writeSlot (location : Nat) (index : Int64) (value : Value) :
    SameUnlessCut low high (writeSlot ⟨low, random⟩ location index value)
      (writeSlot ⟨high, random⟩ location index value) :=
  sameUnlessCut_check raises.maxArrayIndex (· < index.toInt.toNat)
    (Nat.lt_of_le_of_lt raises.maxArrayIndex) (.indexOutOfRange index) id _

theorem sameUnlessCut_enterCall (name : String) (declaration : FunctionDeclaration)
    (values : List Value) :
    SameUnlessCut low high (enterCall ⟨low, random⟩ name declaration values)
      (enterCall ⟨high, random⟩ name declaration values) := by
  apply SameUnlessCut.bind (.of_eq rfl)
  intro machine
  exact sameUnlessCut_check raises.maxCallDepth (· ≤ machine.scopes.depth)
    (Nat.le_trans raises.maxCallDepth) .callDepthExceeded id _

theorem sameUnlessCut_of_primitive {α : Type} {left right : Run α}
    (primitive : Primitive ⟨low, random⟩ ⟨high, random⟩ left right) :
    SameUnlessCut low high left right := by
  cases primitive with
  | writeSlot location index value =>
      exact sameUnlessCut_writeSlot raises random location index value
  | fail | readName | writeName | readSlot | equal => exact .of_eq rfl

/-- Being the same unless cut as a relation that every layer keeps. -/
def raisedLimits : RunRelation ⟨low, random⟩ ⟨high, random⟩ :=
  let steps : StepRelation :=
    { Rel := SameUnlessCut low high
      value := fun _ => .of_eq rfl
      bind := SameUnlessCut.bind }
  { steps with
    primitive := sameUnlessCut_of_primitive raises random
    array := fun related =>
      steps.evalArray_of_steps related (fun _ => .of_eq rfl) fun _ => .of_eq rfl
    call := fun related execRelated =>
      steps.evalCall_of_steps related execRelated (fun _ _ => .of_eq rfl)
        (sameUnlessCut_enterCall raises random) fun _ _ => .of_eq rfl }

theorem sameUnlessCut_execBlock (fuel : Nat) (block : Block) :
    SameUnlessCut low high (execBlock ⟨low, random⟩ fuel block)
      (execBlock ⟨high, random⟩ fuel block) := by
  have ticks : tick ⟨high, random⟩ = tick ⟨low, random⟩ := by
    unfold tick
    rw [raises.maxSteps]
  exact ((raisedLimits raises random).agree_atFuel (.of_eq ticks) (.of_eq rfl) fuel).block block

end

/-! ## Runs -/

namespace Program

variable (program : Program) (fuel : Nat) (initial : State) (limits : Limits)
  (random : RandomSource)

/-- A run under higher limits is the same, unless it failed by a limit that they
raise. -/
theorem runWithFuel_eq_of_raises {low high : Limits} (raises : low.Raises high)
    (notCut : ∀ error, (program.runWithFuel fuel initial low random).ending = .failed error →
      ¬ low.CutBelow high error) :
    program.runWithFuel fuel initial high random =
      program.runWithFuel fuel initial low random := by
  rw [runWithFuel_eq_execBlock] at notCut
  rw [runWithFuel_eq_execBlock, runWithFuel_eq_execBlock]
  rcases sameUnlessCut_execBlock raises (program.settings low random).random fuel program.body
      (Machine.ofState initial) with isSame | ⟨error, after, failed, isCut⟩
  · exact congrArg Report.ofOutcome isSame
  · refine absurd isCut (notCut error ?_)
    exact congrArg (fun outcome => (Report.ofOutcome outcome).ending) failed

/-- The limits on call depth and on array indices only cut runs short.  A run that
does not fail by one of them is the same run, with the same ending, steps, draws and
calls, when that limit is raised. -/
theorem limits_only_cut_runs_short :
    (∀ raised, limits.maxCallDepth ≤ raised →
      (∀ limit, (program.runWithFuel fuel initial limits random).ending ≠
        .failed (.callDepthExceeded limit)) →
      program.runWithFuel fuel initial { limits with maxCallDepth := raised } random =
        program.runWithFuel fuel initial limits random) ∧
    ∀ raised, limits.maxArrayIndex ≤ raised →
      (∀ index limit, (program.runWithFuel fuel initial limits random).ending ≠
        .failed (.indexOutOfRange index limit)) →
      program.runWithFuel fuel initial { limits with maxArrayIndex := raised } random =
        program.runWithFuel fuel initial limits random := by
  constructor
  · intro raised isRaised notExceeded
    have raises : limits.Raises { limits with maxCallDepth := raised } :=
      ⟨rfl, isRaised, Nat.le_refl _⟩
    apply program.runWithFuel_eq_of_raises fuel initial random raises
    intro error isError isCut
    cases error with
    | callDepthExceeded limit => exact notExceeded limit isError
    | indexOutOfRange index limit => exact absurd isCut (Nat.lt_irrefl _)
    | _ => exact isCut
  · intro raised isRaised notExceeded
    have raises : limits.Raises { limits with maxArrayIndex := raised } :=
      ⟨rfl, Nat.le_refl _, isRaised⟩
    apply program.runWithFuel_eq_of_raises fuel initial random raises
    intro error isError isCut
    cases error with
    | callDepthExceeded limit => exact absurd isCut (Nat.lt_irrefl _)
    | indexOutOfRange index limit => exact notExceeded index limit isError
    | _ => exact isCut

/-- Stores at index three inside a call. -/
def fillsInside : Program where
  features := FeatureSet.all
  body := [
    .declare "fill" ["list"] [.store (.name "list") (.integer 3) (.integer 7)],
    .assign "a" (.array []),
    .evaluate (.call "fill" [.name "a"])]

/-- Limits that just suffice for `fillsInside`. -/
def tightLimits : Limits where
  maxSteps := none
  maxCallDepth := 1
  maxArrayIndex := 3

theorem limits_only_cut_runs_short_fillsInside :
    fillsInside.runWithFuel 40 ∅ { tightLimits with maxCallDepth := 1000 } (fun _ => 0) =
      fillsInside.runWithFuel 40 ∅ tightLimits (fun _ => 0) ∧
    fillsInside.runWithFuel 40 ∅ { tightLimits with maxArrayIndex := 1000 } (fun _ => 0) =
      fillsInside.runWithFuel 40 ∅ tightLimits (fun _ => 0) := by
  have isFinished : (fillsInside.runWithFuel 40 ∅ tightLimits fun _ => 0).ending = .finished
      ((∅ : State).insert "a" (.list [.integer 0, .integer 0, .integer 0, .integer 7])) false := by
    decide +kernel
  obtain ⟨higherDepth, higherIndex⟩ :=
    limits_only_cut_runs_short fillsInside 40 ∅ tightLimits fun _ => 0
  rw [isFinished] at higherDepth higherIndex
  exact ⟨higherDepth 1000 (by decide) nofun, higherIndex 1000 (by decide) nofun⟩

end Program

end Scriptlet
