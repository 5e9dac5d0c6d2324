import Scriptlet.Program.Run
import Scriptlet.Proofs.Run.Layer

/-!
Contract: the step budget cuts a run short and changes nothing else.

Owns:
- steps that neither count nor run out of fuel, which are all but the counting
  itself;
- under a budget a run counts no more steps than it, or exceeds it by exactly one;
- under a budget a run is the run without one, cut off where it would count more
  steps;
- more fuel does not change a run that was not cut off by it, and a run that is
  has counted about half as many steps as it had fuel;
- the exact number of steps at which a budget begins to suffice.
-/

namespace Scriptlet

open Run

/-! ## Steps that do not count -/

/-- Whether a step counts nothing and does not run out of fuel. -/
def Quiet {α : Type} (action : Run α) : Prop :=
  Changes (fun before after => after.steps = before.steps) action

theorem quiet_pure {α : Type} (result : α) : Quiet (pure result : Run α) :=
  fun _ => ⟨rfl, nofun⟩

theorem quiet_of_changes {α : Type} {change : Machine → Machine → Prop} {action : Run α}
    (changes : Changes change action)
    (sameSteps : ∀ {before after}, change before after → after.steps = before.steps) :
    Quiet action :=
  fun before => ⟨sameSteps (changes before).1, (changes before).2⟩

/-- Primitive steps count nothing. -/
theorem quiet_of_primitive {first second : Settings} {α : Type} {left right : Run α}
    (primitive : Primitive first second left right) : Quiet left := by
  cases primitive with
  | fail error => exact quiet_of_changes (changes_fail error) fun same => by rw [same]
  | readName name => exact quiet_of_changes (changes_readName first name) fun same => by rw [same]
  | writeName name value =>
      exact quiet_of_changes (changes_writeName name value) fun same => by rw [same]
  | readSlot location index =>
      exact quiet_of_changes (changes_readSlot location index) fun same => by rw [same]
  | writeSlot location index value =>
      exact quiet_of_changes (changes_writeSlot first location index value) fun same => by
        rw [same]
  | equal left right =>
      exact quiet_of_changes (changes_equal left right) fun same => by rw [same]

/-! ## Relations that hold of steps that do not count -/

namespace Settings

/-- The same settings with another step budget. -/
def withBudget (settings : Settings) (budget : Option Nat) : Settings :=
  { settings with limits := { settings.limits with maxSteps := budget } }

end Settings

/-- Primitive steps do not depend on the budget. -/
theorem eq_of_primitive_withBudget {settings : Settings} {first second : Option Nat} {α : Type}
    {left right : Run α}
    (primitive : Primitive (settings.withBudget first) (settings.withBudget second) left right) :
    left = right := by
  cases primitive <;> rfl

/-- A relation that holds of every step that does not count is kept by every
layer, whatever the budgets. -/
def RunRelation.ofQuiet (steps : StepRelation)
    (ofQuiet : ∀ {α : Type} {action : Run α}, Quiet action → steps.Rel action action)
    (settings : Settings) (first second : Option Nat) :
    RunRelation (settings.withBudget first) (settings.withBudget second) where
  toStepRelation := steps
  primitive {_ left _} primitive := by
    obtain rfl := eq_of_primitive_withBudget primitive
    exact ofQuiet (quiet_of_primitive primitive)
  array related items :=
    steps.evalArray_of_steps related
      (fun value => ofQuiet (quiet_of_changes (changes_copyAt 2 value) fun same => by rw [same]))
      (fun slots => ofQuiet (quiet_of_changes (changes_newArray slots) fun same => by rw [same]))
      items
  call related execRelated name arguments :=
    steps.evalCall_of_steps related execRelated
      (fun name count =>
        ofQuiet (quiet_of_changes (changes_callee name count) fun same => by rw [same]))
      (fun name declaration values => ofQuiet (quiet_of_changes
        (changes_enterCall _ name declaration values) fun same => by rw [same]))
      (fun name depth =>
        ofQuiet (quiet_of_changes (changes_leaveCall name depth) fun same => by rw [same]))
      name arguments

/-! ## The counter stays at the budget -/

/-- Whether an evaluation that starts within the budget stays within it, or exceeds it
by one step and halts. -/
def StaysWithin (budget : Nat) {α : Type} (action : Run α) : Prop :=
  ∀ before, before.steps ≤ budget →
    (∀ result after, action before = .ok result after → after.steps ≤ budget) ∧
    ∀ halt after, action before = .error halt after → after.steps ≤ budget ∨
      halt = .failed (.budgetExceeded budget) ∧ after.steps = budget + 1

theorem staysWithin_of_quiet (budget : Nat) {α : Type} {action : Run α} (quiet : Quiet action) :
    StaysWithin budget action := by
  intro before within
  have sameSteps := (quiet before).1
  refine ⟨fun result after success => ?_, fun halt after failure => .inl ?_⟩
  · rw [final_of_ok success] at sameSteps
    exact sameSteps ▸ within
  · rw [final_of_error failure] at sameSteps
    exact sameSteps ▸ within

theorem StaysWithin.bind {budget : Nat} {α β : Type} {action : Run α} {next : α → Run β}
    (first : StaysWithin budget action) (rest : ∀ result, StaysWithin budget (next result)) :
    StaysWithin budget (action >>= next) := by
  intro before within
  obtain ⟨succeeds, halts⟩ := first before within
  cases outcome : action before with
  | ok result after =>
      rw [bind_of_ok outcome]
      exact rest result after (succeeds result after outcome)
  | error halt after =>
      rw [bind_of_error outcome]
      refine ⟨nofun, fun _ _ failure => ?_⟩
      cases failure
      exact halts halt after outcome

theorem staysWithin_tick (budget : Nat) (settings : Settings) :
    StaysWithin budget (tick (settings.withBudget (some budget))) := by
  intro before within
  have counted : tick (settings.withBudget (some budget)) before = _ := tick_of_bounded rfl before
  split at counted
  · next exceeds =>
      rw [counted]
      refine ⟨nofun, fun _ _ failure => .inr ?_⟩
      cases failure
      exact ⟨rfl, Nat.le_antisymm (Nat.succ_le_succ within) exceeds⟩
  · next enough =>
      rw [counted]
      refine ⟨fun _ _ success => ?_, nofun⟩
      cases success
      exact Nat.le_of_not_lt enough

/-- Staying within the budget as a relation that every layer keeps.  It looks at one
side only. -/
def moderation (budget : Nat) (settings : Settings) :
    RunRelation (settings.withBudget (some budget)) (settings.withBudget (some budget)) :=
  .ofQuiet
    { Rel := fun action _ => StaysWithin budget action
      value := fun result => staysWithin_of_quiet budget (quiet_pure result)
      bind := StaysWithin.bind }
    (staysWithin_of_quiet budget) settings (some budget) (some budget)

theorem staysWithin_execBlock (budget : Nat) (settings : Settings) (fuel : Nat) (block : Block) :
    StaysWithin budget (execBlock (settings.withBudget (some budget)) fuel block) := by
  have givesUp : ∀ {α : Type}, StaysWithin budget (throw .outOfFuel : Run α) := by
    intro α before within
    refine ⟨nofun, fun _ _ failure => .inl ?_⟩
    cases failure
    exact within
  exact ((moderation budget settings).agree_atFuel (staysWithin_tick budget settings)
    givesUp fuel).block block

/-! ## Budgets cut runs off -/

/-- Whether an evaluation is another one, cut off where that would count more
steps than the budget has. -/
def Truncates (budget : Nat) {α : Type} (whole cut : Run α) : Prop :=
  ∀ before, before.steps ≤ (whole.final before).steps ∧
    (before.steps ≤ budget →
      ((whole.final before).steps ≤ budget → cut before = whole before) ∧
      (budget < (whole.final before).steps →
        ∃ after, cut before = .error (.failed (.budgetExceeded budget)) after))

theorem Truncates.bind {budget : Nat} {α β : Type} {whole cut : Run α}
    {wholeNext cutNext : α → Run β} (first : Truncates budget whole cut)
    (rest : ∀ result, Truncates budget (wholeNext result) (cutNext result)) :
    Truncates budget (whole >>= wholeNext) (cut >>= cutNext) := by
  intro before
  obtain ⟨grows, cuts⟩ := first before
  cases outcome : whole before with
  | error halt after =>
      rw [final_of_error outcome] at grows cuts
      rw [final_bind_of_error outcome, bind_of_error outcome]
      refine ⟨grows, fun within => ⟨fun enough => ?_, fun exceeds => ?_⟩⟩
      · exact bind_of_error (((cuts within).1 enough).trans outcome)
      · obtain ⟨stop, exceeded⟩ := (cuts within).2 exceeds
        exact ⟨stop, bind_of_error exceeded⟩
  | ok result after =>
      rw [final_of_ok outcome] at grows cuts
      rw [final_bind_of_ok outcome, bind_of_ok outcome]
      obtain ⟨growsOn, cutsOn⟩ := rest result after
      refine ⟨Nat.le_trans grows growsOn, fun within => ⟨fun enough => ?_, fun exceeds => ?_⟩⟩
      · have same := (cuts within).1 (Nat.le_trans growsOn enough)
        rw [bind_of_ok (same.trans outcome)]
        exact (cutsOn (Nat.le_trans growsOn enough)).1 enough
      · -- The budget is exceeded in the first part or in the rest.
        by_cases reaches : after.steps ≤ budget
        · have same := (cuts within).1 reaches
          rw [bind_of_ok (same.trans outcome)]
          exact (cutsOn reaches).2 exceeds
        · obtain ⟨stop, exceeded⟩ := (cuts within).2 (Nat.lt_of_not_le reaches)
          exact ⟨stop, bind_of_error exceeded⟩

theorem truncates_of_quiet (budget : Nat) {α : Type} {action : Run α} (quiet : Quiet action) :
    Truncates budget action action := by
  intro before
  have sameSteps := (quiet before).1
  refine ⟨Nat.le_of_eq sameSteps.symm, fun within => ⟨fun _ => rfl, fun exceeds => ?_⟩⟩
  omega

/-- Truncation as a relation that every layer keeps. -/
def truncation (budget : Nat) (settings : Settings) :
    RunRelation (settings.withBudget none) (settings.withBudget (some budget)) :=
  .ofQuiet
    { Rel := Truncates budget
      value := fun result => truncates_of_quiet budget (quiet_pure result)
      bind := Truncates.bind }
    (truncates_of_quiet budget) settings none (some budget)

theorem truncates_tick (budget : Nat) (settings : Settings) :
    Truncates budget (tick (settings.withBudget none))
      (tick (settings.withBudget (some budget))) := by
  intro before
  have whole : tick (settings.withBudget none) before = _ := tick_of_unbounded rfl before
  have cut : tick (settings.withBudget (some budget)) before = _ := tick_of_bounded rfl before
  rw [final_of_ok whole, whole, cut]
  refine ⟨Nat.le_succ _, fun within => ⟨fun enough => ?_, fun exceeds => ?_⟩⟩
  · exact if_neg (Nat.not_lt.mpr enough)
  · exact ⟨_, if_pos exceeds⟩

/-- Under a budget an evaluation is the one without a budget, cut off. -/
theorem truncates_atFuel (budget : Nat) (settings : Settings) (fuel : Nat) :
    (truncation budget settings).Agree (Evaluator.atFuel (settings.withBudget none) fuel)
      (Evaluator.atFuel (settings.withBudget (some budget)) fuel) := by
  apply RunRelation.agree_atFuel
  · exact truncates_tick budget settings
  · intro α before
    exact ⟨Nat.le_refl _, fun within => ⟨fun _ => rfl, fun exceeds => absurd within
      (Nat.not_le.mpr exceeds)⟩⟩

/-! ## Fuel is used up by counting -/

/-- Whether an evaluation that exhausts its fuel has counted half of `depth`
steps by then. -/
def CountsWhenExhausted (depth : Nat) {α : Type} (action : Run α) : Prop :=
  ∀ before, before.steps ≤ (action.final before).steps ∧
    (action.Exhausts before → depth + 2 * before.steps ≤ 2 * (action.final before).steps)

theorem CountsWhenExhausted.weaken {depth smaller : Nat} {α : Type} {action : Run α}
    (counts : CountsWhenExhausted depth action) (below : smaller ≤ depth) :
    CountsWhenExhausted smaller action := by
  intro before
  obtain ⟨grows, exhausted⟩ := counts before
  refine ⟨grows, fun exhausts => ?_⟩
  have enough := exhausted exhausts
  omega

theorem countsWhenExhausted_of_quiet (depth : Nat) {α : Type} {action : Run α}
    (quiet : Quiet action) : CountsWhenExhausted depth action :=
  fun before => ⟨Nat.le_of_eq (quiet before).1.symm, fun exhausts =>
    absurd exhausts (quiet before).2⟩

/-- Sequencing after a part that counts at least `counted` steps if it
succeeds. -/
theorem CountsWhenExhausted.bind_counted {depth counted smaller : Nat} {α β : Type}
    {action : Run α} {next : α → Run β} (first : CountsWhenExhausted depth action)
    (progress : ∀ {before result after}, action before = .ok result after →
      before.steps + counted ≤ after.steps)
    (rest : ∀ result, CountsWhenExhausted smaller (next result))
    (below : depth ≤ smaller + 2 * counted) : CountsWhenExhausted depth (action >>= next) := by
  intro before
  obtain ⟨grows, exhausted⟩ := first before
  cases outcome : action before with
  | error halt after =>
      rw [final_of_error outcome] at grows exhausted
      rw [exhausts_of_error outcome] at exhausted
      rw [final_bind_of_error outcome, exhausts_bind_of_error outcome]
      exact ⟨grows, exhausted⟩
  | ok result after =>
      have further := progress outcome
      obtain ⟨growsOn, exhaustedOn⟩ := rest result after
      rw [final_bind_of_ok outcome, exhausts_bind_of_ok outcome]
      refine ⟨by omega, fun exhausts => ?_⟩
      have enough := exhaustedOn exhausts
      omega

theorem CountsWhenExhausted.bind {depth : Nat} {α β : Type} {action : Run α}
    {next : α → Run β} (first : CountsWhenExhausted depth action)
    (rest : ∀ result, CountsWhenExhausted depth (next result)) :
    CountsWhenExhausted depth (action >>= next) := by
  have below : depth ≤ depth + 2 * 0 := Nat.le_refl depth
  apply first.bind_counted _ rest below
  intro before result after success
  have grows := (first before).1
  rw [final_of_ok success] at grows
  exact grows

/-- Counting when exhausted as a relation that every layer keeps. -/
def exhaustion (depth : Nat) (settings : Settings) :
    RunRelation (settings.withBudget none) (settings.withBudget none) :=
  .ofQuiet
    { Rel := fun action _ => CountsWhenExhausted depth action
      value := fun result => countsWhenExhausted_of_quiet depth (quiet_pure result)
      bind := CountsWhenExhausted.bind }
    (countsWhenExhausted_of_quiet depth) settings none none

theorem countsWhenExhausted_tick {depth smaller : Nat} (settings : Settings) {α : Type}
    {next : Run α} (rest : CountsWhenExhausted smaller next) (below : depth ≤ smaller + 2) :
    CountsWhenExhausted depth (tick (settings.withBudget none) >>= fun _ => next) := by
  have ticks : CountsWhenExhausted depth (tick (settings.withBudget none)) := by
    intro before
    have counted : tick (settings.withBudget none) before = _ := tick_of_unbounded rfl before
    rw [final_of_ok counted]
    exact ⟨Nat.le_succ _, fun exhausts => absurd exhausts (not_exhausts_of_ok counted)⟩
  have counts : depth ≤ smaller + 2 * 1 := below
  apply ticks.bind_counted _ (fun _ => rest) counts
  intro before result after success
  have counted : tick (settings.withBudget none) before = _ := tick_of_unbounded rfl before
  cases counted.symm.trans success
  exact Nat.le_refl _

/-- What holds of evaluation with an amount of fuel.  A turn of a loop is not
counted itself, so it has one step less to show. -/
structure ExhaustsDeep (fuel : Nat) (evaluator : Evaluator) : Prop where
  expr : ∀ expr, CountsWhenExhausted fuel (evaluator.expr expr)
  statement : ∀ statement, CountsWhenExhausted fuel (evaluator.statement statement)
  loop : ∀ condition step body,
    CountsWhenExhausted (fuel - 1) (evaluator.loop condition step body)
  block : ∀ block, CountsWhenExhausted fuel (evaluator.block block)
  blockCounts : ∀ block {before flow after}, evaluator.block block before = .ok flow after →
    before.steps + 1 ≤ after.steps

theorem ExhaustsDeep.agree {fuel : Nat} {evaluator : Evaluator}
    (deep : ExhaustsDeep fuel evaluator) (settings : Settings) :
    (exhaustion (fuel - 1) settings).Agree evaluator evaluator where
  expr expr := (deep.expr expr).weaken (Nat.sub_le fuel 1)
  statement statement := (deep.statement statement).weaken (Nat.sub_le fuel 1)
  loop := deep.loop
  block block := (deep.block block).weaken (Nat.sub_le fuel 1)

theorem exhaustsDeep_exhausted : ExhaustsDeep 0 Evaluator.exhausted := by
  have givesUp : ∀ {α : Type}, CountsWhenExhausted 0 (throw .outOfFuel : Run α) := by
    intro α before
    have halted : (throw .outOfFuel : Run α) before = .error .outOfFuel before := rfl
    rw [final_of_error halted]
    exact ⟨Nat.le_refl _, fun _ => by omega⟩
  exact ⟨fun _ => givesUp, fun _ => givesUp, fun _ _ _ => givesUp, fun _ => givesUp, nofun⟩

/-- Each turn of a loop executes its body, which counts, before the next turn is
made with less fuel. -/
theorem ExhaustsDeep.loopBody {fuel : Nat} {evaluator : Evaluator}
    (deep : ExhaustsDeep fuel evaluator) (settings : Settings) (condition : Option Expr)
    (step : Statement) (body : Block) :
    CountsWhenExhausted fuel (evaluator.loopBody condition step body) := by
  have related : ∀ expr, (exhaustion fuel settings).Rel (evaluator.expr expr)
      (evaluator.expr expr) := deep.expr
  have continues : CountsWhenExhausted fuel (loopContinues evaluator.expr condition) :=
    (exhaustion fuel settings).loopContinues related condition
  refine continues.bind fun goesOn => ?_
  cases goesOn with
  | false => exact countsWhenExhausted_of_quiet _ (quiet_pure Flow.proceed)
  | true =>
      have below : fuel ≤ fuel - 1 + 2 * 1 := by omega
      refine (deep.block body).bind_counted (deep.blockCounts body) (fun flow => ?_) below
      cases flow with
      | returned value => exact countsWhenExhausted_of_quiet _ (quiet_pure (Flow.returned value))
      | proceed =>
          refine ((deep.statement step).weaken (Nat.sub_le fuel 1)).bind fun flow => ?_
          cases flow with
          | returned value =>
              exact countsWhenExhausted_of_quiet _ (quiet_pure (Flow.returned value))
          | proceed => exact deep.loop condition step body

theorem ExhaustsDeep.next {fuel : Nat} {evaluator : Evaluator}
    (deep : ExhaustsDeep fuel evaluator) (settings : Settings) :
    ExhaustsDeep (fuel + 1) (evaluator.next (settings.withBudget none)) := by
  have agree := deep.agree settings
  have below : fuel + 1 ≤ fuel - 1 + 2 := by omega
  have listCounts : ∀ block, CountsWhenExhausted (fuel - 1) (execList evaluator.statement block) :=
    (exhaustion (fuel - 1) settings).execList agree.statement
  refine ⟨fun expr => ?_, fun statement => ?_, fun condition step body => ?_, fun block => ?_, ?_⟩
  · exact countsWhenExhausted_tick settings (agree.exprBody expr) below
  · exact countsWhenExhausted_tick settings (agree.statementBody statement) below
  · exact deep.loopBody settings condition step body
  · exact countsWhenExhausted_tick settings (listCounts block) below
  · intro block before flow after success
    have counted : (evaluator.next (settings.withBudget none)).block block before =
        execList evaluator.statement block { before with steps := before.steps + 1 } :=
      bind_of_ok (tick_of_unbounded rfl before)
    have grows := (listCounts block { before with steps := before.steps + 1 }).1
    rw [final_of_ok (counted.symm.trans success)] at grows
    exact grows

/-- An evaluation that exhausts its fuel has counted half as many steps. -/
theorem exhaustsDeep_atFuel (settings : Settings) (fuel : Nat) :
    ExhaustsDeep fuel (Evaluator.atFuel (settings.withBudget none) fuel) := by
  induction fuel with
  | zero =>
      rw [Evaluator.atFuel_zero]
      exact exhaustsDeep_exhausted
  | succ fuel inductionHypothesis =>
      rw [Evaluator.atFuel_succ]
      exact inductionHypothesis.next settings

/-! ## More fuel changes nothing -/

/-- Whether an evaluation with more fuel is the same one unless that exhausts
its fuel, and then goes on from where it stopped. -/
def Extends {α : Type} (short long : Run α) : Prop :=
  ∀ before, (¬ short.Exhausts before → long before = short before) ∧
    (short.final before).steps ≤ (long.final before).steps ∧
    before.steps ≤ (long.final before).steps

theorem steps_le_final_bind {α β : Type} {action : Run α} {next : α → Run β}
    (grows : ∀ result after, after.steps ≤ ((next result).final after).steps)
    (before : Machine) :
    (action.final before).steps ≤ ((action >>= next).final before).steps := by
  cases outcome : action before with
  | ok result after =>
      rw [final_of_ok outcome, final_bind_of_ok outcome]
      exact grows result after
  | error halt after =>
      have same : action.final before = (action >>= next).final before := by
        rw [final_of_error outcome, final_bind_of_error outcome]
      exact Nat.le_of_eq (congrArg Machine.steps same)

theorem Extends.bind {α β : Type} {short long : Run α} {shortNext longNext : α → Run β}
    (first : Extends short long) (rest : ∀ result, Extends (shortNext result) (longNext result)) :
    Extends (short >>= shortNext) (long >>= longNext) := by
  intro before
  obtain ⟨same, further, grows⟩ := first before
  have growsOn : (long.final before).steps ≤ ((long >>= longNext).final before).steps :=
    steps_le_final_bind (fun result after => (rest result after).2.2) before
  cases outcome : short before with
  | ok result after =>
      have longOutcome := (same (not_exhausts_of_ok outcome)).trans outcome
      rw [exhausts_bind_of_ok outcome, bind_of_ok outcome, final_bind_of_ok outcome,
        bind_of_ok longOutcome]
      exact ⟨(rest result after).1, by
        rw [final_bind_of_ok longOutcome]
        exact (rest result after).2.1, Nat.le_trans grows growsOn⟩
  | error halt after =>
      rw [exhausts_of_error outcome] at same
      rw [final_of_error outcome] at further
      rw [exhausts_bind_of_error outcome, bind_of_error outcome, final_bind_of_error outcome]
      refine ⟨fun hasFuel => ?_, Nat.le_trans further growsOn, Nat.le_trans grows growsOn⟩
      exact bind_of_error ((same hasFuel).trans outcome)

theorem extends_of_quiet {α : Type} {action : Run α} (quiet : Quiet action) :
    Extends action action :=
  fun before => ⟨fun _ => rfl, Nat.le_refl _, Nat.le_of_eq (quiet before).1.symm⟩

/-- Extension as a relation that every layer keeps. -/
def extension (settings : Settings) :
    RunRelation (settings.withBudget none) (settings.withBudget none) :=
  .ofQuiet
    { Rel := Extends
      value := fun result => extends_of_quiet (quiet_pure result)
      bind := Extends.bind }
    extends_of_quiet settings none none

/-- With more fuel an evaluation goes on from where it stopped, or is the
same. -/
theorem extends_atFuel (settings : Settings) (fuel more : Nat) :
    (extension settings).Agree (Evaluator.atFuel (settings.withBudget none) fuel)
      (Evaluator.atFuel (settings.withBudget none) (fuel + more)) := by
  induction fuel with
  | zero =>
      have givesUp : ∀ {α : Type} {action : Run α} {depth : Nat},
          CountsWhenExhausted depth action → Extends (throw .outOfFuel) action := by
        intro α action depth counts before
        have halted : (throw .outOfFuel : Run α) before = .error .outOfFuel before := rfl
        rw [exhausts_of_error halted, final_of_error halted]
        exact ⟨fun hasFuel => absurd rfl hasFuel, (counts before).1, (counts before).1⟩
      have deep := exhaustsDeep_atFuel settings (0 + more)
      exact ⟨fun expr => givesUp (deep.expr expr), fun statement =>
        givesUp (deep.statement statement), fun condition step body =>
        givesUp (deep.loop condition step body), fun block => givesUp (deep.block block)⟩
  | succ fuel inductionHypothesis =>
      rw [Nat.add_right_comm, Evaluator.atFuel_succ, Evaluator.atFuel_succ]
      apply inductionHypothesis.next
      intro before
      exact ⟨fun _ => rfl, Nat.le_refl _, Nat.le_succ _⟩

/-- A block that was executed without exhausting its fuel is executed the same
way with any fuel that exceeds twice the steps it counts. -/
theorem execBlock_eq_of_fuel {settings : Settings} {fuel other : Nat} {block : Block}
    {before : Machine}
    (hasFuel : ¬ (execBlock (settings.withBudget none) fuel block).Exhausts before)
    (enough : 2 * ((execBlock (settings.withBudget none) fuel block).final before).steps <
      other + 2 * before.steps) :
    execBlock (settings.withBudget none) other block before =
      execBlock (settings.withBudget none) fuel block before := by
  rcases Nat.le_total fuel other with less | more
  · obtain ⟨rest, rfl⟩ := Nat.exists_eq_add_of_le less
    exact (((extends_atFuel settings fuel rest).block block) before).1 hasFuel
  · obtain ⟨rest, rfl⟩ := Nat.exists_eq_add_of_le more
    obtain ⟨same, further, _⟩ := (extends_atFuel settings other rest).block block before
    apply Eq.symm
    apply same
    intro exhausts
    have counted := ((exhaustsDeep_atFuel settings other).block block before).2 exhausts
    have further : ((execBlock (settings.withBudget none) other block).final before).steps ≤
        ((execBlock (settings.withBudget none) (other + rest) block).final before).steps :=
      further
    have counted : other + 2 * before.steps ≤
        2 * ((execBlock (settings.withBudget none) other block).final before).steps := counted
    omega

/-! ## Reports -/

namespace Report

/-- The report of how a program's block ended. -/
def ofOutcome : EStateM.Result Halt Machine Flow → Report
  | .ok flow machine =>
      { ending := .finished machine.globalState flow.isReturned
        steps := machine.steps, draws := machine.draws, calls := machine.calls.toList }
  | .error halt machine =>
      { ending := match halt with
          | .failed error => .failed error
          | .outOfFuel => .outOfFuel
        steps := machine.steps, draws := machine.draws, calls := machine.calls.toList }

theorem ending_ofOutcome_ne_outOfFuel {action : Run Flow} {before : Machine}
    (hasFuel : ¬ action.Exhausts before) :
    (ofOutcome (action before)).ending ≠ .outOfFuel := by
  cases outcome : action before with
  | ok flow after => nofun
  | error halt after =>
      rw [exhausts_of_error outcome] at hasFuel
      cases halt with
      | failed error => nofun
      | outOfFuel => contradiction

end Report

namespace Program

variable (program : Program) (initial : State) (limits : Limits) (random : RandomSource)

/-- Executing the body of a program under a budget, with an amount of fuel. -/
def execution (budget : Option Nat) (fuel : Nat) : Run Flow :=
  execBlock ((program.settings limits random).withBudget budget) fuel program.body

theorem runWithFuel_eq_ofOutcome (budget : Option Nat) (fuel : Nat) :
    program.runWithFuel fuel initial { limits with maxSteps := budget } random =
      .ofOutcome (program.execution limits random budget fuel (Machine.ofState initial)) := by
  show (match program.execution limits random budget fuel (Machine.ofState initial) with
    | .ok flow machine => _
    | .error halt machine => _) = _
  unfold Report.ofOutcome
  split <;> rfl

theorem runWithFuel_eq_execBlock (fuel : Nat) :
    program.runWithFuel fuel initial limits random =
      .ofOutcome (execBlock (program.settings limits random) fuel program.body
        (Machine.ofState initial)) :=
  program.runWithFuel_eq_ofOutcome initial limits random limits.maxSteps fuel

/-- Under a budget a run counts no more steps than it, or it counts one more and the
budget is exceeded.  A counter of 64 bits holds that for every budget below
`2 ^ 64 - 1`. -/
theorem steps_le_budget_or_exceeded {limits : Limits} {budget : Nat}
    (bounded : limits.maxSteps = some budget) (fuel : Nat) :
    (program.runWithFuel fuel initial limits random).steps ≤ budget ∨
      (program.runWithFuel fuel initial limits random).ending =
          .failed (.budgetExceeded budget) ∧
        (program.runWithFuel fuel initial limits random).steps = budget + 1 := by
  obtain ⟨maxSteps, maxCallDepth, maxArrayIndex⟩ := limits
  cases bounded
  rw [runWithFuel_eq_execBlock]
  obtain ⟨succeeds, halts⟩ := staysWithin_execBlock budget
    (program.settings ⟨some budget, maxCallDepth, maxArrayIndex⟩ random) fuel program.body
    (Machine.ofState initial) (Nat.zero_le budget)
  cases outcome : execBlock (program.settings ⟨some budget, maxCallDepth, maxArrayIndex⟩ random)
      fuel program.body (Machine.ofState initial) with
  | ok flow after => exact .inl (succeeds flow after outcome)
  | error halt after =>
      rcases halts halt after outcome with within | ⟨rfl, exceeds⟩
      · exact .inl within
      · exact .inr ⟨rfl, exceeds⟩

/-- The run of a program under a step budget. -/
def runWithin (budget : Nat) : Report :=
  program.run initial { limits with maxSteps := some budget } random

/-- A run under a budget counts no more than the budget and ends as the run
without one does, or that run counts more and the budget is exceeded. -/
theorem runWithin_cases (budget : Nat) :
    (program.runWithin initial limits random budget =
        .ofOutcome (program.execution limits random none (2 * budget + 3)
          (Machine.ofState initial)) ∧
      ¬ (program.execution limits random none (2 * budget + 3)).Exhausts
        (Machine.ofState initial) ∧
      ((program.execution limits random none (2 * budget + 3)).final
        (Machine.ofState initial)).steps ≤ budget) ∨
    ((program.runWithin initial limits random budget).ending =
        .failed (.budgetExceeded budget) ∧
      budget < ((program.execution limits random none (2 * budget + 3)).final
        (Machine.ofState initial)).steps) := by
  have isRun : program.runWithin initial limits random budget =
      .ofOutcome (program.execution limits random (some budget) (2 * budget + 3)
        (Machine.ofState initial)) :=
    program.runWithFuel_eq_ofOutcome initial limits random (some budget) (2 * budget + 3)
  have startsAtZero : (Machine.ofState initial).steps = 0 := rfl
  obtain ⟨_, cuts⟩ := (truncates_atFuel budget (program.settings limits random)
    (2 * budget + 3)).block program.body (Machine.ofState initial)
  have cuts := cuts (by omega)
  by_cases within : ((program.execution limits random none (2 * budget + 3)).final
      (Machine.ofState initial)).steps ≤ budget
  · left
    refine ⟨isRun.trans (congrArg Report.ofOutcome (cuts.1 within)), fun exhausts => ?_, within⟩
    have counted : 2 * budget + 3 + 2 * (Machine.ofState initial).steps ≤
        2 * ((program.execution limits random none (2 * budget + 3)).final
          (Machine.ofState initial)).steps :=
      ((exhaustsDeep_atFuel (program.settings limits random) (2 * budget + 3)).block
        program.body (Machine.ofState initial)).2 exhausts
    omega
  · right
    obtain ⟨after, exceeded⟩ := cuts.2 (Nat.lt_of_not_le within)
    refine ⟨?_, Nat.lt_of_not_le within⟩
    exact congrArg Report.ending (isRun.trans (congrArg Report.ofOutcome exceeded))

/-- An execution without a budget that had fuel enough is the same with any fuel
that exceeds twice the steps it counts. -/
theorem execution_eq_of_fuel {fuel other : Nat}
    (hasFuel : ¬ (program.execution limits random none fuel).Exhausts (Machine.ofState initial))
    (enough : 2 * ((program.execution limits random none fuel).final
      (Machine.ofState initial)).steps < other) :
    program.execution limits random none other (Machine.ofState initial) =
      program.execution limits random none fuel (Machine.ofState initial) :=
  execBlock_eq_of_fuel hasFuel (Nat.lt_of_lt_of_le enough (Nat.le_add_right _ _))

end Program

end Scriptlet
