import Scriptlet.Proofs.Run.Budget
import Scriptlet.Proofs.Run.Functions
import Scriptlet.Proofs.Run.Halting

/-!
Contract: evaluation ends where nothing turns.

Owns:
- whatever evaluation takes up, without a turn of a loop, is a part of its node in
  the same activation, or is in a call that the call depth allows;
- the rank of a visit, which every visit that it makes has less of;
- every run of a program that was compiled without loops ends, under a budget that
  it does not exceed.

The functions that a call can name are those that the program declares, so the
body of one is no larger than the program.
-/

namespace Scriptlet

open Run

/-! ## Sizes -/

namespace Node

theorem Part.sizeOf_lt {part node : Node} (isPart : part.Part node) :
    sizeOf part < sizeOf node := by
  cases isPart with
  | item member | argument _ member | statement member =>
      have smaller := List.sizeOf_lt_of_mem member
      simp only [expr.sizeOf_spec, statement.sizeOf_spec, block.sizeOf_spec,
        Expr.array.sizeOf_spec, Expr.call.sizeOf_spec]
      omega
  | @condition branches branch member otherwise | @guarded branches branch member otherwise =>
      have smaller := List.sizeOf_lt_of_mem member
      cases branch
      simp only [Branch.condition, Branch.body, Branch.mk.sizeOf_spec, expr.sizeOf_spec,
        block.sizeOf_spec, statement.sizeOf_spec, Statement.choose.sizeOf_spec] at smaller ⊢
      omega
  | operand | left | right | base | offset =>
      simp only [expr.sizeOf_spec, Expr.unary.sizeOf_spec, Expr.binary.sizeOf_spec,
        Expr.index.sizeOf_spec]
      omega
  | turnCondition =>
      simp only [expr.sizeOf_spec, loop.sizeOf_spec, Option.some.sizeOf_spec]
      omega
  | turnBody condition | turnStep condition =>
      have positive : 0 < sizeOf condition := by
        cases condition with
        | none => exact Nat.one_pos
        | some condition =>
            rw [Option.some.sizeOf_spec]
            omega
      simp only [statement.sizeOf_spec, block.sizeOf_spec, loop.sizeOf_spec]
      omega
  | assigned | storeBase | storeOffset | stored | evaluated | returned =>
      simp only [expr.sizeOf_spec, statement.sizeOf_spec, Statement.assign.sizeOf_spec,
        Statement.store.sizeOf_spec, Statement.evaluate.sizeOf_spec,
        Statement.giveBack.sizeOf_spec]
      omega
  | otherwise | initial | turns | declared =>
      simp only [statement.sizeOf_spec, block.sizeOf_spec, loop.sizeOf_spec,
        Statement.choose.sizeOf_spec, Statement.loop.sizeOf_spec, Statement.declare.sizeOf_spec]
      omega

theorem Within.sizeOf_le {part node : Node} (within : part.Within node) :
    sizeOf part ≤ sizeOf node := by
  induction within with
  | refl => exact Nat.le_refl _
  | tail _ isPart inductionHypothesis =>
      exact Nat.le_trans inductionHypothesis (Nat.le_of_lt isPart.sizeOf_lt)

/-- Whether a node is the turns of a loop. -/
def IsTurns : Node → Prop
  | .loop .. => True
  | _ => False

end Node

/-! ## Depth -/

/-- Scopes that keep their names are as deep. -/
theorem Scopes.KeepsNames.depth {before after : Scopes} (keeps : before.KeepsNames after) :
    after.depth = before.depth :=
  keeps.keepsCallers.depth

/-- A call is entered one activation deeper, if the call depth allows that. -/
theorem depth_of_enterCall {settings : Settings} {name : String}
    {declaration : FunctionDeclaration} {values : List Value} {depth : Nat}
    {given entered : Machine}
    (enters : enterCall settings name declaration values given = .ok depth entered) :
    given.scopes.depth < settings.limits.maxCallDepth ∧
      entered.scopes.depth = given.scopes.depth + 1 := by
  have allowed : Ensures (enterCall settings name declaration values) given
      (fun _ _ => given.scopes.depth < settings.limits.maxCallDepth) fun _ _ => True := by
    show Ensures (if settings.limits.maxCallDepth ≤ given.scopes.depth then _ else _) given _ _
    split
    · trivial
    · next notReached => exact Nat.lt_of_not_le notReached
  refine ⟨allowed.of_ok enters, ?_⟩
  rw [(eq_enter_of_enterCall enters).2]
  exact (given.keepsCallers_enter name declaration values).depth

section

variable {settings : Settings} {evaluator : Evaluator} {before after : Machine}
  (meets : (keepingFrames settings).Meets evaluator)

include meets

theorem depth_of_evalItems {items : List Expr} {filled : Slots}
    (evaluated : evalItems evaluator.expr 0 ∅ items before = .ok filled after) :
    after.scopes.depth = before.scopes.depth := by
  have filling : (keepingFrames settings).Filling before 0 ∅ before := trivial
  have admits : ∀ item ∈ items, (keepingFrames settings).Admits (.expr item) :=
    fun _ _ => trivial
  have ends := (keepingFrames settings).evalItems meets trivial admits filling
  exact (ends.of_ok evaluated).2.1.depth

theorem depth_of_evalList {exprs : List Expr} {values : List Value}
    (evaluated : evalList evaluator.expr exprs before = .ok values after) :
    after.scopes.depth = before.scopes.depth := by
  have admits : ∀ expr ∈ exprs, (keepingFrames settings).Admits (.expr expr) :=
    fun _ _ => trivial
  have inv : (keepingFrames settings).Inv before := trivial
  have ends := (keepingFrames settings).evalList meets inv admits
  exact (ends.of_ok evaluated).2.1.depth

theorem depth_of_execList {block : Block} {flow : Flow}
    (executed : execList evaluator.statement block before = .ok flow after) :
    after.scopes.depth = before.scopes.depth := by
  have admits : ∀ statement ∈ block, (keepingFrames settings).Admits (.statement statement) :=
    fun _ _ => trivial
  have inv : (keepingFrames settings).Inv before := trivial
  have ends := (keepingFrames settings).execList meets inv admits
  exact (ends.of_ok executed).1.depth

theorem depth_of_choiceOpens {otherwise : Block} {branches : List Branch} {part : Node}
    (opens : ChoiceOpens evaluator otherwise branches before part after) :
    part.Part (.statement (.choose branches otherwise)) ∧
      after.scopes.depth = before.scopes.depth := by
  induction opens with
  | condition condition body rest machine =>
      have member : Branch.mk condition body ∈ Branch.mk condition body :: rest :=
        List.mem_cons_self
      exact ⟨.condition member otherwise, rfl⟩
  | @holds condition _ _ _ body rest evaluated truth =>
      have member : Branch.mk condition body ∈ Branch.mk condition body :: rest :=
        List.mem_cons_self
      exact ⟨.guarded member otherwise, (keepsNames_of_expr meets evaluated).depth⟩
  | later body evaluated truth opens inductionHypothesis =>
      obtain ⟨isPart, same⟩ := inductionHypothesis
      refine ⟨?_, same.trans (keepsNames_of_expr meets evaluated).depth⟩
      cases isPart with
      | condition member => exact .condition (List.mem_cons_of_mem _ member) otherwise
      | guarded member => exact .guarded (List.mem_cons_of_mem _ member) otherwise
      | otherwise => exact .otherwise _ otherwise
  | otherwise machine => exact ⟨.otherwise [] otherwise, rfl⟩

/-- What a node takes up is a part of it in the same activation, or the body of a
function in an activation that the call depth allows, unless the node is the turns
of a loop. -/
theorem depth_of_opens {node part : Node}
    (opens : Opens settings evaluator node before part after) (settled : ¬ node.IsTurns) :
    (part.Part node ∧ after.scopes.depth = before.scopes.depth) ∨
      (before.scopes.depth < settings.limits.maxCallDepth ∧
        after.scopes.depth = before.scopes.depth + 1) := by
  cases opens with
  | called found evaluated enters =>
      right
      rw [← depth_of_evalList meets evaluated]
      exact depth_of_enterCall enters
  | item item rest evaluated =>
      exact .inl ⟨.item (by simp), depth_of_evalItems meets evaluated⟩
  | operand operator operand => exact .inl ⟨.operand operator operand, rfl⟩
  | left operator left right => exact .inl ⟨.left operator left right, rfl⟩
  | right right evaluated needed =>
      exact .inl ⟨.right _ _ right, (keepsNames_of_expr meets evaluated).depth⟩
  | base base offset => exact .inl ⟨.base base offset, rfl⟩
  | offset offset evaluated =>
      exact .inl ⟨.offset _ offset, (keepsNames_of_expr meets evaluated).depth⟩
  | argument argument rest found evaluated =>
      exact .inl ⟨.argument _ (by simp), depth_of_evalList meets evaluated⟩
  | assigned name value => exact .inl ⟨.assigned name value, rfl⟩
  | storeBase base offset value => exact .inl ⟨.storeBase base offset value, rfl⟩
  | stored offset value evaluated =>
      exact .inl ⟨.stored _ offset value, (keepsNames_of_expr meets evaluated).depth⟩
  | storeOffset offset evaluated evaluatedValue =>
      have keeps := (keepsNames_of_expr meets evaluated).trans
        (keepsNames_of_expr meets evaluatedValue)
      exact .inl ⟨.storeOffset _ offset _, keeps.depth⟩
  | evaluated expr => exact .inl ⟨.evaluated expr, rfl⟩
  | choice opens => exact .inl (depth_of_choiceOpens meets opens)
  | initial initial condition step body =>
      exact .inl ⟨.initial initial condition step body, rfl⟩
  | @turns initial _ _ condition step body executed =>
      have inv : (keepingFrames settings).Inv before := trivial
      have executes := meets.execute (.statement initial) trivial trivial inv
      exact .inl ⟨.turns _ condition step body, (executes.of_ok executed).1.depth⟩
  | returned value => exact .inl ⟨.returned value, rfl⟩
  | turnCondition | turnBody | turnStep | nextTurn => exact absurd trivial settled
  | statement statement rest executed =>
      exact .inl ⟨.statement (by simp), depth_of_execList meets executed⟩

end

/-! ## Rank -/

namespace Visit

/-- What a visit inside a node has left: for every further activation that the call
depth allows, all of that node, and in its own activation what it evaluates. -/
noncomputable def rank (settings : Settings) (root : Node) (visit : Visit) : Nat :=
  (settings.limits.maxCallDepth - visit.machine.scopes.depth) * (sizeOf root + 1) +
    sizeOf visit.node

variable {settings : Settings} {root : Node}

/-- A visit has less left than the one that makes it: it is of a smaller node, or
it is deeper, where whatever it is of fits into what one activation less leaves. -/
theorem Begins.rank_lt {outer inner : Visit} (begins : outer.Begins settings inner)
    (settled : ¬ outer.node.IsTurns) (within : inner.node.Within root) :
    inner.rank settings root < outer.rank settings root := by
  cases begins with
  | @intro node part fuel before counted after counts opens =>
      have isCounted : counted.scopes.depth = before.scopes.depth :=
        (keepsNames_of_count counts).depth
      have meets := (keepingFrames settings).meets_atFuel fuel
      unfold rank
      rcases depth_of_opens meets opens settled with ⟨isPart, same⟩ | ⟨allowed, deeper⟩
      · have smaller := isPart.sizeOf_lt
        simp only [same, isCounted]
        omega
      · have fits : sizeOf part ≤ sizeOf root := within.sizeOf_le
        obtain ⟨further, isFurther⟩ : ∃ further,
            settings.limits.maxCallDepth - before.scopes.depth = further + 1 :=
          ⟨settings.limits.maxCallDepth - before.scopes.depth - 1, by omega⟩
        have less : settings.limits.maxCallDepth - after.scopes.depth = further := by omega
        simp only [less, isFurther, Nat.add_mul]
        omega

/-- Fuel for its rank is enough for a visit in which nothing turns. -/
theorem not_halts_outOfFuel
    (apart : ∀ parameters body,
      ¬ (Node.statement (.declare returnName parameters body)).Within root)
    (settled : root.Everywhere fun node => ¬ node.IsTurns) {visit : Visit}
    (within : visit.node.Within root) (declared : visit.machine.DeclaredIn root)
    (enough : visit.rank settings root < visit.fuel) : ¬ visit.Halts settings .outOfFuel := by
  obtain ⟨node, fuel, machine⟩ := visit
  induction fuel generalizing node machine with
  | zero => exact absurd enough (Nat.not_lt_zero _)
  | succ fuel inductionHypothesis =>
      intro halts
      rcases exists_begins_of_halts (outOfFuel_isForeign settings) halts with
        isZero | ⟨inner, begins, innerHalts⟩
      · cases isZero
      · obtain ⟨innerWithin, innerDeclared⟩ :=
          (keepingFunctionsApart settings root apart).of_begins begins within declared
        have less := begins.rank_lt (settled node within) innerWithin
        cases begins with
        | intro counts opens =>
            exact inductionHypothesis _ _ innerWithin innerDeclared
              (Nat.lt_of_lt_of_le less (Nat.le_of_lt_succ enough)) innerHalts

end Visit

namespace Program

variable {features : FeatureSet} {source : String} {program : Program}

/-- Loops need their feature. -/
theorem settled_of_compile (compiled : compile features source = .ok program)
    (loopFree : .loop ∉ features) :
    (Node.block program.body).Everywhere fun node => ¬ node.IsTurns := by
  intro node within isTurns
  cases node with
  | expr | statement | block => exact isTurns
  | loop condition step body =>
      rcases within.cases_head with isBody | ⟨outer, isPart, outerWithin⟩
      · cases isBody
      · cases isPart with
        | turns initial =>
            obtain ⟨allowed, _, _⟩ :=
              wellFormed_of_parse (parse_of_compile compiled) _ outerWithin
            exact loopFree (allowed _ (List.mem_singleton_self _))

/-- Without loops there is fuel that an execution without a budget does not
exhaust. -/
theorem exists_fuel_of_loopFree (compiled : compile features source = .ok program)
    (loopFree : .loop ∉ features) (initial : State) (limits : Limits) (random : RandomSource) :
    ∃ fuel, ¬ (program.execution limits random none fuel).Exhausts (Machine.ofState initial) := by
  let settings := (program.settings limits random).withBudget none
  let fuel := (program.visit 0 initial).rank settings (.block program.body) + 1
  have enough : (program.visit fuel initial).rank settings (.block program.body) < fuel :=
    Nat.lt_succ_self _
  have ends : ¬ (program.visit fuel initial).Halts settings .outOfFuel :=
    Visit.not_halts_outOfFuel (returnName_not_declared compiled)
      (settled_of_compile compiled loopFree) .refl (Machine.declaredIn_ofState _ initial) enough
  exact ⟨fuel, ends⟩

/-- A run without a budget does not exceed one. -/
theorem ending_ne_budgetExceeded (program : Program) (initial : State) (limits : Limits)
    (random : RandomSource) (fuel exceeded : Nat) :
    (Report.ofOutcome (program.execution limits random none fuel
      (Machine.ofState initial))).ending ≠ .failed (.budgetExceeded exceeded) := by
  let settings := (program.settings limits random).withBudget none
  have unbounded : settings.limits.maxSteps = none := rfl
  cases outcome : program.execution limits random none fuel (Machine.ofState initial) with
  | ok flow after => exact nofun
  | error halt after =>
      intro isExceeded
      cases halt with
      | outOfFuel => cases isExceeded
      | failed error =>
          cases isExceeded
          exact (program.visit fuel initial).not_halts_budgetExceeded unbounded exceeded
            ⟨after, outcome⟩

/-- Without loops every run ends.  Some budget is not exceeded, the run under it is
not short of fuel, and with as much fuel the run without a budget is the same. -/
theorem exists_budget_of_loopFree (compiled : compile features source = .ok program)
    (loopFree : .loop ∉ features) (initial : State) (limits : Limits) (random : RandomSource) :
    ∃ budget,
      (∀ exceeded, (program.runWithin initial limits random budget).ending ≠
        .failed (.budgetExceeded exceeded)) ∧
      (program.runWithin initial limits random budget).ending ≠ .outOfFuel ∧
      ∀ fuel, 2 * budget + 3 ≤ fuel →
        program.runWithFuel fuel initial { limits with maxSteps := none } random =
          program.runWithin initial limits random budget := by
  obtain ⟨enough, hasFuel⟩ := exists_fuel_of_loopFree compiled loopFree initial limits random
  let budget :=
    ((program.execution limits random none enough).final (Machine.ofState initial)).steps
  have covered : ∀ fuel, 2 * budget + 3 ≤ fuel →
      program.execution limits random none fuel (Machine.ofState initial) =
        program.execution limits random none enough (Machine.ofState initial) :=
    fun fuel covers => program.execution_eq_of_fuel initial limits random hasFuel (by omega)
  refine ⟨budget, ?_⟩
  rcases program.runWithin_cases initial limits random budget with
    ⟨isWhole, wholeHasFuel, _⟩ | ⟨_, exceeds⟩
  · rw [isWhole]
    refine ⟨program.ending_ne_budgetExceeded initial limits random _,
      Report.ending_ofOutcome_ne_outOfFuel wholeHasFuel, fun fuel covers => ?_⟩
    rw [runWithFuel_eq_ofOutcome, covered fuel covers, covered _ (Nat.le_refl _)]
  · rw [final, covered _ (Nat.le_refl _)] at exceeds
    exact absurd exceeds (Nat.lt_irrefl _)

/-- Two functions that call each other twice each, and never return. -/
def callEachOther : Program where
  features := {.function}
  body := [
    .declare "f" ["n"]
      [.giveBack (.binary .add (.call "g" [.name "n"]) (.call "g" [.name "n"]))],
    .declare "g" ["n"]
      [.giveBack (.binary .add (.call "f" [.name "n"]) (.call "f" [.name "n"]))],
    .assign "x" (.call "f" [.integer 1])]

theorem exists_budget_of_loopFree_callEachOther :
    compile {.function}
      "func f(n) \x7b return g(n) + g(n) \x7d\nfunc g(n) \x7b return f(n) + f(n) \x7d\nx = f(1)" =
        .ok callEachOther ∧
    .loop ∉ ({.function} : FeatureSet) ∧
    ∃ budget,
      (∀ exceeded, (callEachOther.runWithin ∅ Limits.default (fun _ => 0) budget).ending ≠
        .failed (.budgetExceeded exceeded)) ∧
      (callEachOther.runWithin ∅ Limits.default (fun _ => 0) budget).ending ≠ .outOfFuel ∧
      ∀ fuel, 2 * budget + 3 ≤ fuel →
        callEachOther.runWithFuel fuel ∅ { Limits.default with maxSteps := none } (fun _ => 0) =
          callEachOther.runWithin ∅ Limits.default (fun _ => 0) budget := by
  have compiled : compile {.function}
      "func f(n) \x7b return g(n) + g(n) \x7d\nfunc g(n) \x7b return f(n) + f(n) \x7d\nx = f(1)" =
        .ok callEachOther := by decide +kernel
  have loopFree : .loop ∉ ({.function} : FeatureSet) := by decide
  exact ⟨compiled, loopFree,
    exists_budget_of_loopFree compiled loopFree ∅ Limits.default fun _ => 0⟩

end Program

end Scriptlet
