import Scriptlet.Proofs.Run.Boundary
import Scriptlet.Proofs.Run.Equality

/-!
Contract: what a program that needs neither arrays nor functions sees of its state.

Owns:
- nodes that need neither feature, in themselves and in their parts;
- machines that are seen as the same: no call is active, and each name is bound to
  values that read back as the same;
- evaluating such a node from machines that are seen as the same ends alike.

The arrays of an initial state can be bound to further names and compared, but nothing
changes them.  So it makes no difference how many names share one.
-/

namespace Scriptlet

open Run

/-- Whether nothing in a node needs functions or arrays. -/
def Node.Scalar (node : Node) : Prop :=
  node.Everywhere fun inside => .function ∉ inside.needs ∧ .array ∉ inside.needs

theorem Node.Scalar.part {node part : Node} (scalar : node.Scalar) (isPart : part.Part node) :
    part.Scalar :=
  Node.Everywhere.part scalar isPart

theorem Node.Scalar.needs {node : Node} (scalar : node.Scalar) :
    .function ∉ node.needs ∧ .array ∉ node.needs :=
  scalar node .refl

theorem scalar_of_parse {features : FeatureSet} {source : String} {body : Block}
    (without : .function ∉ features ∧ .array ∉ features)
    (parsed : parse features source = .ok body) : (Node.block body).Scalar := by
  intro inside within
  have allowed := (wellFormed_of_parse parsed inside within).allowed
  exact ⟨fun needed => without.1 (allowed _ needed), fun needed => without.2 (allowed _ needed)⟩

/-! ## Values and machines -/

theorem Store.stateValue_integer (store : Store) (number : Int64) :
    store.stateValue (.integer number) = some (.integer number) := by
  unfold stateValue
  cases store.cells.size <;> rfl

/-- An integer reads back as itself, and an array as a list. -/
theorem Store.cases_of_stateValue {store : Store} {value : Value} {seen : StateValue}
    (reads : store.stateValue value = some seen) :
    (∃ number, value = .integer number ∧ seen = .integer number) ∨
      ∃ location items, value = .array location ∧ seen = .list items := by
  cases value with
  | integer number =>
      rw [stateValue_integer] at reads
      exact .inl ⟨number, rfl, (Option.some.inj reads).symm⟩
  | array location =>
      right
      unfold stateValue at reads
      cases size : store.cells.size with
      | zero =>
          rw [size] at reads
          exact ⟨location, _, rfl, (Option.some.inj reads).symm⟩
      | succ =>
          rw [size] at reads
          exact ⟨location, _, rfl, (Option.some.inj reads).symm⟩
  | function =>
      unfold stateValue at reads
      cases size : store.cells.size with
      | zero =>
          rw [size] at reads
          cases reads
      | succ =>
          rw [size] at reads
          cases reads

/-- The settings of a run that goes on with the draws where some were made before. -/
def Settings.afterDraws (settings : Settings) (made : Nat) : Settings :=
  { settings with random := settings.random.map fun source draw => source (made + draw) }

/-- The stores of two runs, and the draws that the first run made before the second one
began. -/
structure View where
  first : Store
  second : Store
  ahead : Nat

namespace View

variable {view : View}

/-- Whether values read back as the same. -/
def Values (view : View) (value other : Value) : Prop :=
  ∃ seen, view.first.stateValue value = some seen ∧ view.second.stateValue other = some seen

theorem values_integer (number : Int64) : view.Values (.integer number) (.integer number) :=
  ⟨.integer number, view.first.stateValue_integer number, view.second.stateValue_integer number⟩

theorem Values.cases {value other : Value} (alike : view.Values value other) :
    (∃ number, value = .integer number ∧ other = .integer number) ∨
      ∃ location otherLocation, value = .array location ∧ other = .array otherLocation := by
  obtain ⟨seen, isSeen, otherSeen⟩ := alike
  rcases Store.cases_of_stateValue isSeen with
    ⟨number, rfl, rfl⟩ | ⟨location, items, rfl, rfl⟩
  · rcases Store.cases_of_stateValue otherSeen with ⟨_, rfl, same⟩ | ⟨_, _, _, differ⟩
    · cases same
      exact .inl ⟨number, rfl, rfl⟩
    · cases differ
  · rcases Store.cases_of_stateValue otherSeen with ⟨_, _, differ⟩ | ⟨otherLocation, _, rfl, _⟩
    · cases differ
    · exact .inr ⟨location, otherLocation, rfl, rfl⟩

theorem Values.asInteger_eq {value other : Value} (alike : view.Values value other)
    (operation : String) : value.asInteger operation = other.asInteger operation := by
  rcases alike.cases with ⟨number, rfl, rfl⟩ | ⟨location, otherLocation, rfl, rfl⟩
  · rfl
  · rfl

theorem Values.asTruth_eq {value other : Value} (alike : view.Values value other)
    (operation : String) : value.asTruth operation = other.asTruth operation := by
  rw [Value.asTruth, Value.asTruth, alike.asInteger_eq]

/-- Values are equal in one run if they are in the other, because arrays are compared by
what they read back as. -/
theorem Values.equal_eq {left right otherLeft otherRight : Value}
    (leftAlike : view.Values left otherLeft) (rightAlike : view.Values right otherRight) :
    view.first.equal left right = view.second.equal otherLeft otherRight := by
  obtain ⟨seen, isSeen, otherSeen⟩ := leftAlike
  obtain ⟨rightSeen, isRightSeen, otherRightSeen⟩ := rightAlike
  rcases Values.cases ⟨seen, isSeen, otherSeen⟩ with
    ⟨number, rfl, rfl⟩ | ⟨location, otherLocation, rfl, rfl⟩
  · rcases Values.cases ⟨rightSeen, isRightSeen, otherRightSeen⟩ with
      ⟨number, rfl, rfl⟩ | ⟨location, otherLocation, rfl, rfl⟩
    · rfl
    · rfl
  · rcases Values.cases ⟨rightSeen, isRightSeen, otherRightSeen⟩ with
      ⟨number, rfl, rfl⟩ | ⟨rightLocation, otherRightLocation, rfl, rfl⟩
    · rfl
    · rw [Store.equal_array, Store.equal_array, isSeen, otherSeen, isRightSeen, otherRightSeen]

/-- Machines that are seen as the same. -/
structure Machines (view : View) (first second : Machine) : Prop where
  firstStore : first.store = view.first
  secondStore : second.store = view.second
  firstFrames : first.scopes.frames = []
  secondFrames : second.scopes.frames = []
  globals : ∀ name : String,
    Option.Rel view.Values first.scopes.globals[name]? second.scopes.globals[name]?
  draws : first.draws = view.ahead + second.draws

/-- Machines that are seen as the same read back as the same state. -/
theorem Machines.globalState_eq {first second : Machine} (machines : view.Machines first second) :
    first.globalState = second.globalState := by
  apply Std.ExtTreeMap.ext_getElem?
  intro name
  rw [Machine.globalState, Machine.globalState, Std.ExtTreeMap.getElem?_filterMap',
    Std.ExtTreeMap.getElem?_filterMap', machines.firstStore, machines.secondStore]
  rcases none_or_some_of_rel (machines.globals name) with
    ⟨isNone, otherNone⟩ | ⟨value, other, isSome, otherSome, seen, isSeen, otherSeen⟩
  · rw [isNone, otherNone]
    rfl
  · rw [isSome, otherSome]
    exact isSeen.trans otherSeen.symm

/-! ## Steps -/

variable {α β γ δ : Type} {settings : Settings}

/-- Whether two steps end alike from machines that are seen as the same, with results
as told. -/
def Sees (view : View) (post : α → β → Prop) (left : Run α) (right : Run β) : Prop :=
  ∀ ⦃first second : Machine⦄, view.Machines first second →
    Coupled (fun result after other otherAfter => view.Machines after otherAfter ∧
      post result other) (fun _ _ => True) (left first) (right second)

theorem Sees.bind {left : Run α} {right : Run β} {leftNext : α → Run γ} {rightNext : β → Run δ}
    {post : α → β → Prop} {nextPost : γ → δ → Prop} (sees : view.Sees post left right)
    (rest : ∀ result other, post result other →
      view.Sees nextPost (leftNext result) (rightNext other)) :
    view.Sees nextPost (left >>= leftNext) (right >>= rightNext) := by
  intro first second machines
  exact (sees machines).bind fun ⟨stillMachines, holds⟩ => rest _ _ holds stillMachines

theorem sees_pure {post : α → β → Prop} {result : α} {other : β} (holds : post result other) :
    view.Sees post (pure result) (pure other) :=
  fun _ _ machines => .ok ⟨machines, holds⟩

theorem sees_throw {post : α → β → Prop} (halt : Halt) :
    view.Sees post (throw halt : Run α) (throw halt : Run β) :=
  fun _ _ _ => .error trivial

/-- What both sides look at the same way is the same on both. -/
theorem sees_ofExcept {seen otherSeen : Except RunError α} (same : seen = otherSeen) :
    view.Sees Eq (ofExcept seen) (ofExcept otherSeen) := by
  subst same
  cases seen with
  | ok result => exact sees_pure rfl
  | error error => exact sees_throw _

theorem Machines.withSteps {first second : Machine} (machines : view.Machines first second)
    (steps other : Nat) :
    view.Machines { first with steps := steps } { second with steps := other } :=
  ⟨machines.firstStore, machines.secondStore, machines.firstFrames, machines.secondFrames,
    machines.globals, machines.draws⟩

theorem sees_tick (unbounded : settings.limits.maxSteps = none) :
    view.Sees Eq (tick settings) (tick (settings.afterDraws view.ahead)) := by
  intro first second machines
  have alsoUnbounded : (settings.afterDraws view.ahead).limits.maxSteps = none := unbounded
  rw [tick_of_unbounded unbounded, tick_of_unbounded alsoUnbounded]
  exact .ok ⟨machines.withSteps _ _, rfl⟩

theorem Machines.read {first second : Machine} (machines : view.Machines first second)
    (name : String) :
    Option.Rel view.Values (first.scopes.read name) (second.scopes.read name) := by
  rw [Scopes.read, Scopes.read, machines.firstFrames, machines.secondFrames]
  exact machines.globals name

theorem sees_readBinding (name : String) :
    view.Sees view.Values (readBinding name) (readBinding name) := by
  intro first second machines
  rw [readBinding, get_bind_apply, get_bind_apply]
  rcases none_or_some_of_rel (machines.read name) with
    ⟨isNone, otherNone⟩ | ⟨value, other, isSome, otherSome, alike⟩
  · rw [isNone, otherNone]
    exact sees_pure (values_integer 0) machines
  · rw [isSome, otherSome]
    rcases alike.cases with ⟨number, rfl, rfl⟩ | ⟨location, otherLocation, rfl, rfl⟩
    · exact sees_pure alike machines
    · exact sees_pure alike machines

theorem sees_readName (name : String) :
    view.Sees view.Values (readName settings name)
      (readName (settings.afterDraws view.ahead) name) := by
  unfold readName Settings.afterDraws
  cases settings.random with
  | none => exact sees_readBinding name
  | some source =>
      simp only [Option.map_some]
      split
      · intro first second machines
        have drawn : source first.draws = source (view.ahead + second.draws) := by
          rw [machines.draws]
        refine .ok ⟨⟨machines.firstStore, machines.secondStore, machines.firstFrames,
          machines.secondFrames, machines.globals, congrArg (· + 1) machines.draws⟩, ?_⟩
        rw [drawn]
        exact values_integer _
      · exact sees_readBinding name

theorem sees_writeName (name : String) {value other : Value} (alike : view.Values value other) :
    view.Sees Eq (writeName name value) (writeName name other) := by
  rintro ⟨⟨globals, frames⟩, store, steps, draws, calls⟩
    ⟨⟨otherGlobals, otherFrames⟩, otherStore, otherSteps, otherDraws, otherCalls⟩ machines
  obtain ⟨firstStore, secondStore, rfl, rfl, bindings, sameDraws⟩ := machines
  refine .ok ⟨⟨firstStore, secondStore, rfl, rfl, fun bound => ?_, sameDraws⟩, rfl⟩
  show Option.Rel view.Values (globals.insert name value)[bound]?
    (otherGlobals.insert name other)[bound]?
  rw [Scopes.getElem?_insert_bindings, Scopes.getElem?_insert_bindings]
  split
  · exact .some alike
  · exact bindings bound

theorem sees_equal {left right otherLeft otherRight : Value}
    (leftAlike : view.Values left otherLeft) (rightAlike : view.Values right otherRight) :
    view.Sees Eq (equal left right) (equal otherLeft otherRight) := by
  intro first second machines
  refine .ok ⟨machines, ?_⟩
  show first.store.equal left right = second.store.equal otherLeft otherRight
  rw [machines.firstStore, machines.secondStore]
  exact leftAlike.equal_eq rightAlike

/-! ## The parts of a layer -/

theorem sees_applyUnary (operator : UnaryOperator) {value other : Value}
    (alike : view.Values value other) :
    view.Sees view.Values (applyUnary operator value) (applyUnary operator other) := by
  cases operator with
  | not =>
      refine (sees_ofExcept (alike.asTruth_eq _)).bind fun truth _ same => ?_
      subst same
      exact sees_pure (values_integer _)
  | negate | plus =>
      refine (sees_ofExcept (alike.asInteger_eq _)).bind fun number _ same => ?_
      subst same
      exact sees_pure (values_integer _)

theorem sees_applyBinary (operator : BinaryOperator) {left right otherLeft otherRight : Value}
    (leftAlike : view.Values left otherLeft) (rightAlike : view.Values right otherRight) :
    view.Sees view.Values (applyBinary operator left right)
      (applyBinary operator otherLeft otherRight) := by
  unfold applyBinary
  split
  · refine (sees_equal leftAlike rightAlike).bind fun isEqual _ same => ?_
    subst same
    exact sees_pure (values_integer _)
  · refine (sees_equal leftAlike rightAlike).bind fun isEqual _ same => ?_
    subst same
    exact sees_pure (values_integer _)
  · refine (sees_ofExcept (leftAlike.asInteger_eq _)).bind fun leftNumber _ sameLeft => ?_
    refine (sees_ofExcept (rightAlike.asInteger_eq _)).bind fun rightNumber _ sameRight => ?_
    subst sameLeft sameRight
    refine (sees_ofExcept rfl).bind fun number _ same => ?_
    subst same
    exact sees_pure (values_integer _)

/-- Ways of going on after scalar statements, which do not return. -/
def Proceeds (flow other : Flow) : Prop :=
  flow = .proceed ∧ other = .proceed

section

variable {eval otherEval : Expr → Run Value} {exec otherExec : Block → Run Flow}

theorem sees_evalBinary (operator : BinaryOperator) {left right : Expr}
    (seesLeft : view.Sees view.Values (eval left) (otherEval left))
    (seesRight : view.Sees view.Values (eval right) (otherEval right)) :
    view.Sees view.Values (evalBinary eval operator left right)
      (evalBinary otherEval operator left right) := by
  refine seesLeft.bind fun value other alike => ?_
  split
  · refine (sees_ofExcept (alike.asTruth_eq _)).bind fun truth _ same => ?_
    subst same
    cases truth with
    | true => exact seesRight
    | false => exact sees_pure alike
  · refine (sees_ofExcept (alike.asTruth_eq _)).bind fun truth _ same => ?_
    subst same
    cases truth with
    | true => exact sees_pure alike
    | false => exact seesRight
  · exact seesRight.bind fun _ _ rightAlike => sees_applyBinary operator alike rightAlike

theorem sees_loopContinues {condition : Option Expr}
    (sees : ∀ expr, condition = some expr → view.Sees view.Values (eval expr) (otherEval expr)) :
    view.Sees Eq (loopContinues eval condition) (loopContinues otherEval condition) := by
  cases condition with
  | none => exact sees_pure rfl
  | some condition =>
      exact (sees condition rfl).bind fun _ _ alike => sees_ofExcept (alike.asTruth_eq _)

theorem sees_execChoice {branches : List Branch} {otherwise : Block}
    (sees : ∀ branch ∈ branches,
      view.Sees view.Values (eval branch.condition) (otherEval branch.condition) ∧
        view.Sees Proceeds (exec branch.body) (otherExec branch.body))
    (seesLast : view.Sees Proceeds (exec otherwise) (otherExec otherwise)) :
    view.Sees Proceeds (execChoice eval exec otherwise branches)
      (execChoice otherEval otherExec otherwise branches) := by
  induction branches with
  | nil => exact seesLast
  | cons branch rest inductionHypothesis =>
      obtain ⟨condition, body⟩ := branch
      rw [List.forall_mem_cons] at sees
      refine sees.1.1.bind fun _ _ alike => ?_
      refine (sees_ofExcept (alike.asTruth_eq _)).bind fun truth _ same => ?_
      subst same
      cases truth with
      | true => exact sees.1.2
      | false => exact inductionHypothesis sees.2

theorem sees_execList {step otherStep : Statement → Run Flow} {block : Block}
    (sees : ∀ statement ∈ block,
      view.Sees Proceeds (step statement) (otherStep statement)) :
    view.Sees Proceeds (execList step block) (execList otherStep block) := by
  induction block with
  | nil => exact sees_pure ⟨rfl, rfl⟩
  | cons statement rest inductionHypothesis =>
      rw [List.forall_mem_cons] at sees
      refine sees.1.bind fun flow other proceeds => ?_
      obtain ⟨rfl, rfl⟩ := proceeds
      exact inductionHypothesis sees.2

end

/-! ## Layers -/

/-- Whether scalar nodes are evaluated alike from machines that are seen as the same. -/
structure Keeps (view : View) (left right : Evaluator) : Prop where
  expr : ∀ {expr : Expr}, (Node.expr expr).Scalar →
    view.Sees view.Values (left.expr expr) (right.expr expr)
  statement : ∀ {statement : Statement}, (Node.statement statement).Scalar →
    view.Sees Proceeds (left.statement statement) (right.statement statement)
  loop : ∀ {condition : Option Expr} {step : Statement} {body : Block},
    (Node.loop condition step body).Scalar →
    view.Sees Proceeds (left.loop condition step body) (right.loop condition step body)
  block : ∀ {block : Block}, (Node.block block).Scalar →
    view.Sees Proceeds (left.block block) (right.block block)

section

variable {left right : Evaluator} (keeps : view.Keeps left right)

include keeps

theorem Keeps.exprBody {expr : Expr} (scalar : (Node.expr expr).Scalar) :
    view.Sees view.Values (left.exprBody settings expr)
      (right.exprBody (settings.afterDraws view.ahead) expr) := by
  cases expr with
  | integer value => exact sees_pure (values_integer value)
  | name name => exact sees_readName name
  | unary operator operand =>
      exact (keeps.expr (scalar.part (.operand operator operand))).bind fun _ _ alike =>
        sees_applyUnary operator alike
  | binary operator first second =>
      exact sees_evalBinary operator (keeps.expr (scalar.part (.left operator first second)))
        (keeps.expr (scalar.part (.right operator first second)))
  | array | index => exact absurd (List.mem_singleton_self _) scalar.needs.2
  | call => exact absurd (List.mem_singleton_self _) scalar.needs.1

theorem Keeps.statementBody {statement : Statement} (scalar : (Node.statement statement).Scalar) :
    view.Sees Proceeds (left.statementBody settings statement)
      (right.statementBody (settings.afterDraws view.ahead) statement) := by
  cases statement with
  | assign name value =>
      refine (keeps.expr (scalar.part (.assigned name value))).bind fun _ _ alike => ?_
      exact (sees_writeName name alike).bind fun _ _ _ => sees_pure ⟨rfl, rfl⟩
  | evaluate expr =>
      exact (keeps.expr (scalar.part (.evaluated expr))).bind fun _ _ _ => sees_pure ⟨rfl, rfl⟩
  | choose branches otherwise =>
      refine sees_execChoice (fun branch member => ⟨?_, ?_⟩) ?_
      · exact keeps.expr (scalar.part (.condition member otherwise))
      · exact keeps.block (scalar.part (.guarded member otherwise))
      · exact keeps.block (scalar.part (.otherwise branches otherwise))
  | loop initial condition step body =>
      refine (keeps.statement (scalar.part (.initial initial condition step body))).bind
        fun flow other proceeds => ?_
      obtain ⟨rfl, rfl⟩ := proceeds
      exact keeps.loop (scalar.part (.turns initial condition step body))
  | skip => exact sees_pure ⟨rfl, rfl⟩
  | store => exact absurd (List.mem_singleton_self _) scalar.needs.2
  | declare | giveBack => exact absurd (List.mem_singleton_self _) scalar.needs.1

theorem Keeps.loopBody {condition : Option Expr} {step : Statement} {body : Block}
    (scalar : (Node.loop condition step body).Scalar) :
    view.Sees Proceeds (left.loopBody condition step body)
      (right.loopBody condition step body) := by
  have tests : view.Sees Eq (loopContinues left.expr condition)
      (loopContinues right.expr condition) := by
    refine sees_loopContinues fun expr isCondition => ?_
    subst isCondition
    exact keeps.expr (scalar.part (.turnCondition expr step body))
  refine tests.bind fun goesOn _ same => ?_
  subst same
  cases goesOn with
  | false => exact sees_pure ⟨rfl, rfl⟩
  | true =>
      refine (keeps.block (scalar.part (.turnBody condition step body))).bind
        fun flow other proceeds => ?_
      obtain ⟨rfl, rfl⟩ := proceeds
      refine (keeps.statement (scalar.part (.turnStep condition step body))).bind
        fun flow other proceeds => ?_
      obtain ⟨rfl, rfl⟩ := proceeds
      exact keeps.loop scalar

theorem Keeps.next (unbounded : settings.limits.maxSteps = none) :
    view.Keeps (left.next settings) (right.next (settings.afterDraws view.ahead)) where
  expr scalar := (sees_tick unbounded).bind fun _ _ _ => keeps.exprBody scalar
  statement scalar := (sees_tick unbounded).bind fun _ _ _ => keeps.statementBody scalar
  loop scalar := keeps.loopBody scalar
  block scalar := (sees_tick unbounded).bind fun _ _ _ =>
    sees_execList fun _ member => keeps.statement (scalar.part (.statement member))

end

theorem keeps_exhausted : view.Keeps Evaluator.exhausted Evaluator.exhausted where
  expr _ := sees_throw _
  statement _ := sees_throw _
  loop _ := sees_throw _
  block _ := sees_throw _

/-- Scalar nodes are evaluated alike, with any fuel. -/
theorem keeps_atFuel (unbounded : settings.limits.maxSteps = none) (fuel : Nat) :
    view.Keeps (Evaluator.atFuel settings fuel)
      (Evaluator.atFuel (settings.afterDraws view.ahead) fuel) := by
  induction fuel with
  | zero => exact keeps_exhausted
  | succ fuel inductionHypothesis =>
      rw [Evaluator.atFuel_succ, Evaluator.atFuel_succ]
      exact inductionHypothesis.next unbounded

end View

end Scriptlet
