import Scriptlet.Proofs.Run.Steps
import Scriptlet.Run.Eval

/-!
Contract: evaluation as layers, and relations that every layer keeps.

Owns:
- evaluators, which evaluate every kind of node, and the evaluator that is one
  layer above another one;
- evaluation with some fuel is that many layers above the evaluator that gives
  up;
- relations between two evaluations that sequencing keeps, and that a layer is
  related to a layer when the evaluators under them are.

What is to be said of a run is such a relation.  It is proved of the primitive
steps, and by induction on the layers it holds of every evaluation.  A relation
that looks at one side only is a property of single evaluations.
-/

namespace Scriptlet

open Run

/-! ## Evaluators -/

/-- The evaluation of every kind of node. -/
structure Evaluator where
  expr : Expr → Run Value
  statement : Statement → Run Flow
  loop : Option Expr → Statement → Block → Run Flow
  block : Block → Run Flow

/-- Evaluates the items of an array literal and makes the array. -/
def evalArray (eval : Expr → Run Value) (items : List Expr) : Run Value := do
  let slots ← evalItems eval 0 ∅ items
  newArray slots

namespace Evaluator

/-- Evaluation with an amount of fuel. -/
def atFuel (settings : Settings) (fuel : Nat) : Evaluator where
  expr := evalExpr settings fuel
  statement := execStatement settings fuel
  loop := execLoop settings fuel
  block := execBlock settings fuel

/-- The evaluator that gives up at once. -/
def exhausted : Evaluator where
  expr _ := throw .outOfFuel
  statement _ := throw .outOfFuel
  loop _ _ _ := throw .outOfFuel
  block _ := throw .outOfFuel

/-- What evaluating an expression does after counting it. -/
def exprBody (settings : Settings) (inner : Evaluator) : Expr → Run Value
  | .integer value => pure (.integer value)
  | .name name => readName settings name
  | .array items => evalArray inner.expr items
  | .unary operator operand => do
      let value ← inner.expr operand
      applyUnary operator value
  | .binary operator left right => evalBinary inner.expr operator left right
  | .index base offset => evalIndex inner.expr base offset
  | .call name arguments => evalCall settings inner.expr inner.block name arguments

/-- What executing a statement does after counting it. -/
def statementBody (settings : Settings) (inner : Evaluator) : Statement → Run Flow
  | .assign name value => do
      let assigned ← inner.expr value
      writeName name assigned
      return .proceed
  | .store base offset value => do
      execStore settings inner.expr base offset value
      return .proceed
  | .evaluate expr => do
      let _ ← inner.expr expr
      return .proceed
  | .choose branches otherwise => execChoice inner.expr inner.block otherwise branches
  | .loop initial condition step body => do
      match ← inner.statement initial with
      | .returned value => return .returned value
      | .proceed => inner.loop condition step body
  | .declare name parameters body => do
      writeName name (.function ⟨name, parameters, body⟩)
      return .proceed
  | .giveBack value => do
      let returned ← inner.expr value
      writeName returnName returned
      return .returned returned
  | .skip => return .proceed

/-- One turn of a loop, and the turns after it. -/
def loopBody (inner : Evaluator) (condition : Option Expr) (step : Statement) (body : Block) :
    Run Flow := do
  if ← loopContinues inner.expr condition then
    match ← inner.block body with
    | .returned value => return .returned value
    | .proceed =>
        match ← inner.statement step with
        | .returned value => return .returned value
        | .proceed => inner.loop condition step body
  else
    return .proceed

/-- The evaluator one layer above another one.  A turn of a loop is not counted
itself. -/
def next (settings : Settings) (inner : Evaluator) : Evaluator where
  expr expr := do
    tick settings
    inner.exprBody settings expr
  statement statement := do
    tick settings
    inner.statementBody settings statement
  loop := inner.loopBody
  block block := do
    tick settings
    execList inner.statement block

theorem atFuel_zero (settings : Settings) : atFuel settings 0 = exhausted := rfl

theorem atFuel_succ (settings : Settings) (fuel : Nat) :
    atFuel settings (fuel + 1) = (atFuel settings fuel).next settings := by
  simp only [atFuel, next, Evaluator.mk.injEq]
  refine ⟨?_, ?_, ?_, ?_⟩
  · funext expr
    cases expr <;> rfl
  · funext statement
    cases statement <;> rfl
  · rfl
  · rfl

end Evaluator

/-- The evaluations of nodes under some settings, with any fuel. -/
inductive Evaluation (settings : Settings) : {α : Type} → Run α → Prop where
  | expr (fuel : Nat) (expr : Expr) : Evaluation settings (evalExpr settings fuel expr)
  | statement (fuel : Nat) (statement : Statement) :
      Evaluation settings (execStatement settings fuel statement)
  | loop (fuel : Nat) (condition : Option Expr) (step : Statement) (body : Block) :
      Evaluation settings (execLoop settings fuel condition step body)
  | block (fuel : Nat) (block : Block) : Evaluation settings (execBlock settings fuel block)

/-! ## Relations -/

/-- The primitive steps of evaluation under two settings, apart from those that
make arrays and calls. -/
inductive Primitive (first second : Settings) : {α : Type} → Run α → Run α → Prop where
  | fail {α : Type} (error : RunError) :
      Primitive first second (fail error : Run α) (fail error)
  | readName (name : String) :
      Primitive first second (readName first name) (readName second name)
  | writeName (name : String) (value : Value) :
      Primitive first second (writeName name value) (writeName name value)
  | readSlot (location : Nat) (index : Int64) :
      Primitive first second (readSlot location index) (readSlot location index)
  | writeSlot (location : Nat) (index : Int64) (value : Value) :
      Primitive first second (writeSlot first location index value)
        (writeSlot second location index value)
  | equal (left right : Value) : Primitive first second (equal left right) (equal left right)

/-- A relation between evaluations that sequencing keeps. -/
structure StepRelation where
  Rel : {α : Type} → Run α → Run α → Prop
  value : ∀ {α : Type} (result : α), Rel (pure result) (pure result)
  bind : ∀ {α β : Type} {left right : Run α} {leftNext rightNext : α → Run β},
    Rel left right → (∀ result, Rel (leftNext result) (rightNext result)) →
    Rel (left >>= leftNext) (right >>= rightNext)

/-- A relation between evaluations under two settings that holds of the
primitive steps and that sequencing, array literals and calls keep. -/
structure RunRelation (first second : Settings) extends StepRelation where
  primitive : ∀ {α : Type} {left right : Run α},
    Primitive first second left right → Rel left right
  array : ∀ {left right : Expr → Run Value}, (∀ expr, Rel (left expr) (right expr)) →
    ∀ items, Rel (evalArray left items) (evalArray right items)
  call : ∀ {left right : Expr → Run Value} {leftExec rightExec : Block → Run Flow},
    (∀ expr, Rel (left expr) (right expr)) →
    (∀ block, Rel (leftExec block) (rightExec block)) → ∀ name arguments,
    Rel (evalCall first left leftExec name arguments)
      (evalCall second right rightExec name arguments)

namespace StepRelation

variable (relation : StepRelation) {left right : Expr → Run Value}
  (related : ∀ expr, relation.Rel (left expr) (right expr))

include related

theorem evalList (exprs : List Expr) :
    relation.Rel (Scriptlet.evalList left exprs) (Scriptlet.evalList right exprs) := by
  induction exprs with
  | nil => exact relation.value []
  | cons expr rest inductionHypothesis =>
      exact relation.bind (related expr) fun _ =>
        relation.bind inductionHypothesis fun _ => relation.value _

/-- A relation that holds of copying and of making arrays is kept by array
literals. -/
theorem evalArray_of_steps (copies : ∀ value, relation.Rel (copyAt 2 value) (copyAt 2 value))
    (makes : ∀ slots, relation.Rel (newArray slots) (newArray slots)) (items : List Expr) :
    relation.Rel (evalArray left items) (evalArray right items) := by
  have itemsRelated : ∀ items index slots,
      relation.Rel (evalItems left index slots items) (evalItems right index slots items) := by
    intro items
    induction items with
    | nil => exact fun _ slots => relation.value slots
    | cons item rest inductionHypothesis =>
        exact fun index slots => relation.bind (related item) fun value =>
          relation.bind (copies value) fun copy =>
            inductionHypothesis (index + 1) (slots.insert index copy)
  exact relation.bind (itemsRelated items 0 ∅) makes

/-- A relation that holds of entering and leaving calls is kept by calls. -/
theorem evalCall_of_steps {first second : Settings} {leftExec rightExec : Block → Run Flow}
    (execRelated : ∀ block, relation.Rel (leftExec block) (rightExec block))
    (finds : ∀ name count, relation.Rel (callee name count) (callee name count))
    (enters : ∀ name declaration values, relation.Rel
      (enterCall first name declaration values) (enterCall second name declaration values))
    (leaves : ∀ name depth, relation.Rel (leaveCall name depth) (leaveCall name depth))
    (name : String) (arguments : List Expr) :
    relation.Rel (evalCall first left leftExec name arguments)
      (evalCall second right rightExec name arguments) :=
  relation.bind (finds name arguments.length) fun declaration =>
    relation.bind (relation.evalList related arguments) fun values =>
      relation.bind (enters name declaration values) fun depth =>
        relation.bind (execRelated declaration.body) fun _ => leaves name depth

end StepRelation

namespace RunRelation

variable {first second : Settings} (relation : RunRelation first second)

/-- Evaluators that are related on every node. -/
structure Agree (left right : Evaluator) : Prop where
  expr : ∀ expr, relation.Rel (left.expr expr) (right.expr expr)
  statement : ∀ statement, relation.Rel (left.statement statement) (right.statement statement)
  loop : ∀ condition step body,
    relation.Rel (left.loop condition step body) (right.loop condition step body)
  block : ∀ block, relation.Rel (left.block block) (right.block block)

/-! ## The parts of a layer -/

theorem ofExcept {α : Type} (result : Except RunError α) :
    relation.Rel (Run.ofExcept result) (Run.ofExcept result) := by
  cases result with
  | ok value => exact relation.value value
  | error error => exact relation.primitive (.fail error)

theorem applyUnary (operator : UnaryOperator) (value : Value) :
    relation.Rel (Scriptlet.applyUnary operator value) (Scriptlet.applyUnary operator value) := by
  cases operator with
  | not => exact relation.bind (relation.ofExcept _) fun _ => relation.value _
  | negate => exact relation.bind (relation.ofExcept _) fun _ => relation.value _
  | plus => exact relation.bind (relation.ofExcept _) fun _ => relation.value _

theorem applyBinary (operator : BinaryOperator) (left right : Value) :
    relation.Rel (Scriptlet.applyBinary operator left right)
      (Scriptlet.applyBinary operator left right) := by
  unfold Scriptlet.applyBinary
  split
  · exact relation.bind (relation.primitive (.equal left right)) fun _ => relation.value _
  · exact relation.bind (relation.primitive (.equal left right)) fun _ => relation.value _
  · exact relation.bind (relation.ofExcept _) fun _ =>
      relation.bind (relation.ofExcept _) fun _ =>
        relation.bind (relation.ofExcept _) fun _ => relation.value _

section

variable {left right : Expr → Run Value} {leftExec rightExec : Block → Run Flow}
  (related : ∀ expr, relation.Rel (left expr) (right expr))
  (execRelated : ∀ block, relation.Rel (leftExec block) (rightExec block))

include related

theorem evalBinary (operator : BinaryOperator) (first second : Expr) :
    relation.Rel (Scriptlet.evalBinary left operator first second)
      (Scriptlet.evalBinary right operator first second) := by
  refine relation.bind (related first) fun value => ?_
  split
  · refine relation.bind (relation.ofExcept _) fun truth => ?_
    cases truth with
    | true => exact related second
    | false => exact relation.value value
  · refine relation.bind (relation.ofExcept _) fun truth => ?_
    cases truth with
    | true => exact relation.value value
    | false => exact related second
  · exact relation.bind (related second) fun _ => relation.applyBinary _ _ _

theorem evalIndex (base offset : Expr) :
    relation.Rel (Scriptlet.evalIndex left base offset)
      (Scriptlet.evalIndex right base offset) :=
  relation.bind (related base) fun _ => relation.bind (relation.ofExcept _) fun _ =>
    relation.bind (related offset) fun _ => relation.bind (relation.ofExcept _) fun _ =>
      relation.primitive (.readSlot _ _)

theorem execStore (base offset value : Expr) :
    relation.Rel (Scriptlet.execStore first left base offset value)
      (Scriptlet.execStore second right base offset value) :=
  relation.bind (related base) fun _ => relation.bind (relation.ofExcept _) fun _ =>
    relation.bind (related value) fun _ => relation.bind (related offset) fun _ =>
      relation.bind (relation.ofExcept _) fun _ => relation.primitive (.writeSlot _ _ _)

theorem loopContinues (condition : Option Expr) :
    relation.Rel (Scriptlet.loopContinues left condition)
      (Scriptlet.loopContinues right condition) := by
  cases condition with
  | none => exact relation.value true
  | some condition => exact relation.bind (related condition) fun _ => relation.ofExcept _

include execRelated in
theorem execChoice (otherwise : Block) (branches : List Branch) :
    relation.Rel (Scriptlet.execChoice left leftExec otherwise branches)
      (Scriptlet.execChoice right rightExec otherwise branches) := by
  induction branches with
  | nil => exact execRelated otherwise
  | cons branch rest inductionHypothesis =>
      obtain ⟨condition, body⟩ := branch
      refine relation.bind (related condition) fun value => ?_
      refine relation.bind (relation.ofExcept _) fun truth => ?_
      cases truth with
      | true => exact execRelated body
      | false => exact inductionHypothesis

end

theorem execList {left right : Statement → Run Flow}
    (related : ∀ statement, relation.Rel (left statement) (right statement)) (block : Block) :
    relation.Rel (Scriptlet.execList left block) (Scriptlet.execList right block) := by
  induction block with
  | nil => exact relation.value Flow.proceed
  | cons statement rest inductionHypothesis =>
      refine relation.bind (related statement) fun flow => ?_
      cases flow with
      | proceed => exact inductionHypothesis
      | returned value => exact relation.value (Flow.returned value)

/-! ## Layers -/

section

variable {relation} {left right : Evaluator} (agree : relation.Agree left right)

include agree

/-- Layers above related evaluators are related on expressions. -/
theorem Agree.exprBody (expr : Expr) :
    relation.Rel (left.exprBody first expr) (right.exprBody second expr) := by
  cases expr with
  | integer value => exact relation.value (Value.integer value)
  | name name => exact relation.primitive (.readName name)
  | array items => exact relation.array agree.expr items
  | unary operator operand =>
      exact relation.bind (agree.expr operand) fun value => relation.applyUnary operator value
  | binary operator leftExpr rightExpr =>
      exact relation.evalBinary agree.expr operator leftExpr rightExpr
  | index base offset => exact relation.evalIndex agree.expr base offset
  | call name arguments => exact relation.call agree.expr agree.block name arguments

/-- Layers above related evaluators are related on statements. -/
theorem Agree.statementBody (statement : Statement) :
    relation.Rel (left.statementBody first statement)
      (right.statementBody second statement) := by
  cases statement with
  | assign name value =>
      exact relation.bind (agree.expr value) fun assigned =>
        relation.bind (relation.primitive (.writeName name assigned)) fun _ => relation.value _
  | store base offset value =>
      exact relation.bind (relation.execStore agree.expr base offset value) fun _ =>
        relation.value _
  | evaluate expr => exact relation.bind (agree.expr expr) fun _ => relation.value _
  | choose branches otherwise =>
      exact relation.execChoice agree.expr agree.block otherwise branches
  | loop initial condition step body =>
      refine relation.bind (agree.statement initial) fun flow => ?_
      cases flow with
      | proceed => exact agree.loop condition step body
      | returned value => exact relation.value (Flow.returned value)
  | declare name parameters body =>
      exact relation.bind (relation.primitive (.writeName _ _)) fun _ => relation.value _
  | giveBack value =>
      exact relation.bind (agree.expr value) fun returned =>
        relation.bind (relation.primitive (.writeName returnName returned)) fun _ =>
          relation.value _
  | skip => exact relation.value Flow.proceed

/-- Layers above related evaluators are related on loops. -/
theorem Agree.loopBody (condition : Option Expr) (step : Statement) (body : Block) :
    relation.Rel (left.loopBody condition step body) (right.loopBody condition step body) := by
  refine relation.bind (relation.loopContinues agree.expr condition) fun goesOn => ?_
  cases goesOn with
  | false => exact relation.value Flow.proceed
  | true =>
      refine relation.bind (agree.block body) fun flow => ?_
      cases flow with
      | returned value => exact relation.value (Flow.returned value)
      | proceed =>
          refine relation.bind (agree.statement step) fun flow => ?_
          cases flow with
          | returned value => exact relation.value (Flow.returned value)
          | proceed => exact agree.loop condition step body

/-- If counting is related, layers above related evaluators are. -/
theorem Agree.next (ticks : relation.Rel (tick first) (tick second)) :
    relation.Agree (left.next first) (right.next second) where
  expr expr := relation.bind ticks fun _ => agree.exprBody expr
  statement statement := relation.bind ticks fun _ => agree.statementBody statement
  loop := agree.loopBody
  block block := relation.bind ticks fun _ => relation.execList agree.statement block

end

/-- If counting and giving up are related, evaluations with the same fuel are. -/
theorem agree_atFuel (ticks : relation.Rel (tick first) (tick second))
    (givesUp : ∀ {α : Type},
      relation.Rel (throw .outOfFuel : Run α) (throw .outOfFuel : Run α))
    (fuel : Nat) :
    relation.Agree (Evaluator.atFuel first fuel) (Evaluator.atFuel second fuel) := by
  induction fuel with
  | zero =>
      rw [Evaluator.atFuel_zero, Evaluator.atFuel_zero]
      exact ⟨fun _ => givesUp, fun _ => givesUp, fun _ _ _ => givesUp, fun _ => givesUp⟩
  | succ fuel inductionHypothesis =>
      rw [Evaluator.atFuel_succ, Evaluator.atFuel_succ]
      exact inductionHypothesis.next ticks

end RunRelation

end Scriptlet
