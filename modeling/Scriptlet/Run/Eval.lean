import Scriptlet.Run.Machine

/-!
Contract: evaluating expressions and executing statements.

Every block, statement and expression counts one step before anything else.
Evaluation is given fuel, which bounds how deeply evaluations nest, with each
turn of a loop nested in the turn before; all parts of a node are evaluated with
the same fuel.  With more fuel, a finished evaluation stays what it is.
-/

namespace Scriptlet

open Run

/-! ## Parts that take the evaluation of smaller nodes as an argument -/

/-- Evaluates expressions in order. -/
def evalList (eval : Expr → Run Value) : List Expr → Run (List Value)
  | [] => return []
  | expr :: rest => do
      let value ← eval expr
      let values ← evalList eval rest
      return value :: values

/-- Evaluates the items of an array literal into slots from `index` on. -/
def evalItems (eval : Expr → Run Value) : Nat → Slots → List Expr → Run Slots
  | _, slots, [] => return slots
  | index, slots, expr :: rest => do
      let value ← eval expr
      let copy ← copyAt 2 value
      evalItems eval (index + 1) (slots.insert index copy) rest

/-- What an operator gives on a value. -/
def applyUnary (operator : UnaryOperator) (value : Value) : Run Value :=
  match operator with
  | .not => do
      let truth ← ofExcept (value.asTruth "not")
      return .ofBool (!truth)
  | .negate => do
      let number ← ofExcept (value.asInteger "-")
      return .integer (-number)
  | .plus => do
      let number ← ofExcept (value.asInteger "+")
      return .integer number

/-- What an operator that evaluates both operands gives on their values. -/
def applyBinary (operator : BinaryOperator) (left right : Value) : Run Value :=
  match operator with
  | .is => do
      let same ← equal left right
      return .ofBool same
  | .isNot => do
      let same ← equal left right
      return .ofBool (!same)
  | _ => do
      let leftNumber ← ofExcept (left.asInteger operator.symbol)
      let rightNumber ← ofExcept (right.asInteger operator.symbol)
      let number ← ofExcept (operator.onIntegers leftNumber rightNumber)
      return .integer number

/-- Evaluates a binary operator.  `and` and `or` give the operand that decides
them, and evaluate the right one only if the left one does not. -/
def evalBinary (eval : Expr → Run Value) (operator : BinaryOperator) (left right : Expr) :
    Run Value := do
  let leftValue ← eval left
  match operator with
  | .and => do
      let truth ← ofExcept (leftValue.asTruth "and")
      if truth then eval right else return leftValue
  | .or => do
      let truth ← ofExcept (leftValue.asTruth "or")
      if truth then return leftValue else eval right
  | _ => do
      let rightValue ← eval right
      applyBinary operator leftValue rightValue

/-- Evaluates an index. -/
def evalIndex (eval : Expr → Run Value) (base offset : Expr) : Run Value := do
  let location ← ofExcept (← eval base).asArray
  let index ← ofExcept (← eval offset).asIndex
  readSlot location index

/-- Calls a function: evaluates the arguments where the call stands, then
executes the body in a frame of its own.  What the body returned is read from
the binding that returning leaves. -/
def evalCall (settings : Settings) (eval : Expr → Run Value) (exec : Block → Run Flow)
    (name : String) (arguments : List Expr) : Run Value := do
  let declaration ← callee name arguments.length
  let values ← evalList eval arguments
  let depth ← enterCall settings name declaration values
  let _ ← exec declaration.body
  leaveCall name depth

/-- Executes statements in order until one returns. -/
def execList (exec : Statement → Run Flow) : Block → Run Flow
  | [] => return .proceed
  | statement :: rest => do
      match ← exec statement with
      | .returned value => return .returned value
      | .proceed => execList exec rest

/-- Executes the body of the first branch whose condition holds. -/
def execChoice (eval : Expr → Run Value) (exec : Block → Run Flow) (otherwise : Block) :
    List Branch → Run Flow
  | [] => exec otherwise
  | .mk condition body :: rest => do
      let truth ← ofExcept ((← eval condition).asTruth "if")
      if truth then exec body else execChoice eval exec otherwise rest

/-- Stores into a slot.  The array comes first, then the value, then the index. -/
def execStore (settings : Settings) (eval : Expr → Run Value) (base offset value : Expr) :
    Run Unit := do
  let location ← ofExcept (← eval base).asArray
  let stored ← eval value
  let index ← ofExcept (← eval offset).asIndex
  writeSlot settings location index stored

/-- Whether a loop makes another turn. -/
def loopContinues (eval : Expr → Run Value) : Option Expr → Run Bool
  | none => return true
  | some condition => do
      let value ← eval condition
      ofExcept (value.asTruth "for")

/-! ## Evaluation -/

mutual

/-- Evaluates an expression. -/
def evalExpr (settings : Settings) : (fuel : Nat) → Expr → Run Value
  | 0, _ => throw .outOfFuel
  | fuel + 1, expr => do
      tick settings
      match expr with
      | .integer value => return .integer value
      | .name name => readName settings name
      | .array items => do
          let slots ← evalItems (evalExpr settings fuel) 0 ∅ items
          newArray slots
      | .unary operator operand => do
          let value ← evalExpr settings fuel operand
          applyUnary operator value
      | .binary operator left right => evalBinary (evalExpr settings fuel) operator left right
      | .index base offset => evalIndex (evalExpr settings fuel) base offset
      | .call name arguments =>
          evalCall settings (evalExpr settings fuel) (execBlock settings fuel) name arguments

/-- Executes a statement. -/
def execStatement (settings : Settings) : (fuel : Nat) → Statement → Run Flow
  | 0, _ => throw .outOfFuel
  | fuel + 1, statement => do
      tick settings
      match statement with
      | .assign name value => do
          let assigned ← evalExpr settings fuel value
          writeName name assigned
          return .proceed
      | .store base offset value => do
          execStore settings (evalExpr settings fuel) base offset value
          return .proceed
      | .evaluate expr => do
          let _ ← evalExpr settings fuel expr
          return .proceed
      | .choose branches otherwise =>
          execChoice (evalExpr settings fuel) (execBlock settings fuel) otherwise branches
      | .loop initial condition step body => do
          match ← execStatement settings fuel initial with
          | .returned value => return .returned value
          | .proceed => execLoop settings fuel condition step body
      | .declare name parameters body => do
          writeName name (.function ⟨name, parameters, body⟩)
          return .proceed
      | .giveBack value => do
          let returned ← evalExpr settings fuel value
          writeName returnName returned
          return .returned returned
      | .skip => return .proceed

/-- Executes the turns of a loop. -/
def execLoop (settings : Settings) :
    (fuel : Nat) → Option Expr → Statement → Block → Run Flow
  | 0, _, _, _ => throw .outOfFuel
  | fuel + 1, condition, step, body => do
      if ← loopContinues (evalExpr settings fuel) condition then
        match ← execBlock settings fuel body with
        | .returned value => return .returned value
        | .proceed =>
            match ← execStatement settings fuel step with
            | .returned value => return .returned value
            | .proceed => execLoop settings fuel condition step body
      else
        return .proceed

/-- Executes a block. -/
def execBlock (settings : Settings) : (fuel : Nat) → Block → Run Flow
  | 0, _ => throw .outOfFuel
  | fuel + 1, block => do
      tick settings
      execList (execStatement settings fuel) block

end

end Scriptlet
