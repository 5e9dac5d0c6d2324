import Scriptlet.Syntax.Expr

/-!
Contract: statements, blocks and function declarations, and the decision of
their equality.

A parsed chain of conditions has at least one branch, and a part of a loop
header that was left out is the statement that does nothing; other trees can be
built and rendered all the same.
-/

namespace Scriptlet

mutual

/-- A statement. -/
inductive Statement where
  /-- Binds a name. -/
  | assign (name : String) (value : Expr)
  /-- Stores into a slot of an array. -/
  | store (base offset value : Expr)
  /-- Evaluates an expression for its effects. -/
  | evaluate (expr : Expr)
  /-- Runs the body of the first branch whose condition holds, else `otherwise`. -/
  | choose (branches : List Branch) (otherwise : List Statement)
  /-- Runs `initial`, then `body` and `step` for as long as the condition holds. -/
  | loop (initial : Statement) (condition : Option Expr) (step : Statement)
      (body : List Statement)
  /-- Binds a name to a function. -/
  | declare (name : String) (parameters : List String) (body : List Statement)
  /-- Ends the call or the program with a value. -/
  | giveBack (value : Expr)
  /-- Does nothing. -/
  | skip

/-- A condition with the block it guards. -/
inductive Branch where
  | mk (condition : Expr) (body : List Statement)

end

/-- Statements in order. -/
abbrev Block := List Statement

namespace Branch

def condition : Branch → Expr
  | .mk condition _ => condition

def body : Branch → Block
  | .mk _ body => body

end Branch

/-- A declared function. -/
structure FunctionDeclaration where
  name : String
  parameters : List String
  body : Block

/-! ## Equality -/

namespace Statement

mutual

/-- Whether two statements are the same tree. -/
def same : Statement → Statement → Bool
  | .assign leftName left, .assign rightName right => leftName == rightName && left == right
  | .store leftBase leftOffset left, .store rightBase rightOffset right =>
      leftBase == rightBase && leftOffset == rightOffset && left == right
  | .evaluate left, .evaluate right => left == right
  | .choose leftBranches left, .choose rightBranches right =>
      sameBranches leftBranches rightBranches && sameBlock left right
  | .loop leftInitial leftCondition leftStep left,
      .loop rightInitial rightCondition rightStep right =>
      same leftInitial rightInitial && leftCondition == rightCondition &&
        same leftStep rightStep && sameBlock left right
  | .declare leftName leftParameters left, .declare rightName rightParameters right =>
      leftName == rightName && leftParameters == rightParameters && sameBlock left right
  | .giveBack left, .giveBack right => left == right
  | .skip, .skip => true
  | _, _ => false
termination_by structural left => left

/-- Whether two branches are the same tree. -/
def sameBranch : Branch → Branch → Bool
  | .mk leftCondition left, .mk rightCondition right =>
      leftCondition == rightCondition && sameBlock left right

/-- Whether two lists hold the same branches in order. -/
def sameBranches : List Branch → List Branch → Bool
  | [], [] => true
  | left :: leftRest, right :: rightRest =>
      sameBranch left right && sameBranches leftRest rightRest
  | _, _ => false

/-- Whether two blocks hold the same statements in order. -/
def sameBlock : List Statement → List Statement → Bool
  | [], [] => true
  | left :: leftRest, right :: rightRest => same left right && sameBlock leftRest rightRest
  | _, _ => false

end

mutual

theorem same_iff (left right : Statement) : same left right = true ↔ left = right := by
  match left, right with
  | .assign .., right => cases right <;> simp [same]
  | .store .., right => cases right <;> simp [same, and_assoc]
  | .evaluate _, right => cases right <;> simp [same]
  | .choose branches otherwise, right =>
      cases right <;> simp [same, sameBranches_iff branches, sameBlock_iff otherwise]
  | .loop initial _ step body, right =>
      cases right <;>
        simp [same, same_iff initial, same_iff step, sameBlock_iff body, and_assoc]
  | .declare _ _ body, right => cases right <;> simp [same, sameBlock_iff body, and_assoc]
  | .giveBack _, right => cases right <;> simp [same]
  | .skip, right => cases right <;> simp [same]

theorem sameBranch_iff (left right : Branch) : sameBranch left right = true ↔ left = right := by
  match left, right with
  | .mk _ body, .mk _ _ => simp [sameBranch, sameBlock_iff body]

theorem sameBranches_iff (left right : List Branch) :
    sameBranches left right = true ↔ left = right := by
  match left, right with
  | [], right => cases right <;> simp [sameBranches]
  | first :: rest, right =>
      cases right <;> simp [sameBranches, sameBranch_iff first, sameBranches_iff rest]

theorem sameBlock_iff (left right : Block) : sameBlock left right = true ↔ left = right := by
  match left, right with
  | [], right => cases right <;> simp [sameBlock]
  | first :: rest, right =>
      cases right <;> simp [sameBlock, same_iff first, sameBlock_iff rest]

end

instance : DecidableEq Statement := fun left right =>
  decidable_of_iff (same left right = true) (same_iff left right)

end Statement

instance : DecidableEq Branch := fun left right =>
  decidable_of_iff (Statement.sameBranch left right = true)
    (Statement.sameBranch_iff left right)

deriving instance DecidableEq for FunctionDeclaration

end Scriptlet
