import Std.Data.ExtTreeMap

/-!
Contract: the named values exchanged with the host of a program.

A state maps names to integers and nested lists.  It is ordered by name, and two
states with the same entries are equal.
-/

namespace Scriptlet

/-- A value of a state. -/
inductive StateValue where
  | integer (value : Int64)
  | list (items : List StateValue)
deriving Repr

namespace StateValue

/-- The integer of a value that is one. -/
def integer? : StateValue → Option Int64
  | .integer value => some value
  | .list _ => none

/-- The items of a value that is a list. -/
def items? : StateValue → Option (List StateValue)
  | .integer _ => none
  | .list items => some items

/-- Whether a value is the integer zero. -/
def isZero : StateValue → Bool
  | .integer value => value == 0
  | .list _ => false

/-- The integer with a mathematical value, when 64 bits hold it. -/
def ofInt? (value : Int) : Option StateValue :=
  if Int64.minValue.toInt ≤ value ∧ value ≤ Int64.maxValue.toInt then
    some (.integer (Int64.ofInt value))
  else
    none

mutual

/-- Display text of a value. -/
def render : StateValue → String
  | .integer value => value.toInt.repr
  | .list items => "[" ++ ", ".intercalate (renderItems items) ++ "]"

/-- Display texts of some values. -/
def renderItems : List StateValue → List String
  | [] => []
  | item :: rest => item.render :: renderItems rest

end

mutual

/-- Whether two values are the same. -/
def same : StateValue → StateValue → Bool
  | .integer left, .integer right => left == right
  | .list left, .list right => sameItems left right
  | _, _ => false

/-- Whether two lists hold the same values in order. -/
def sameItems : List StateValue → List StateValue → Bool
  | [], [] => true
  | left :: leftRest, right :: rightRest => same left right && sameItems leftRest rightRest
  | _, _ => false

end

mutual

theorem same_iff (left right : StateValue) : same left right = true ↔ left = right := by
  match left, right with
  | .integer _, right => cases right <;> simp [same]
  | .list items, right => cases right <;> simp [same, sameItems_iff items]

theorem sameItems_iff (left right : List StateValue) :
    sameItems left right = true ↔ left = right := by
  match left, right with
  | [], right => cases right <;> simp [sameItems]
  | first :: rest, right => cases right <;> simp [sameItems, same_iff first, sameItems_iff rest]

end

instance : DecidableEq StateValue := fun left right =>
  decidable_of_iff (same left right = true) (same_iff left right)

end StateValue

/-- Values by name. -/
abbrev State := Std.ExtTreeMap String StateValue

namespace State

/-- The entries of `newer` put over those of `state`. -/
def overlay (state newer : State) : State :=
  newer.foldl (fun merged name value => merged.insert name value) state

end State

end Scriptlet
