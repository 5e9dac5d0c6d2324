import Scriptlet.Run.Error
import Scriptlet.State
import Scriptlet.Syntax.Statement

/-!
Contract: values of a run and the store of its arrays.

Owns:
- values: integers, references to arrays, and functions;
- sparse arrays, whose unset slots read as zero, labelled with the level they
  stand at;
- copying values into slots, loading state values, and reading values back as
  state values.

A value is copied deeply before it goes into a slot.  So no array is reachable
from its own slots, and the arrays of a store form a forest.  An array read
back as a list ends at its last slot that does not hold the integer zero.
-/

namespace Scriptlet

/-- A value of a run. -/
inductive Value where
  | integer (value : Int64)
  /-- A reference to the array at a location of the store. -/
  | array (location : Nat)
  | function (declaration : FunctionDeclaration)
deriving DecidableEq

namespace Value

/-- The integer of a truth value. -/
def ofBool (value : Bool) : Value :=
  .integer (if value then 1 else 0)

def type : Value → ValueType
  | .integer _ => .integer
  | .array _ => .array
  | .function _ => .function

/-- The integer that an operation needs. -/
def asInteger (operation : String) : Value → Except RunError Int64
  | .integer value => .ok value
  | value => .error (.expectedInteger operation value.type)

/-- Whether a value counts as true for an operation: only integers do or do not,
and zero does not. -/
def asTruth (operation : String) (value : Value) : Except RunError Bool :=
  (value.asInteger operation).map (· != 0)

/-- The location of the array that an access needs. -/
def asArray : Value → Except RunError Nat
  | .array location => .ok location
  | value => .error (.expectedArray value.type)

/-- The slot that an access needs. -/
def asIndex (value : Value) : Except RunError Int64 := do
  let index ← value.asInteger "index"
  if index < 0 then .error (.negativeIndex index) else .ok index

end Value

/-- The slots of an array that were set. -/
abbrev Slots := Std.ExtTreeMap Nat Value

/-- An array: the level it stands at, and its slots. -/
structure Cell where
  level : Nat
  slots : Slots

/-- The arrays of a run, by location. -/
structure Store where
  cells : Array Cell

namespace Store

def empty : Store := ⟨#[]⟩

/-- The slots of the array at a location. -/
def slots (store : Store) (location : Nat) : Slots :=
  match store.cells[location]? with
  | some cell => cell.slots
  | none => ∅

/-- The level of what stands in the slots of the array at a location. -/
def slotLevel (store : Store) (location : Nat) : Nat :=
  match store.cells[location]? with
  | some cell => cell.level + 1
  | none => 1

/-- What a slot holds; zero if it was not set. -/
def read (store : Store) (location index : Nat) : Value :=
  (store.slots location).getD index (.integer 0)

/-- Sets a slot. -/
def write (store : Store) (location index : Nat) (value : Value) : Store :=
  ⟨store.cells.modify location fun cell =>
    { cell with slots := cell.slots.insert index value }⟩

/-- A new array, at the first free location. -/
def allocate (store : Store) (cell : Cell) : Value × Store :=
  (.array store.cells.size, ⟨store.cells.push cell⟩)

/-! ## Copying into slots -/

/-- A step that extends the store.  A failing one keeps what it has added, which
nothing refers to. -/
abbrev Copying := EStateM RunError Store

/-- Copies entries one by one into `copied`. -/
def copyEntries (copy : Value → Copying Value) :
    Slots → List (Nat × Value) → Copying Slots
  | copied, [] => return copied
  | copied, (index, value) :: rest => do
      let stored ← copy value
      copyEntries copy (copied.insert index stored) rest

/-- Copies a value to where arrays may be nested `room` levels deep. -/
def copyInRoom : (room : Nat) → Value → Copying Value
  | 0, .array _ => throw .arrayNestingExceeded
  | room + 1, .array location => do
      let entries := ((← get).slots location).toList
      let slots ← copyEntries (copyInRoom room) ∅ entries
      modifyGet fun store => store.allocate ⟨maxArrayNesting - room, slots⟩
  | _, value => return value

/-- Copies a value for a slot at a level.  Arrays are copied with everything in
them, and must not come to stand too deep. -/
def copyAt (level : Nat) (value : Value) : Copying Value :=
  copyInRoom (maxArrayNesting + 1 - level) value

/-! ## State values -/

mutual

/-- Loads a state value at a level. -/
def load (store : Store) (level : Nat) : StateValue → Value × Store
  | .integer value => (.integer value, store)
  | .list items =>
      let (slots, store) := loadItems store (level + 1) 0 ∅ items
      store.allocate ⟨level, slots⟩

/-- Loads items into slots from `index` on. -/
def loadItems (store : Store) (level index : Nat) (slots : Slots) :
    List StateValue → Slots × Store
  | [] => (slots, store)
  | item :: rest =>
      let (value, store) := load store level item
      loadItems store level (index + 1) (slots.insert index value) rest

end

/-- One more than the last index of an item that is not the integer zero. -/
def extent (items : Std.ExtTreeMap Nat StateValue) : Nat :=
  items.foldl (fun found index item => if item.isZero then found else index + 1) 0

/-- The items as a list up to their extent, with zeros between them. -/
def denseList (items : Std.ExtTreeMap Nat StateValue) : List StateValue :=
  (List.range (extent items)).map fun index => items.getD index (.integer 0)

/-- A value as a state value, for arrays nested at most `height` levels; a
function has none. -/
def stateValueUpTo (store : Store) : (height : Nat) → Value → Option StateValue
  | _, .integer value => some (.integer value)
  | _, .function _ => none
  | 0, .array _ => some (.list [])
  | height + 1, .array location =>
      some (.list (denseList ((store.slots location).map fun _ value =>
        (stateValueUpTo store height value).getD (.integer 0))))

/-- A value as a state value.  No chain of nested arrays is longer than the
store. -/
def stateValue (store : Store) (value : Value) : Option StateValue :=
  store.stateValueUpTo store.cells.size value

/-! ## Equality -/

/-- Whether two values are equal: arrays are when they read back as the same
list. -/
def equal (store : Store) : Value → Value → Bool
  | .integer left, .integer right => left == right
  | .array left, .array right =>
      left == right || store.stateValue (.array left) == store.stateValue (.array right)
  | .function left, .function right => left == right
  | _, _ => false

end Store

end Scriptlet
