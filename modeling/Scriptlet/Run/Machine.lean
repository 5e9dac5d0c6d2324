import Scriptlet.Random
import Scriptlet.Run.Arithmetic
import Scriptlet.Run.Scopes

/-!
Contract: the state of a run and its primitive steps.

Owns:
- the limits and settings of a run;
- the machine: scopes, store, counted steps, draws and call events;
- the primitive steps that evaluation is made of.

A failing step keeps the machine it failed in, so the steps counted and the
calls logged before a failure are known.
-/

namespace Scriptlet

/-- Limits of a run. -/
structure Limits where
  /-- Most node evaluations; without a bound if none is given.  A host that holds
  budgets in 64 bits gives those below `2 ^ 64`. -/
  maxSteps : Option Nat
  maxCallDepth : Nat
  /-- Largest index that an array write may use.  Reads are not bounded. -/
  maxArrayIndex : Nat
deriving DecidableEq, Repr

namespace Limits

/-- Limits with a step budget; a budget that is not positive is no bound. -/
def withBudget (budget : Int64) : Limits where
  maxSteps := if budget > 0 then some budget.toInt.toNat else none
  maxCallDepth := 1000
  maxArrayIndex := 1048576

/-- Limits without a step budget. -/
def default : Limits := withBudget 0

end Limits

/-- What a run is made under. -/
structure Settings where
  limits : Limits
  /-- The draws of the variable `rand`, when it exists. -/
  random : Option RandomSource

/-- The start or end of a call.  `depth` counts the active calls: with the new
one at the start, without the ended one at the end. -/
inductive CallEvent where
  | entering (function : String) (depth : Nat)
  | leaving (function : String) (depth : Nat)
deriving DecidableEq, Repr

/-- The state of a run. -/
structure Machine where
  scopes : Scopes
  store : Store
  /-- Node evaluations counted so far.  A counter of 64 bits holds the same number
  in every run of fewer than `2 ^ 64` evaluations. -/
  steps : Nat
  /-- Draws of `rand` made so far. -/
  draws : Nat
  /-- Call events so far, oldest first. -/
  calls : Array CallEvent

/-- Why evaluation stops short. -/
inductive Halt where
  | failed (error : RunError)
  /-- The evaluation is nested deeper than the fuel it was given. -/
  | outOfFuel
deriving DecidableEq, Repr

/-- A step of a run, with its result. -/
abbrev Run := EStateM Halt Machine

/-- Whether running goes on after a statement, or it returned a value. -/
inductive Flow where
  | proceed
  | returned (value : Value)
deriving DecidableEq

namespace Flow

/-- Whether a value was returned. -/
def isReturned : Flow → Bool
  | .proceed => false
  | .returned _ => true

end Flow

/-- The name that yields a draw at each read. -/
def randomName : String := "rand"

/-- The name under which a returned value is stored. -/
def returnName : String := "return"

namespace Run

/-- Ends the run with a failure. -/
def fail {α : Type} (error : RunError) : Run α :=
  throw (.failed error)

/-- A result that may be a failure. -/
def ofExcept {α : Type} : Except RunError α → Run α
  | .ok value => pure value
  | .error error => fail error

/-- Counts a node evaluation. -/
def tick (settings : Settings) : Run Unit := do
  modify fun machine => { machine with steps := machine.steps + 1 }
  match settings.limits.maxSteps with
  | some budget =>
      if budget < (← get).steps then fail (.budgetExceeded budget)
  | none => pure ()

/-- Draws the next integer of a source. -/
def draw (source : RandomSource) : Run Value :=
  modifyGet fun machine =>
    (.integer (source machine.draws), { machine with draws := machine.draws + 1 })

/-- What a name stands for where a value is needed: unbound names are zero, and
functions are not values. -/
def readBinding (name : String) : Run Value := do
  match (← get).scopes.read name with
  | some (.function _) => fail (.functionNotAValue name)
  | some value => pure value
  | none => pure (.integer 0)

/-- Reads a name where a value is needed. -/
def readName (settings : Settings) (name : String) : Run Value :=
  match settings.random with
  | some source => if name = randomName then draw source else readBinding name
  | none => readBinding name

/-- Binds a name. -/
def writeName (name : String) (value : Value) : Run Unit :=
  modify fun machine => { machine with scopes := machine.scopes.write name value }

/-- The function a call names, with the number of arguments it takes checked. -/
def callee (name : String) (arguments : Nat) : Run FunctionDeclaration := do
  match (← get).scopes.read name with
  | some (.function declaration) =>
      if declaration.parameters.length = arguments then pure declaration
      else fail (.arityMismatch name declaration.parameters.length arguments)
  | _ => fail (.undefinedFunction name)

/-- Enters a call: opens its frame and binds the parameters.  Gives the number of
calls that were active before. -/
def enterCall (settings : Settings) (name : String) (declaration : FunctionDeclaration)
    (values : List Value) : Run Nat := do
  let depth := (← get).scopes.depth
  if settings.limits.maxCallDepth ≤ depth then
    fail (.callDepthExceeded settings.limits.maxCallDepth)
  else
    modify fun machine => { machine with
      scopes := machine.scopes.push.writeAll (declaration.parameters.zip values)
      calls := machine.calls.push (.entering name (depth + 1)) }
    return depth

/-- Leaves a call that was entered with `depth` calls active: reads the value it
returned, zero if none, and closes its frame. -/
def leaveCall (name : String) (depth : Nat) : Run Value := do
  let machine ← get
  let result := (machine.scopes.read returnName).getD (.integer 0)
  match machine.scopes.pop? with
  | none => fail (.internal (.missingFrame name))
  | some scopes =>
      set { machine with
        scopes := scopes
        calls := machine.calls.push (.leaving name depth) }
      return result

/-- Copies a value for a slot at a level. -/
def copyAt (level : Nat) (value : Value) : Run Value :=
  fun ⟨scopes, store, steps, draws, calls⟩ =>
    match Store.copyAt level value store with
    | .ok copy store => .ok copy ⟨scopes, store, steps, draws, calls⟩
    | .error error store => .error (.failed error) ⟨scopes, store, steps, draws, calls⟩

/-- A new array that stands in no other one. -/
def newArray (slots : Slots) : Run Value :=
  modifyGet fun machine =>
    let (value, store) := machine.store.allocate ⟨1, slots⟩
    (value, { machine with store := store })

/-- What a slot holds. -/
def readSlot (location : Nat) (index : Int64) : Run Value := do
  return (← get).store.read location index.toInt.toNat

/-- Stores a copy of a value in a slot. -/
def writeSlot (settings : Settings) (location : Nat) (index : Int64) (value : Value) :
    Run Unit := do
  let slot := index.toInt.toNat
  if settings.limits.maxArrayIndex < slot then
    fail (.indexOutOfRange index settings.limits.maxArrayIndex)
  else
    let level := (← get).store.slotLevel location
    let copy ← copyAt level value
    modify fun machine => { machine with store := machine.store.write location slot copy }

/-- Whether two values are equal. -/
def equal (left right : Value) : Run Bool := do
  return (← get).store.equal left right

end Run

end Scriptlet
