import Scriptlet.Proofs.Run.Visits
import Scriptlet.Proofs.Store.Slots

/-!
Contract: steps that do as they are told, and what evaluation may do to machines.

Owns:
- how a step ends, when it succeeds and when it halts, and sequencing in these
  terms;
- failures that a program can have, in contrast to that of a call without a
  frame;
- the machines that binding a name, making an array and entering a call make;
- conducts: what an expression and what a statement may change, what is known of
  values, and how an evaluation may halt.

A statement may do more than an expression.  What holds of a machine wherever
evaluation goes on is not claimed where a statement has returned, nor where an
evaluation has halted.
-/

namespace Scriptlet

open Run

/-! ## How a step ends -/

namespace Run

variable {α β : Type} {before after : Machine}

/-- Whether a step made in a machine succeeds as `post` tells or halts as `halts`
tells. -/
def Ensures (action : Run α) (before : Machine) (post : α → Machine → Prop)
    (halts : Halt → Machine → Prop) : Prop :=
  match action before with
  | .ok result after => post result after
  | .error halt after => halts halt after

theorem Ensures.of_ok {action : Run α} {post : α → Machine → Prop}
    {halts : Halt → Machine → Prop} {result : α}
    (ensures : Ensures action before post halts) (success : action before = .ok result after) :
    post result after := by
  rw [Ensures, success] at ensures
  exact ensures

theorem Ensures.of_error {action : Run α} {post : α → Machine → Prop}
    {halts : Halt → Machine → Prop} {halt : Halt}
    (ensures : Ensures action before post halts) (failure : action before = .error halt after) :
    halts halt after := by
  rw [Ensures, failure] at ensures
  exact ensures

theorem Ensures.weaken {action : Run α} {post weaker : α → Machine → Prop}
    {halts weakerHalts : Halt → Machine → Prop} (ensures : Ensures action before post halts)
    (implies : ∀ {result after}, post result after → weaker result after)
    (impliesHalts : ∀ {halt after}, halts halt after → weakerHalts halt after) :
    Ensures action before weaker weakerHalts := by
  unfold Ensures
  cases outcome : action before with
  | ok result after => exact implies (ensures.of_ok outcome)
  | error halt after => exact impliesHalts (ensures.of_error outcome)

theorem Ensures.bind {action : Run α} {next : α → Run β} {post : α → Machine → Prop}
    {nextPost : β → Machine → Prop} {halts : Halt → Machine → Prop}
    (ensures : Ensures action before post halts)
    (rest : ∀ {result after}, post result after → Ensures (next result) after nextPost halts) :
    Ensures (action >>= next) before nextPost halts := by
  unfold Ensures
  cases outcome : action before with
  | ok result after =>
      rw [bind_of_ok outcome]
      exact rest (ensures.of_ok outcome)
  | error halt after =>
      rw [bind_of_error outcome]
      exact ensures.of_error outcome

/-- A step that reads the machine first ends as the rest does. -/
theorem ensures_get {next : Machine → Run α} {post : α → Machine → Prop}
    {halts : Halt → Machine → Prop} (ensures : Ensures (next before) before post halts) :
    Ensures (get >>= next) before post halts :=
  ensures

theorem get_bind_apply (next : Machine → Run α) (machine : Machine) :
    (get >>= next) machine = next machine machine :=
  rfl

end Run

/-! ## Failures that a program can have -/

/-- Whether a failure is one of the program, and not of its evaluation. -/
def RunError.Ordinary (error : RunError) : Prop :=
  ∀ fault, error ≠ .internal fault

namespace Value

variable {value : Value} {operation : String} {error : RunError}

theorem ordinary_of_asInteger (failed : value.asInteger operation = .error error) :
    error.Ordinary := by
  cases value with
  | integer => cases failed
  | array | function =>
      cases failed
      exact nofun

theorem ordinary_of_asTruth (failed : value.asTruth operation = .error error) :
    error.Ordinary := by
  unfold asTruth at failed
  cases found : value.asInteger operation with
  | ok number => simp [found, Except.map] at failed
  | error other =>
      rw [found] at failed
      cases failed
      exact ordinary_of_asInteger found

theorem ordinary_of_asArray (failed : value.asArray = .error error) : error.Ordinary := by
  cases value with
  | array => cases failed
  | integer | function =>
      cases failed
      exact nofun

theorem ordinary_of_asIndex (failed : value.asIndex = .error error) : error.Ordinary := by
  cases value with
  | integer index =>
      simp only [asIndex, asInteger, bind, Except.bind] at failed
      split at failed
      · cases failed
        exact nofun
      · cases failed
  | array | function =>
      cases failed
      exact nofun

end Value

/-- Whether an operator is applied to the integers that its operands are. -/
def BinaryOperator.IsArithmetic : BinaryOperator → Prop
  | .or | .and | .is | .isNot => False
  | _ => True

theorem BinaryOperator.ordinary_of_onIntegers {operator : BinaryOperator} {left right : Int64}
    {error : RunError} (arithmetic : operator.IsArithmetic)
    (failed : operator.onIntegers left right = .error error) : error.Ordinary := by
  cases operator with
  | or | and | is | isNot => exact arithmetic.elim
  | divide =>
      simp only [onIntegers, Arithmetic.floorDivide] at failed
      split at failed
      · cases failed
        exact nofun
      · split at failed <;> cases failed
  | modulo =>
      simp only [onIntegers, Arithmetic.floorModulo] at failed
      split at failed
      · cases failed
        exact nofun
      · split at failed <;> cases failed
  | _ => cases failed

/-- Whether an evaluation halted by a failure of the program or for lack of
fuel. -/
def Halt.Ordinary : Halt → Prop
  | .failed error => error.Ordinary
  | .outOfFuel => True

namespace Store

theorem eq_of_copyEntries_error {copy : Value → Copying Value}
    (copies : ∀ {value store error newer}, copy value store = .error error newer →
      error = .arrayNestingExceeded)
    {entries : List (Nat × Value)} {slots : Slots} {store newer : Store} {error : RunError}
    (failed : copyEntries copy slots entries store = .error error newer) :
    error = .arrayNestingExceeded := by
  induction entries generalizing slots store with
  | nil => cases failed
  | cons entry rest inductionHypothesis =>
      rcases bind_eq_error_iff.mp failed with failed | ⟨_, _, _, failed⟩
      · exact copies failed
      · exact inductionHypothesis failed

/-- Copying fails for one reason only. -/
theorem eq_of_copyInRoom_error {room : Nat} {value : Value} {store newer : Store}
    {error : RunError} (failed : copyInRoom room value store = .error error newer) :
    error = .arrayNestingExceeded := by
  induction room generalizing value store error newer with
  | zero =>
      cases value with
      | array location =>
          cases failed
          rfl
      | integer | function => cases failed
  | succ room inductionHypothesis =>
      cases value with
      | integer | function => cases failed
      | array location =>
          rcases bind_eq_error_iff.mp failed with failed | ⟨_, _, found, failed⟩
          · cases failed
          · cases found
            rcases bind_eq_error_iff.mp failed with failed | ⟨_, _, _, made⟩
            · exact eq_of_copyEntries_error inductionHypothesis failed
            · cases made

end Store

namespace Run

variable {α β : Type}

/-- Whether a step halts by failures of the program only. -/
def HaltsOrdinarily (action : Run α) : Prop :=
  ∀ ⦃before : Machine⦄ ⦃halt : Halt⦄ ⦃after : Machine⦄, action before = .error halt after →
    halt.Ordinary

/-- What a primitive step changes, with the way it ends. -/
theorem ensures_of_changes {action : Run α} {change : Machine → Machine → Prop}
    (changes : Changes change action) (ordinary : HaltsOrdinarily action) (before : Machine) :
    Ensures action before
      (fun result after => action before = .ok result after ∧ change before after)
      (fun halt after => halt.Ordinary ∧ change before after) := by
  have changed := (changes before).1
  unfold Ensures
  cases outcome : action before with
  | ok result after =>
      rw [final_of_ok outcome] at changed
      exact ⟨rfl, changed⟩
  | error halt after =>
      rw [final_of_error outcome] at changed
      exact ⟨ordinary outcome, changed⟩

theorem haltsOrdinarily_tick (settings : Settings) : HaltsOrdinarily (tick settings) := by
  intro before halt after failed
  cases limit : settings.limits.maxSteps with
  | none =>
      rw [tick_of_unbounded limit] at failed
      cases failed
  | some budget =>
      rw [tick_of_bounded limit] at failed
      split at failed
      · cases failed
        exact nofun
      · cases failed

theorem haltsOrdinarily_readName (settings : Settings) (name : String) :
    HaltsOrdinarily (readName settings name) := by
  have binding : HaltsOrdinarily (readBinding name) := by
    intro before halt after failed
    have ends : Ensures (readBinding name) before (fun _ _ => True)
        (fun halt _ => halt.Ordinary) := by
      apply ensures_get
      split
      · exact nofun
      · trivial
      · trivial
    exact ends.of_error failed
  unfold readName
  split
  · split
    · intro before halt after failed
      cases failed
    · exact binding
  · exact binding

theorem haltsOrdinarily_copyAt (level : Nat) (value : Value) :
    HaltsOrdinarily (copyAt level value) := by
  intro before halt after failed
  cases outcome : Store.copyAt level value before.store with
  | ok copy store =>
      rw [copyAt_of_ok outcome] at failed
      cases failed
  | error error store =>
      rw [copyAt_of_error outcome] at failed
      cases failed
      rw [Store.eq_of_copyInRoom_error outcome]
      exact nofun

theorem haltsOrdinarily_writeSlot (settings : Settings) (location : Nat) (index : Int64)
    (value : Value) : HaltsOrdinarily (writeSlot settings location index value) := by
  intro before halt after failed
  unfold writeSlot at failed
  simp only at failed
  split at failed
  · cases failed
    exact nofun
  · have failed : (copyAt (before.store.slotLevel location) value >>= fun copy =>
        modify fun machine => { machine with
          store := machine.store.write location index.toInt.toNat copy } : Run Unit) before =
        .error halt after := failed
    cases outcome : copyAt (before.store.slotLevel location) value before with
    | ok copy middle =>
        rw [bind_of_ok outcome] at failed
        cases failed
    | error other middle =>
        rw [bind_of_error outcome] at failed
        cases failed
        exact haltsOrdinarily_copyAt _ _ outcome

end Run

/-! ## Machines that primitive steps make -/

namespace Run

variable {before after : Machine}

/-- Copying for a slot copies in the store. -/
theorem exists_store_of_copyAt {level : Nat} {value copy : Value}
    (copied : copyAt level value before = .ok copy after) :
    ∃ store, Store.copyAt level value before.store = .ok copy store ∧
      after = { before with store := store } := by
  cases outcome : Store.copyAt level value before.store with
  | error error store =>
      rw [copyAt_of_error outcome] at copied
      cases copied
  | ok found store =>
      rw [copyAt_of_ok outcome] at copied
      cases copied
      exact ⟨store, rfl, rfl⟩

/-- Storing in a slot copies the value for it, and writes the copy. -/
theorem exists_copy_of_writeSlot {settings : Settings} {location : Nat} {index : Int64}
    {value : Value} (written : writeSlot settings location index value before = .ok () after) :
    ∃ copy store, Store.copyAt (before.store.slotLevel location) value before.store =
        .ok copy store ∧
      after = { before with store := store.write location index.toInt.toNat copy } := by
  unfold writeSlot at written
  simp only at written
  split at written
  · cases written
  · obtain ⟨_, _, found, written⟩ := bind_eq_ok_iff.mp written
    cases found
    obtain ⟨copy, middle, copied, written⟩ := bind_eq_ok_iff.mp written
    obtain ⟨store, copies, rfl⟩ := exists_store_of_copyAt copied
    cases written
    exact ⟨copy, store, copies, rfl⟩

end Run

namespace Machine

/-- The machine after a name is bound. -/
def write (machine : Machine) (name : String) (value : Value) : Machine :=
  { machine with scopes := machine.scopes.write name value }

/-- The machine after an array is made. -/
def makeArray (machine : Machine) (slots : Slots) : Machine :=
  { machine with store := (machine.store.allocate ⟨1, slots⟩).2 }

/-- The machine after a call is entered. -/
def enter (machine : Machine) (name : String) (declaration : FunctionDeclaration)
    (values : List Value) : Machine :=
  { machine with
    scopes := machine.scopes.push.writeAll (declaration.parameters.zip values)
    calls := machine.calls.push (.entering name (machine.scopes.depth + 1)) }

end Machine

/-! ## Conducts -/

/-- What evaluation does to machines, as far as a discipline tells. -/
structure Conduct where
  /-- The nodes that are evaluated. -/
  Admits : Node → Prop
  /-- What holds of the machines that nodes are taken up in. -/
  Inv : Machine → Prop
  /-- What is known of the value of an expression. -/
  Good : Machine → Value → Prop
  /-- What evaluating an expression may change. -/
  ExprStep : Machine → Machine → Prop
  /-- What executing a statement, with the flow it ends in, may change. -/
  ExecStep : Machine → Flow → Machine → Prop
  /-- How an evaluation may halt. -/
  Halts : Machine → Halt → Machine → Prop
  admits_part : ∀ {part node : Node}, part.Part node → Admits node → Admits part
  integer : ∀ machine number, Good machine (.integer number)
  stable : ∀ {before after : Machine} {value : Value}, ExprStep before after →
    Good before value → Good after value
  refl : ∀ machine, ExprStep machine machine
  trans : ∀ {first second third : Machine}, ExprStep first second → ExprStep second third →
    ExprStep first third
  proceed : ∀ machine, ExecStep machine .proceed machine
  exprThen : ∀ {first second third : Machine} {flow : Flow}, ExprStep first second →
    ExecStep second flow third → ExecStep first flow third
  execThen : ∀ {first second third : Machine} {flow : Flow}, ExecStep first .proceed second →
    ExecStep second flow third → ExecStep first flow third
  exprHalts : ∀ {first second third : Machine} {halt : Halt}, ExprStep first second →
    Halts second halt third → Halts first halt third
  execHalts : ∀ {first second third : Machine} {halt : Halt}, ExecStep first .proceed second →
    Halts second halt third → Halts first halt third
  fail : ∀ {machine : Machine} {error : RunError}, Inv machine → error.Ordinary →
    Halts machine (.failed error) machine
  outOfFuel : ∀ {machine : Machine}, Inv machine → Halts machine .outOfFuel machine

namespace Conduct

variable (conduct : Conduct) {α β : Type}

/-- Whether a step made in a machine keeps to what expressions may do, with a
result that `post` holds of. -/
def Ends (before : Machine) (action : Run α) (post : α → Machine → Prop) : Prop :=
  Ensures action before
    (fun result after => conduct.Inv after ∧ conduct.ExprStep before after ∧ post result after)
    (conduct.Halts before)

/-- Whether evaluating an expression in a machine keeps to the conduct. -/
def Gives (before : Machine) (action : Run Value) : Prop :=
  conduct.Ends before action fun value after => conduct.Good after value

/-- Whether executing in a machine keeps to the conduct.  The invariant holds
again unless a value was returned. -/
def Executes (before : Machine) (action : Run Flow) : Prop :=
  Ensures action before
    (fun flow after => conduct.ExecStep before flow after ∧ (flow = .proceed → conduct.Inv after))
    (conduct.Halts before)

variable {conduct} {before : Machine}

theorem ends_pure {post : α → Machine → Prop} {result : α} (inv : conduct.Inv before)
    (holds : post result before) : conduct.Ends before (pure result) post :=
  ⟨inv, conduct.refl before, holds⟩

theorem ends_fail {post : α → Machine → Prop} {error : RunError} (inv : conduct.Inv before)
    (ordinary : error.Ordinary) : conduct.Ends before (Run.fail error : Run α) post :=
  conduct.fail inv ordinary

theorem ends_ofExcept {outcome : Except RunError α} (inv : conduct.Inv before)
    (ordinary : ∀ {error}, outcome = .error error → error.Ordinary) :
    conduct.Ends before (ofExcept outcome)
      fun result after => after = before ∧ outcome = .ok result := by
  cases outcome with
  | ok result => exact ends_pure inv ⟨rfl, rfl⟩
  | error error => exact ends_fail inv (ordinary rfl)

/-- A step that reads the machine first ends as the rest does. -/
theorem ends_get {next : Machine → Run α} {post : α → Machine → Prop}
    (ends : conduct.Ends before (next before) post) : conduct.Ends before (get >>= next) post :=
  ensures_get ends

/-- A primitive step ends as what it changes tells. -/
theorem ends_of_changes {action : Run α} {change : Machine → Machine → Prop}
    {post : α → Machine → Prop} (changes : Changes change action)
    (ordinary : HaltsOrdinarily action)
    (succeeds : ∀ {result after}, action before = .ok result after → change before after →
      conduct.Inv after ∧ conduct.ExprStep before after ∧ post result after)
    (halts : ∀ {halt after}, halt.Ordinary → change before after →
      conduct.Halts before halt after) :
    conduct.Ends before action post :=
  (ensures_of_changes changes ordinary before).weaken
    (fun ends => succeeds ends.1 ends.2) (fun ends => halts ends.1 ends.2)

theorem Ends.weaken {action : Run α} {post weaker : α → Machine → Prop}
    (ends : conduct.Ends before action post)
    (implies : ∀ {result after}, post result after → weaker result after) :
    conduct.Ends before action weaker :=
  Ensures.weaken ends (fun holds => ⟨holds.1, holds.2.1, implies holds.2.2⟩) id

theorem Ends.bind {action : Run α} {next : α → Run β} {post : α → Machine → Prop}
    {nextPost : β → Machine → Prop} (ends : conduct.Ends before action post)
    (rest : ∀ {result after}, conduct.Inv after → conduct.ExprStep before after →
      post result after → conduct.Ends after (next result) nextPost) :
    conduct.Ends before (action >>= next) nextPost := by
  refine Ensures.bind ends fun {result after} ⟨inv, step, holds⟩ => ?_
  refine Ensures.weaken (rest inv step holds) ?_ (conduct.exprHalts step)
  exact fun ⟨nextInv, nextStep, nextHolds⟩ => ⟨nextInv, conduct.trans step nextStep, nextHolds⟩

/-- Executing after what expressions may do. -/
theorem Ends.thenExecutes {action : Run α} {next : α → Run Flow} {post : α → Machine → Prop}
    (ends : conduct.Ends before action post)
    (rest : ∀ {result after}, conduct.Inv after → conduct.ExprStep before after →
      post result after → conduct.Executes after (next result)) :
    conduct.Executes before (action >>= next) := by
  refine Ensures.bind ends fun {result after} ⟨inv, step, holds⟩ => ?_
  refine (rest inv step holds).weaken ?_ (conduct.exprHalts step)
  exact fun ⟨nextStep, nextInv⟩ => ⟨conduct.exprThen step nextStep, nextInv⟩

theorem executes_proceed (inv : conduct.Inv before) :
    conduct.Executes before (pure .proceed) :=
  ⟨conduct.proceed before, fun _ => inv⟩

/-- Executing goes on after a part that did not return, and ends with one that
did. -/
theorem Executes.bind {action : Run Flow} {next : Flow → Run Flow}
    (executes : conduct.Executes before action)
    (returns : ∀ value, next (.returned value) = pure (.returned value))
    (rest : ∀ {after}, conduct.Inv after → conduct.Executes after (next .proceed)) :
    conduct.Executes before (action >>= next) := by
  refine Ensures.bind executes fun {flow after} ⟨step, inv⟩ => ?_
  cases flow with
  | returned value =>
      rw [returns]
      exact ⟨step, nofun⟩
  | proceed =>
      refine (rest (inv rfl)).weaken ?_ (conduct.execHalts step)
      exact fun ⟨nextStep, nextInv⟩ => ⟨conduct.execThen step nextStep, nextInv⟩

end Conduct

end Scriptlet
