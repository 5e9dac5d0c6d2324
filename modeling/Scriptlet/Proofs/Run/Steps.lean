import Scriptlet.Run.Machine

/-!
Contract: how steps of a run end, and what the primitive ones change.

Owns:
- the machine that a step ends in, also when it halts, and whether it halts for
  lack of fuel;
- sequencing, in terms of how its parts end;
- for every primitive step, the part of the machine that it can change.

No primitive step runs out of fuel.
-/

namespace Scriptlet

/-! ## How a step ends -/

namespace Run

variable {α β : Type} {action : Run α} {before after : Machine}

/-- The machine a step ends in, also when it halts. -/
def final (action : Run α) (before : Machine) : Machine :=
  match action before with
  | .ok _ after => after
  | .error _ after => after

/-- Whether the fuel of a step does not suffice. -/
def Exhausts (action : Run α) (before : Machine) : Prop :=
  ∃ after, action before = .error .outOfFuel after

theorem final_of_ok {result : α} (success : action before = .ok result after) :
    action.final before = after := by
  rw [final, success]

theorem final_of_error {halt : Halt} (failure : action before = .error halt after) :
    action.final before = after := by
  rw [final, failure]

theorem not_exhausts_of_ok {result : α} (success : action before = .ok result after) :
    ¬ action.Exhausts before := by
  rintro ⟨_, failure⟩
  rw [success] at failure
  cases failure

theorem exhausts_of_error {halt : Halt} (failure : action before = .error halt after) :
    action.Exhausts before ↔ halt = .outOfFuel := by
  constructor
  · rintro ⟨_, exhausted⟩
    rw [failure] at exhausted
    cases exhausted
    rfl
  · rintro rfl
    exact ⟨after, failure⟩

theorem bind_of_ok {next : α → Run β} {result : α} (success : action before = .ok result after) :
    (action >>= next) before = next result after := by
  show EStateM.bind action next before = next result after
  rw [EStateM.bind, success]

theorem bind_of_error {next : α → Run β} {halt : Halt}
    (failure : action before = .error halt after) :
    (action >>= next) before = .error halt after := by
  show EStateM.bind action next before = .error halt after
  rw [EStateM.bind, failure]

theorem final_bind_of_ok {next : α → Run β} {result : α}
    (success : action before = .ok result after) :
    (action >>= next).final before = (next result).final after := by
  rw [final, bind_of_ok success, final]

theorem final_bind_of_error {next : α → Run β} {halt : Halt}
    (failure : action before = .error halt after) :
    (action >>= next).final before = after :=
  final_of_error (bind_of_error failure)

theorem exhausts_bind_of_ok {next : α → Run β} {result : α}
    (success : action before = .ok result after) :
    (action >>= next).Exhausts before ↔ (next result).Exhausts after := by
  rw [Exhausts, bind_of_ok success, Exhausts]

theorem exhausts_bind_of_error {next : α → Run β} {halt : Halt}
    (failure : action before = .error halt after) :
    (action >>= next).Exhausts before ↔ halt = .outOfFuel :=
  exhausts_of_error (bind_of_error failure)

/-- Copying changes the store only. -/
theorem copyAt_of_ok {level : Nat} {value copy : Value} {store : Store}
    (success : Store.copyAt level value before.store = .ok copy store) :
    copyAt level value before = .ok copy { before with store := store } := by
  simp only [copyAt, success]

theorem copyAt_of_error {level : Nat} {value : Value} {error : RunError} {store : Store}
    (failure : Store.copyAt level value before.store = .error error store) :
    copyAt level value before = .error (.failed error) { before with store := store } := by
  simp only [copyAt, failure]

end Run

/-! ## What primitive steps change -/

namespace Run

/-- Whether a step changes the machine only as told, and does not run out of
fuel. -/
def Changes {α : Type} (change : Machine → Machine → Prop) (action : Run α) : Prop :=
  ∀ before, change before (action.final before) ∧ ¬ action.Exhausts before

/-- A step that reads the machine first changes what the rest changes. -/
theorem changes_get {α : Type} {change : Machine → Machine → Prop} {next : Machine → Run α}
    (rest : ∀ before, change before ((next before).final before) ∧
      ¬ (next before).Exhausts before) :
    Changes change (get >>= next) :=
  rest

theorem changes_fail {α : Type} (error : RunError) :
    Changes (fun before after => after = before) (fail error : Run α) :=
  fun _ => ⟨rfl, nofun⟩

theorem tick_of_unbounded {settings : Settings} (unbounded : settings.limits.maxSteps = none)
    (before : Machine) : tick settings before = .ok () { before with steps := before.steps + 1 } := by
  unfold tick
  rw [unbounded]
  rfl

theorem tick_of_bounded {settings : Settings} {budget : Nat}
    (bounded : settings.limits.maxSteps = some budget) (before : Machine) :
    tick settings before =
      if budget < before.steps + 1 then
        .error (.failed (.budgetExceeded budget)) { before with steps := before.steps + 1 }
      else .ok () { before with steps := before.steps + 1 } := by
  unfold tick
  rw [bounded]
  show (if budget < before.steps + 1 then fail (.budgetExceeded budget) else pure () : Run Unit)
    { before with steps := before.steps + 1 } = _
  split <;> rfl

theorem changes_tick (settings : Settings) :
    Changes (fun before after => after = { before with steps := before.steps + 1 })
      (tick settings) := by
  intro before
  cases limit : settings.limits.maxSteps with
  | none =>
      have success := tick_of_unbounded limit before
      exact ⟨final_of_ok success, not_exhausts_of_ok success⟩
  | some budget =>
      have counted := tick_of_bounded limit before
      split at counted
      · rw [final_of_error counted, exhausts_of_error counted]
        exact ⟨rfl, nofun⟩
      · exact ⟨final_of_ok counted, not_exhausts_of_ok counted⟩

theorem changes_readName (settings : Settings) (name : String) :
    Changes (fun before after => after = { before with draws := after.draws })
      (readName settings name) := by
  have binding : Changes (fun before after => after = { before with draws := after.draws })
      (readBinding name) := by
    refine changes_get fun before => ?_
    split <;> exact ⟨rfl, nofun⟩
  unfold readName
  split
  · split
    · exact fun before => ⟨rfl, nofun⟩
    · exact binding
  · exact binding

theorem changes_writeName (name : String) (value : Value) :
    Changes (fun before after => after = { before with scopes := after.scopes })
      (writeName name value) :=
  fun _ => ⟨rfl, nofun⟩

theorem changes_readSlot (location : Nat) (index : Int64) :
    Changes (fun before after => after = before) (readSlot location index) :=
  fun _ => ⟨rfl, nofun⟩

theorem changes_equal (left right : Value) :
    Changes (fun before after => after = before) (equal left right) :=
  fun _ => ⟨rfl, nofun⟩

theorem changes_copyAt (level : Nat) (value : Value) :
    Changes (fun before after => after = { before with store := after.store })
      (copyAt level value) := by
  intro before
  cases outcome : Store.copyAt level value before.store with
  | ok copy store =>
      have success := copyAt_of_ok outcome
      rw [final_of_ok success]
      exact ⟨rfl, not_exhausts_of_ok success⟩
  | error error store =>
      have failure := copyAt_of_error outcome
      rw [final_of_error failure, exhausts_of_error failure]
      exact ⟨rfl, nofun⟩

theorem changes_newArray (slots : Slots) :
    Changes (fun before after => after = { before with store := after.store })
      (newArray slots) :=
  fun _ => ⟨rfl, nofun⟩

theorem changes_writeSlot (settings : Settings) (location : Nat) (index : Int64)
    (value : Value) :
    Changes (fun before after => after = { before with store := after.store })
      (writeSlot settings location index value) := by
  unfold writeSlot
  simp only
  split
  · exact fun _ => ⟨rfl, nofun⟩
  · refine changes_get fun before => ?_
    obtain ⟨copied, hasFuel⟩ := changes_copyAt (before.store.slotLevel location) value before
    cases outcome : copyAt (before.store.slotLevel location) value before with
    | ok copy after =>
        rw [final_of_ok outcome] at copied
        rw [final_bind_of_ok outcome, exhausts_bind_of_ok outcome, copied]
        exact ⟨rfl, nofun⟩
    | error halt after =>
        rw [final_of_error outcome] at copied
        rw [exhausts_of_error outcome] at hasFuel
        rw [final_bind_of_error outcome, exhausts_bind_of_error outcome]
        exact ⟨copied, hasFuel⟩

theorem changes_callee (name : String) (arguments : Nat) :
    Changes (fun before after => after = before) (callee name arguments) := by
  refine changes_get fun before => ?_
  split
  · split <;> exact ⟨rfl, nofun⟩
  · exact ⟨rfl, nofun⟩

theorem changes_enterCall (settings : Settings) (name : String)
    (declaration : FunctionDeclaration) (values : List Value) :
    Changes (fun before after => after =
        { before with scopes := after.scopes, calls := after.calls })
      (enterCall settings name declaration values) := by
  refine changes_get fun before => ?_
  simp only
  split <;> exact ⟨rfl, nofun⟩

theorem changes_leaveCall (name : String) (depth : Nat) :
    Changes (fun before after => after =
        { before with scopes := after.scopes, calls := after.calls })
      (leaveCall name depth) := by
  refine changes_get fun before => ?_
  simp only
  split <;> exact ⟨rfl, nofun⟩

end Run

end Scriptlet
