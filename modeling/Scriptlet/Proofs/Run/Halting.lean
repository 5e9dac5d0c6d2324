import Scriptlet.Proofs.Run.Passage

/-!
Contract: where an evaluation that halts has halted.

Owns:
- the failures that a step of a node itself can have;
- a visit that halts in a way that no such step does halts because a visit that it
  begins halts so;
- lack of fuel is such a way, and so is an exceeded budget where there is none.
-/

namespace Scriptlet

open Run

/-! ## How own steps fail -/

namespace Value

variable {value : Value} {operation : String} {error : RunError}

theorem eq_of_asInteger_error (failed : value.asInteger operation = .error error) :
    error = .expectedInteger operation value.type := by
  cases value with
  | integer => cases failed
  | array | function =>
      cases failed
      rfl

theorem eq_of_asTruth_error (failed : value.asTruth operation = .error error) :
    error = .expectedInteger operation value.type := by
  cases value with
  | integer => cases failed
  | array | function =>
      cases failed
      rfl

theorem eq_of_asArray_error (failed : value.asArray = .error error) :
    error = .expectedArray value.type := by
  cases value with
  | array => cases failed
  | integer | function =>
      cases failed
      rfl

theorem eq_of_asIndex_error (failed : value.asIndex = .error error) :
    error = .expectedInteger "index" value.type ∨ ∃ index, error = .negativeIndex index := by
  cases value with
  | array | function =>
      cases failed
      exact .inl rfl
  | integer index =>
      have failed : (if index < 0 then .error (.negativeIndex index) else .ok index :
        Except RunError Int64) = .error error := failed
      split at failed
      · cases failed
        exact .inr ⟨index, rfl⟩
      · cases failed

end Value

theorem BinaryOperator.eq_of_onIntegers_error {operator : BinaryOperator} {left right : Int64}
    {error : RunError} (failed : operator.onIntegers left right = .error error) :
    error = .divisionByZero ∨ ∃ fault, error = .internal fault := by
  cases operator with
  | divide | modulo =>
      simp only [onIntegers, Arithmetic.floorDivide, Arithmetic.floorModulo] at failed
      split at failed
      · cases failed
        exact .inl rfl
      · split at failed <;> cases failed
  | or | and | is | isNot =>
      cases failed
      exact .inr ⟨_, rfl⟩
  | _ => cases failed

/-- Whether a step of a node itself can fail so, on known values: it exceeds the budget
that there is, or tells the type of a known value, or tells no type. -/
def RunError.OfOwnStep (settings : Settings) (Known : Value → Prop) : RunError → Prop
  | .budgetExceeded budget => settings.limits.maxSteps = some budget
  | .expectedInteger _ found => ∃ value, Known value ∧ value.type = found
  | .expectedArray found => ∃ value, Known value ∧ value.type = found
  | _ => True

section

variable {settings : Settings} {Known : Value → Prop} {α : Type}

/-- Whether a step halts only by failures that a node itself can have. -/
def FailsItself (settings : Settings) (Known : Value → Prop) (action : Run α) : Prop :=
  ∀ before, Ensures action before (fun _ _ => True)
    fun halt _ => ∃ error, halt = .failed error ∧ error.OfOwnStep settings Known

theorem failsItself_ofExcept {outcome : Except RunError α}
    (fails : ∀ {error}, outcome = .error error → error.OfOwnStep settings Known) :
    FailsItself settings Known (ofExcept outcome) := by
  intro before
  cases outcome with
  | ok value => trivial
  | error error => exact ⟨error, rfl, fails rfl⟩

theorem failsItself_tick : FailsItself settings Known (tick settings) := by
  intro before
  unfold Ensures
  cases limit : settings.limits.maxSteps with
  | none =>
      rw [tick_of_unbounded limit]
      trivial
  | some budget =>
      rw [tick_of_bounded limit]
      by_cases exceeded : budget < before.steps + 1
      · rw [if_pos exceeded]
        exact ⟨.budgetExceeded budget, rfl, limit⟩
      · rw [if_neg exceeded]
        trivial

theorem failsItself_readName (name : String) :
    FailsItself settings Known (readName settings name) := by
  have binding : FailsItself settings Known (readBinding name) := by
    intro before
    apply ensures_get
    split
    · exact ⟨_, rfl, trivial⟩
    · trivial
    · trivial
  unfold readName
  split
  · split
    · exact fun _ => trivial
    · exact binding
  · exact binding

theorem failsItself_copyAt (level : Nat) (value : Value) :
    FailsItself settings Known (copyAt level value) := by
  intro before
  unfold Ensures
  cases outcome : Store.copyAt level value before.store with
  | ok copy store =>
      rw [copyAt_of_ok outcome]
      trivial
  | error error store =>
      rw [copyAt_of_error outcome, Store.eq_of_copyInRoom_error outcome]
      exact ⟨.arrayNestingExceeded, rfl, trivial⟩

theorem failsItself_writeSlot (location : Nat) (index : Int64) (value : Value) :
    FailsItself settings Known (writeSlot settings location index value) := by
  intro before
  unfold writeSlot
  simp only
  split
  · exact ⟨_, rfl, trivial⟩
  · apply ensures_get
    apply (failsItself_copyAt (before.store.slotLevel location) value before).bind
    exact fun _ => trivial

theorem failsItself_callee (name : String) (arguments : Nat) :
    FailsItself settings Known (callee name arguments) := by
  intro before
  apply ensures_get
  split
  · split
    · trivial
    · exact ⟨_, rfl, trivial⟩
  · exact ⟨_, rfl, trivial⟩

theorem failsItself_enterCall (name : String) (declaration : FunctionDeclaration)
    (values : List Value) :
    FailsItself settings Known (enterCall settings name declaration values) := by
  intro before
  apply ensures_get
  simp only
  split
  · exact ⟨_, rfl, trivial⟩
  · trivial

theorem failsItself_leaveCall (name : String) (depth : Nat) :
    FailsItself settings Known (leaveCall name depth) := by
  intro before
  apply ensures_get
  simp only
  split
  · exact ⟨_, rfl, trivial⟩
  · trivial

/-- The steps of a node itself halt only so. -/
theorem OwnStep.failsItself {action : Run α} (own : OwnStep settings Known action) :
    FailsItself settings Known action := by
  cases own with
  | tick => exact failsItself_tick
  | @integer operation value known =>
      apply failsItself_ofExcept
      intro error failed
      rw [Value.eq_of_asInteger_error failed]
      exact ⟨value, known, rfl⟩
  | @truth operation value known =>
      apply failsItself_ofExcept
      intro error failed
      rw [Value.eq_of_asTruth_error failed]
      exact ⟨value, known, rfl⟩
  | @array value known =>
      apply failsItself_ofExcept
      intro error failed
      rw [Value.eq_of_asArray_error failed]
      exact ⟨value, known, rfl⟩
  | @index value known =>
      apply failsItself_ofExcept
      intro error failed
      rcases Value.eq_of_asIndex_error failed with rfl | ⟨index, rfl⟩
      · exact ⟨value, known, rfl⟩
      · trivial
  | arithmetic operator left right =>
      apply failsItself_ofExcept
      intro error failed
      rcases BinaryOperator.eq_of_onIntegers_error failed with rfl | ⟨fault, rfl⟩
      · trivial
      · trivial
  | equal | writeName | readSlot | newArray => exact fun _ => trivial
  | readName name => exact failsItself_readName name
  | writeSlot location index => exact failsItself_writeSlot location index _
  | copyAt level => exact failsItself_copyAt level _
  | callee name arguments => exact failsItself_callee name arguments
  | enterCall name declaration => exact failsItself_enterCall name declaration _
  | leaveCall name depth => exact failsItself_leaveCall name depth

end

/-! ## Visits that halt -/

/-- Whether no step that a node makes itself, on known values, halts in a way. -/
def Halt.IsForeign (halt : Halt) (settings : Settings) (Known : Value → Prop) : Prop :=
  ∀ error, halt = .failed error → ¬ error.OfOwnStep settings Known

namespace Visit

variable {settings : Settings} {Known : Value → Prop} {halt : Halt}

/-- Whether evaluating the node of a visit halts in a way. -/
def Halts (settings : Settings) (visit : Visit) (halt : Halt) : Prop :=
  ∃ after, (Evaluator.atFuel settings visit.fuel).execute visit.node visit.machine =
    .error halt after

/-- A visit that halts in a way foreign to the values that it obtains, and had fuel,
begins one that halts so. -/
theorem exists_begins_of_halts_known {visit : Visit}
    (known : ∀ {value}, visit.Obtains settings value → Known value)
    (foreign : halt.IsForeign settings Known) (halts : visit.Halts settings halt) :
    visit.fuel = 0 ∨ ∃ inner, visit.Begins settings inner ∧ inner.Halts settings halt := by
  obtain ⟨node, fuel, before⟩ := visit
  obtain ⟨after, halted⟩ := halts
  have notOwn : ∀ {α : Type} {action : Run α} {machine ended : Machine},
      OwnStep settings (Obtains settings ⟨node, fuel, before⟩) action →
      action machine ≠ .error halt ended := by
    intro α action machine ended own failed
    obtain ⟨error, isFailed, ofOwn⟩ := ((own.weaken known).failsItself machine).of_error failed
    exact foreign error isFailed ofOwn
  cases fuel with
  | zero => exact .inl rfl
  | succ fuel =>
      right
      simp only [execute_succ] at halted
      rcases bind_eq_error_iff.mp halted with counting | ⟨_, counted, counts, halted⟩
      · cases node with
        | loop condition step body => cases counting
        | expr | statement | block => exact absurd counting (notOwn .tick)
      · have notDeclare : ∀ name parameters body,
            node ≠ .statement (.declare name parameters body) := by
          rintro name parameters body rfl
          cases halted
        cases (consists_executeBody notDeclare).of_error halted with
        | own passes own failed => exact absurd failed (notOwn (ownStep_of_given counts own))
        | @part part machine _ _ passes opens failed =>
            exact ⟨⟨part, fuel, machine⟩, .intro counts opens, after, failed⟩

/-- A visit that halts in a way that is foreign whatever it obtains, and had fuel,
begins one that halts so. -/
theorem exists_begins_of_halts (foreign : halt.IsForeign settings fun _ => True) {visit : Visit}
    (halts : visit.Halts settings halt) :
    visit.fuel = 0 ∨ ∃ inner, visit.Begins settings inner ∧ inner.Halts settings halt :=
  exists_begins_of_halts_known (fun _ => trivial) foreign halts

end Visit

/-! ## Foreign ways of halting -/

/-- No step that a node makes itself runs out of fuel. -/
theorem outOfFuel_isForeign (settings : Settings) :
    Halt.outOfFuel.IsForeign settings fun _ => True :=
  nofun

/-- Only counting exceeds a budget, so nothing does without one. -/
theorem budgetExceeded_isForeign {settings : Settings} {budget : Nat}
    (unbounded : settings.limits.maxSteps = none) :
    (Halt.failed (.budgetExceeded budget)).IsForeign settings fun _ => True := by
  rintro error ⟨⟩ ofOwn
  have bounded : settings.limits.maxSteps = some budget := ofOwn
  rw [unbounded] at bounded
  cases bounded

/-- No visit fails in a way that is foreign to everything that it and the visits in it
obtain. -/
theorem Visit.not_halts_of_isForeign {settings : Settings} {Known : Value → Prop}
    {error : RunError} {root visit : Visit}
    (known : ∀ {visit : Visit} {value : Value}, root.Makes settings visit →
      visit.Obtains settings value → Known value)
    (foreign : (Halt.failed error).IsForeign settings Known) (makes : root.Makes settings visit) :
    ¬ visit.Halts settings (.failed error) := by
  obtain ⟨node, fuel, machine⟩ := visit
  induction fuel generalizing node machine with
  | zero =>
      rintro ⟨after, halted⟩
      rw [Evaluator.atFuel_zero] at halted
      cases node <;> cases halted
  | succ fuel inductionHypothesis =>
      intro halts
      rcases exists_begins_of_halts_known (known makes) foreign halts with
        isZero | ⟨inner, begins, innerHalts⟩
      · cases isZero
      · cases begins with
        | intro counts opens =>
            exact inductionHypothesis _ _ (makes.tail (.intro counts opens)) innerHalts

/-- Without a budget no evaluation exceeds one. -/
theorem Visit.not_halts_budgetExceeded {settings : Settings}
    (unbounded : settings.limits.maxSteps = none) (visit : Visit) (budget : Nat) :
    ¬ visit.Halts settings (.failed (.budgetExceeded budget)) :=
  not_halts_of_isForeign (fun _ _ => trivial) (budgetExceeded_isForeign unbounded) .refl

end Scriptlet
