import Scriptlet.Proofs.Run.Layer

/-!
Contract: what evaluation keeps, and what is known of the values it gives.

Owns:
- contracts: an invariant of machines, how machines may change, and what is
  known of values, for every primitive step;
- every evaluation meets a contract that the primitive steps meet.

What is known of a value when it was computed is still known later, because it
is kept by every change of the machine.  A step that fails keeps the invariant
too.
-/

namespace Scriptlet

open Run

/-- What is kept by evaluation under some settings. -/
structure Terms where
  /-- What holds of a machine at all times. -/
  Inv : Machine → Prop
  /-- How a machine may change. -/
  Step : Machine → Machine → Prop
  /-- What is known of the value of an expression. -/
  Good : Machine → Value → Prop
  refl : ∀ machine, Step machine machine
  trans : ∀ {first second third : Machine}, Step first second → Step second third →
    Step first third
  stable : ∀ {before after : Machine} {value : Value}, Step before after →
    Good before value → Good after value
  integer : ∀ machine number, Good machine (.integer number)

namespace Terms

variable (terms : Terms) {α β : Type}

/-- Whether a step made in a machine keeps to the terms, with a result that
`post` holds of if it succeeds. -/
structure Ends (before : Machine) (action : Run α) (post : α → Machine → Prop) : Prop where
  inv : terms.Inv (action.final before)
  step : terms.Step before (action.final before)
  result : ∀ {value : α} {after : Machine}, action before = .ok value after → post value after

/-- Whether a step keeps to the terms wherever it is made. -/
def Keeps (action : Run α) : Prop :=
  ∀ {before : Machine}, terms.Inv before → terms.Ends before action fun _ _ => True

/-- Whether a step keeps to the terms and gives values that are known. -/
def Gives (action : Run Value) : Prop :=
  ∀ {before : Machine}, terms.Inv before →
    terms.Ends before action fun value after => terms.Good after value

variable {terms} {before : Machine}

theorem ends_pure {post : α → Machine → Prop} {value : α} (inv : terms.Inv before)
    (holds : post value before) : terms.Ends before (pure value) post := by
  refine ⟨inv, terms.refl before, fun success => ?_⟩
  cases success
  exact holds

theorem ends_fail {post : α → Machine → Prop} (inv : terms.Inv before) (error : RunError) :
    terms.Ends before (fail error : Run α) post :=
  ⟨inv, terms.refl before, nofun⟩

theorem ends_ofExcept (inv : terms.Inv before) (outcome : Except RunError α) :
    terms.Ends before (ofExcept outcome) fun value after => after = before ∧ outcome = .ok value := by
  cases outcome with
  | ok value => exact ends_pure inv ⟨rfl, rfl⟩
  | error error => exact ends_fail inv error

theorem Ends.weaken {action : Run α} {post weaker : α → Machine → Prop}
    (ends : terms.Ends before action post)
    (implies : ∀ {value after}, post value after → weaker value after) :
    terms.Ends before action weaker :=
  ⟨ends.inv, ends.step, fun success => implies (ends.result success)⟩

/-- Sequencing, where the rest is told from the machine before the first step. -/
theorem Ends.bindWhole {action : Run α} {next : α → Run β} {post : α → Machine → Prop}
    {nextPost : β → Machine → Prop} (ends : terms.Ends before action post)
    (rest : ∀ {value after}, action before = .ok value after →
      terms.Ends before (fun _ => next value after) nextPost) :
    terms.Ends before (action >>= next) nextPost := by
  cases outcome : action before with
  | ok value after =>
      obtain ⟨inv, step, result⟩ := rest outcome
      refine ⟨?_, ?_, ?_⟩
      · rw [final_bind_of_ok outcome]
        exact inv
      · rw [final_bind_of_ok outcome]
        exact step
      · rw [bind_of_ok outcome]
        exact result
  | error halt after =>
      obtain ⟨inv, step, _⟩ := ends
      rw [final_of_error outcome] at inv step
      refine ⟨?_, ?_, ?_⟩
      · rw [final_bind_of_error outcome]
        exact inv
      · rw [final_bind_of_error outcome]
        exact step
      · rw [bind_of_error outcome]
        nofun

theorem Ends.bind {action : Run α} {next : α → Run β} {post : α → Machine → Prop}
    {nextPost : β → Machine → Prop} (ends : terms.Ends before action post)
    (rest : ∀ {value after}, terms.Inv after → terms.Step before after → post value after →
      terms.Ends after (next value) nextPost) :
    terms.Ends before (action >>= next) nextPost := by
  refine ends.bindWhole fun {value after} success => ?_
  obtain ⟨inv, step, result⟩ := ends
  rw [final_of_ok success] at inv step
  obtain ⟨nextInv, nextStep, nextResult⟩ := rest inv step (result success)
  exact ⟨nextInv, terms.trans step nextStep, nextResult⟩

/-- A step that reads the machine first ends as the rest does. -/
theorem ends_get {next : Machine → Run α} {post : α → Machine → Prop}
    (ends : terms.Ends before (next before) post) : terms.Ends before (get >>= next) post :=
  ⟨ends.inv, ends.step, ends.result⟩

theorem ends_outOfFuel {post : α → Machine → Prop} (inv : terms.Inv before) :
    terms.Ends before (throw .outOfFuel : Run α) post :=
  ⟨inv, terms.refl before, nofun⟩

/-- Values computed one after another are all known at the end. -/
theorem ends_evalList {eval : Expr → Run Value} (gives : ∀ expr, terms.Gives (eval expr))
    (exprs : List Expr) (inv : terms.Inv before) :
    terms.Ends before (evalList eval exprs)
      fun values after => ∀ value ∈ values, terms.Good after value := by
  induction exprs generalizing before with
  | nil => exact ends_pure inv nofun
  | cons expr rest inductionHypothesis =>
      refine (gives expr inv).bind fun {value after} inv _ good => ?_
      refine (inductionHypothesis inv).bind fun {values after} inv step othersGood => ?_
      apply ends_pure inv
      exact List.forall_mem_cons.mpr ⟨terms.stable step good, othersGood⟩

end Terms

/-- Terms that the primitive steps of evaluation under some settings keep to. -/
structure Contract (settings : Settings) extends Terms where
  tick : toTerms.Keeps (tick settings)
  readName : ∀ name, toTerms.Gives (readName settings name)
  writeName : ∀ name {before : Machine} {value : Value}, Inv before → Good before value →
    toTerms.Ends before (writeName name value) fun _ _ => True
  declare : ∀ name declaration, toTerms.Keeps (Run.writeName name (.function declaration))
  readSlot : ∀ location index {before : Machine}, Inv before → Good before (.array location) →
    toTerms.Ends before (readSlot location index) fun value after => Good after value
  writeSlot : ∀ location index {before : Machine} {value : Value}, Inv before →
    Good before (.array location) → Good before value →
    toTerms.Ends before (writeSlot settings location index value) fun _ _ => True
  array : ∀ {eval : Expr → Run Value}, (∀ expr, toTerms.Gives (eval expr)) → ∀ items,
    toTerms.Gives (evalArray eval items)
  call : ∀ {eval : Expr → Run Value} {exec : Block → Run Flow},
    (∀ expr, toTerms.Gives (eval expr)) → (∀ block, toTerms.Keeps (exec block)) →
    ∀ name arguments, toTerms.Gives (evalCall settings eval exec name arguments)

theorem Value.eq_array_of_asArray {value : Value} {location : Nat}
    (found : value.asArray = .ok location) : value = .array location := by
  cases value with
  | array actual =>
      cases found
      rfl
  | integer => cases found
  | function => cases found

namespace Contract

variable {settings : Settings} (contract : Contract settings)

/-! ## The parts of a layer -/

section

variable {before : Machine} (inv : contract.Inv before)

include inv

theorem applyUnary (operator : UnaryOperator) (value : Value) :
    contract.Ends before (Scriptlet.applyUnary operator value)
      fun result after => contract.Good after result := by
  cases operator with
  | not => exact (Terms.ends_ofExcept inv _).bind fun inv _ _ =>
      Terms.ends_pure inv (contract.integer _ _)
  | negate => exact (Terms.ends_ofExcept inv _).bind fun inv _ _ =>
      Terms.ends_pure inv (contract.integer _ _)
  | plus => exact (Terms.ends_ofExcept inv _).bind fun inv _ _ =>
      Terms.ends_pure inv (contract.integer _ _)

theorem equal (left right : Value) :
    contract.Ends before (Run.equal left right) fun _ _ => True :=
  ⟨inv, contract.refl before, fun _ => trivial⟩

theorem applyBinary (operator : BinaryOperator) (left right : Value) :
    contract.Ends before (Scriptlet.applyBinary operator left right)
      fun result after => contract.Good after result := by
  unfold Scriptlet.applyBinary
  split
  · exact (contract.equal inv left right).bind fun inv _ _ =>
      Terms.ends_pure inv (contract.integer _ _)
  · exact (contract.equal inv left right).bind fun inv _ _ =>
      Terms.ends_pure inv (contract.integer _ _)
  · exact (Terms.ends_ofExcept inv _).bind fun inv _ _ =>
      (Terms.ends_ofExcept inv _).bind fun inv _ _ =>
        (Terms.ends_ofExcept inv _).bind fun inv _ _ =>
          Terms.ends_pure inv (contract.integer _ _)

end

section

variable {eval : Expr → Run Value} {exec : Block → Run Flow}
  (gives : ∀ expr, contract.Gives (eval expr)) (keeps : ∀ block, contract.Keeps (exec block))

include gives

theorem evalBinary (operator : BinaryOperator) (left right : Expr) :
    contract.Gives (Scriptlet.evalBinary eval operator left right) := by
  intro before inv
  refine (gives left inv).bind fun {value after} inv _ good => ?_
  split
  · refine (Terms.ends_ofExcept inv _).bind fun {truth after} inv step _ => ?_
    cases truth with
    | true => exact gives right inv
    | false => exact Terms.ends_pure inv (contract.stable step good)
  · refine (Terms.ends_ofExcept inv _).bind fun {truth after} inv step _ => ?_
    cases truth with
    | true => exact Terms.ends_pure inv (contract.stable step good)
    | false => exact gives right inv
  · exact (gives right inv).bind fun inv _ _ => contract.applyBinary inv _ _ _

theorem evalIndex (base offset : Expr) :
    contract.Gives (Scriptlet.evalIndex eval base offset) := by
  intro before inv
  refine (gives base inv).bind fun {value after} inv _ good => ?_
  refine (Terms.ends_ofExcept inv _).bind fun {location after} inv found isArray => ?_
  rw [Value.eq_array_of_asArray isArray.2] at good
  have good := contract.stable found good
  refine (gives offset inv).bind fun inv step _ => ?_
  have good := contract.stable step good
  refine (Terms.ends_ofExcept inv _).bind fun inv step _ => ?_
  exact contract.readSlot location _ inv (contract.stable step good)

theorem execStore (base offset value : Expr) :
    contract.Keeps (Scriptlet.execStore settings eval base offset value) := by
  intro before inv
  refine (gives base inv).bind fun {array after} inv _ good => ?_
  refine (Terms.ends_ofExcept inv _).bind fun {location after} inv found isArray => ?_
  rw [Value.eq_array_of_asArray isArray.2] at good
  have good := contract.stable found good
  refine (gives value inv).bind fun {stored after} inv step storedGood => ?_
  have good := contract.stable step good
  refine (gives offset inv).bind fun inv step _ => ?_
  have good := contract.stable step good
  have storedGood := contract.stable step storedGood
  refine (Terms.ends_ofExcept inv _).bind fun inv step _ => ?_
  exact contract.writeSlot location _ inv (contract.stable step good)
    (contract.stable step storedGood)

theorem loopContinues (condition : Option Expr) :
    contract.Keeps (Scriptlet.loopContinues eval condition) := by
  intro before inv
  cases condition with
  | none => exact Terms.ends_pure inv trivial
  | some condition =>
      exact (gives condition inv).bind fun inv _ _ =>
        (Terms.ends_ofExcept inv _).weaken fun _ => trivial

include keeps in
theorem execChoice (otherwise : Block) (branches : List Branch) :
    contract.Keeps (Scriptlet.execChoice eval exec otherwise branches) := by
  induction branches with
  | nil => exact keeps otherwise
  | cons branch rest inductionHypothesis =>
      intro before inv
      obtain ⟨condition, body⟩ := branch
      refine (gives condition inv).bind fun inv _ _ => ?_
      refine (Terms.ends_ofExcept inv _).bind fun {truth after} inv _ _ => ?_
      cases truth with
      | true => exact keeps body inv
      | false => exact inductionHypothesis inv

end

theorem execList {exec : Statement → Run Flow}
    (keeps : ∀ statement, contract.Keeps (exec statement)) (block : Block) :
    contract.Keeps (Scriptlet.execList exec block) := by
  induction block with
  | nil => exact fun inv => Terms.ends_pure inv trivial
  | cons statement rest inductionHypothesis =>
      intro before inv
      refine (keeps statement inv).bind fun {flow after} inv _ _ => ?_
      cases flow with
      | proceed => exact inductionHypothesis inv
      | returned value => exact Terms.ends_pure inv trivial

/-! ## Layers -/

/-- Whether an evaluator keeps to a contract on every node. -/
structure Meets (evaluator : Evaluator) : Prop where
  expr : ∀ expr, contract.Gives (evaluator.expr expr)
  statement : ∀ statement, contract.Keeps (evaluator.statement statement)
  loop : ∀ condition step body, contract.Keeps (evaluator.loop condition step body)
  block : ∀ block, contract.Keeps (evaluator.block block)

section

variable {contract} {evaluator : Evaluator} (meets : contract.Meets evaluator)

include meets

theorem Meets.exprBody (expr : Expr) :
    contract.Gives (evaluator.exprBody settings expr) := by
  cases expr with
  | integer value => exact fun inv => Terms.ends_pure inv (contract.integer _ _)
  | name name => exact contract.readName name
  | array items => exact contract.array meets.expr items
  | unary operator operand =>
      exact fun inv => (meets.expr operand inv).bind fun inv _ _ =>
        contract.applyUnary inv operator _
  | binary operator left right => exact contract.evalBinary meets.expr operator left right
  | index base offset => exact contract.evalIndex meets.expr base offset
  | call name arguments => exact contract.call meets.expr meets.block name arguments

theorem Meets.statementBody (statement : Statement) :
    contract.Keeps (evaluator.statementBody settings statement) := by
  intro before inv
  cases statement with
  | assign name value =>
      exact (meets.expr value inv).bind fun inv _ good =>
        (contract.writeName name inv good).bind fun inv _ _ => Terms.ends_pure inv trivial
  | store base offset value =>
      exact (contract.execStore meets.expr base offset value inv).bind fun inv _ _ =>
        Terms.ends_pure inv trivial
  | evaluate expr =>
      exact (meets.expr expr inv).bind fun inv _ _ => Terms.ends_pure inv trivial
  | choose branches otherwise =>
      exact contract.execChoice meets.expr meets.block otherwise branches inv
  | loop initial condition step body =>
      refine (meets.statement initial inv).bind fun {flow after} inv _ _ => ?_
      cases flow with
      | proceed => exact meets.loop condition step body inv
      | returned value => exact Terms.ends_pure inv trivial
  | declare name parameters body =>
      exact (contract.declare name _ inv).bind fun inv _ _ => Terms.ends_pure inv trivial
  | giveBack value =>
      exact (meets.expr value inv).bind fun inv _ good =>
        (contract.writeName returnName inv good).bind fun inv _ _ =>
          Terms.ends_pure inv trivial
  | skip => exact Terms.ends_pure inv trivial

theorem Meets.loopBody (condition : Option Expr) (step : Statement) (body : Block) :
    contract.Keeps (evaluator.loopBody condition step body) := by
  intro before inv
  refine (contract.loopContinues meets.expr condition inv).bind fun {goesOn after} inv _ _ => ?_
  cases goesOn with
  | false => exact Terms.ends_pure inv trivial
  | true =>
      refine (meets.block body inv).bind fun {flow after} inv _ _ => ?_
      cases flow with
      | returned value => exact Terms.ends_pure inv trivial
      | proceed =>
          refine (meets.statement step inv).bind fun {flow after} inv _ _ => ?_
          cases flow with
          | returned value => exact Terms.ends_pure inv trivial
          | proceed => exact meets.loop condition step body inv

/-- A layer above an evaluator that keeps to the contract keeps to it. -/
theorem Meets.next : contract.Meets (evaluator.next settings) where
  expr expr _ inv := (contract.tick inv).bind fun inv _ _ => meets.exprBody expr inv
  statement statement _ inv :=
    (contract.tick inv).bind fun inv _ _ => meets.statementBody statement inv
  loop := meets.loopBody
  block block _ inv :=
    (contract.tick inv).bind fun inv _ _ => contract.execList meets.statement block inv

end

/-- Evaluation with any fuel keeps to a contract that the primitive steps keep
to. -/
theorem meets_atFuel (fuel : Nat) : contract.Meets (Evaluator.atFuel settings fuel) := by
  induction fuel with
  | zero =>
      rw [Evaluator.atFuel_zero]
      exact ⟨fun _ => Terms.ends_outOfFuel, fun _ => Terms.ends_outOfFuel,
        fun _ _ _ => Terms.ends_outOfFuel, fun _ => Terms.ends_outOfFuel⟩
  | succ fuel inductionHypothesis =>
      rw [Evaluator.atFuel_succ]
      exact inductionHypothesis.next

/-- Every evaluation of a node keeps to the contract. -/
theorem keeps_of_evaluation {α : Type} {action : Run α} (evaluation : Evaluation settings action) :
    contract.Keeps action := by
  intro before inv
  cases evaluation with
  | expr fuel expr => exact ((contract.meets_atFuel fuel).expr expr inv).weaken fun _ => trivial
  | statement fuel statement => exact (contract.meets_atFuel fuel).statement statement inv
  | loop fuel condition step body =>
      exact (contract.meets_atFuel fuel).loop condition step body inv
  | block fuel block => exact (contract.meets_atFuel fuel).block block inv

end Contract

end Scriptlet
