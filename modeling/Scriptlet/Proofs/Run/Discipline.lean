import Scriptlet.Proofs.Run.Conduct
import Scriptlet.Proofs.Run.Contract

/-!
Contract: a conduct that the primitive steps keep to is kept to by every
evaluation.

Owns:
- disciplines: a conduct with the laws that the primitive steps obey;
- every evaluation of an admitted node keeps to a discipline;
- every visit made inside a visit that starts well is of an admitted node, in a
  machine where the invariant holds.

The laws of calls are those of entering and leaving one.  What happens between
is what executing the body may do, which is known by the layers below.  A contract
has one law for a call as a whole, and an invariant that holds where evaluation
fails or returns too; a discipline claims its invariant only where evaluation goes
on, and lets statements change more than expressions.
-/

namespace Scriptlet

open Run

/-- A conduct that the primitive steps of evaluation under some settings keep
to. -/
structure Discipline (settings : Settings) extends Conduct where
  tick : ∀ {before : Machine}, Inv before →
    toConduct.Ends before (Run.tick settings) fun _ _ => True
  readName : ∀ name {before : Machine}, Inv before →
    toConduct.Gives before (Run.readName settings name)
  readSlot : ∀ {location : Nat} (index : Nat) {before : Machine}, Inv before →
    Good before (.array location) → Good before (before.store.read location index)
  writeSlot : ∀ location index {before : Machine} {value : Value}, Inv before →
    Good before (.array location) → Good before value →
    toConduct.Ends before (Run.writeSlot settings location index value) fun _ _ => True
  /-- What holds while the slots of an array are filled: the machine in which that
  began, the next index, the slots so far and the machine now. -/
  Filling : Machine → Nat → Slots → Machine → Prop
  startFilling : ∀ {base : Machine}, Inv base → Filling base 0 ∅ base
  keepFilling : ∀ {base before after : Machine} {index : Nat} {slots : Slots},
    ExprStep before after → Filling base index slots before → Filling base index slots after
  fill : ∀ {base before : Machine} {index : Nat} {slots : Slots} {value : Value},
    Inv before → Filling base index slots before → Good before value →
    toConduct.Ends before (Run.copyAt 2 value)
      fun copy after => Filling base (index + 1) (slots.insert index copy) after
  makeArray : ∀ {base before : Machine} {items : List Expr} {slots : Slots},
    Admits (.expr (.array items)) → Inv before → ExprStep base before →
    Filling base items.length slots before →
    Inv (before.makeArray slots) ∧ ExprStep base (before.makeArray slots) ∧
      Good (before.makeArray slots) (before.store.allocate ⟨1, slots⟩).1
  assign : ∀ {name : String} {expr : Expr} {before : Machine} {value : Value},
    Admits (.statement (.assign name expr)) → Inv before → Good before value →
    ExecStep before .proceed (before.write name value) ∧ Inv (before.write name value)
  declare : ∀ {name : String} {parameters : List String} {body : Block} {before : Machine},
    Admits (.statement (.declare name parameters body)) → Inv before →
    ExecStep before .proceed (before.write name (.function ⟨name, parameters, body⟩)) ∧
      Inv (before.write name (.function ⟨name, parameters, body⟩))
  giveBack : ∀ {before : Machine} {value : Value}, Inv before → Good before value →
    ExecStep before (.returned value) (before.write returnName value)
  /-- A function that a name is bound to was declared by an admitted node. -/
  declared : ∀ {name : String} {declaration : FunctionDeclaration} {machine : Machine},
    Inv machine → machine.scopes.read name = some (.function declaration) →
    Admits (.statement
      (.declare declaration.name declaration.parameters declaration.body))
  enter : ∀ {name : String} {declaration : FunctionDeclaration} {values : List Value}
    {before : Machine}, Inv before →
    Admits (.statement (.declare declaration.name declaration.parameters declaration.body)) →
    (∀ value ∈ values, Good before value) →
    Inv (before.enter name declaration values)
  enterHalts : ∀ {name : String} {declaration : FunctionDeclaration} {values : List Value}
    {before after : Machine} {halt : Halt}, Inv before →
    Halts (before.enter name declaration values) halt after → Halts before halt after
  leave : ∀ {name : String} {declaration : FunctionDeclaration} {values : List Value}
    {before ended : Machine} {flow : Flow}, Inv before →
    ExecStep (before.enter name declaration values) flow ended →
    (flow = .proceed → Inv ended) →
    Ensures (leaveCall name before.scopes.depth) ended
      (fun value after => Inv after ∧ ExprStep before after ∧ Good after value) (Halts before)

namespace Discipline

variable {settings : Settings} (discipline : Discipline settings)

/-- Whether an evaluator keeps to a discipline on every admitted node. -/
structure Meets (evaluator : Evaluator) : Prop where
  expr : ∀ {expr : Expr} {before : Machine}, discipline.Admits (.expr expr) →
    discipline.Inv before → discipline.Gives before (evaluator.expr expr)
  execute : ∀ (node : Node) {before : Machine}, node.IsExecuted → discipline.Admits node →
    discipline.Inv before → discipline.toConduct.Executes before (evaluator.execute node)

/-! ## The parts of a layer -/

section

variable {before : Machine} (inv : discipline.Inv before)

include inv

theorem applyUnary (operator : UnaryOperator) (value : Value) :
    discipline.Gives before (Scriptlet.applyUnary operator value) := by
  cases operator with
  | not => exact (Conduct.ends_ofExcept inv Value.ordinary_of_asTruth).bind fun inv _ _ =>
      Conduct.ends_pure inv (discipline.integer _ _)
  | negate => exact (Conduct.ends_ofExcept inv Value.ordinary_of_asInteger).bind fun inv _ _ =>
      Conduct.ends_pure inv (discipline.integer _ _)
  | plus => exact (Conduct.ends_ofExcept inv Value.ordinary_of_asInteger).bind fun inv _ _ =>
      Conduct.ends_pure inv (discipline.integer _ _)

theorem equal (left right : Value) :
    discipline.Ends before (Run.equal left right) fun _ _ => True :=
  ⟨inv, discipline.refl before, trivial⟩

/-- Operators that may leave their right operand alone are decided before. -/
theorem applyBinary {operator : BinaryOperator} (notAnd : operator ≠ .and)
    (notOr : operator ≠ .or) (left right : Value) :
    discipline.Gives before (Scriptlet.applyBinary operator left right) := by
  unfold Scriptlet.applyBinary
  split
  · exact (discipline.equal inv left right).bind fun inv _ _ =>
      Conduct.ends_pure inv (discipline.integer _ _)
  · exact (discipline.equal inv left right).bind fun inv _ _ =>
      Conduct.ends_pure inv (discipline.integer _ _)
  · next notIs notIsNot =>
      have arithmetic : operator.IsArithmetic := by
        cases operator with
        | or | and | is | isNot => contradiction
        | _ => trivial
      exact (Conduct.ends_ofExcept inv Value.ordinary_of_asInteger).bind fun inv _ _ =>
        (Conduct.ends_ofExcept inv Value.ordinary_of_asInteger).bind fun inv _ _ =>
          (Conduct.ends_ofExcept inv (BinaryOperator.ordinary_of_onIntegers arithmetic)).bind
            fun inv _ _ => Conduct.ends_pure inv (discipline.integer _ _)

theorem callee (name : String) (count : Nat) :
    discipline.Ends before (Run.callee name count) fun declaration after =>
      after = before ∧ before.scopes.read name = some (.function declaration) := by
  apply Conduct.ends_get
  split
  · next declaration found =>
      split
      · exact Conduct.ends_pure inv ⟨rfl, found⟩
      · exact Conduct.ends_fail inv nofun
  · exact Conduct.ends_fail inv nofun

theorem enterCall (name : String) {declaration : FunctionDeclaration} {values : List Value}
    (admits : discipline.Admits (.statement
      (.declare declaration.name declaration.parameters declaration.body)))
    (good : ∀ value ∈ values, discipline.Good before value) :
    Ensures (Run.enterCall settings name declaration values) before
      (fun depth after => discipline.Inv after ∧ depth = before.scopes.depth ∧
        after = before.enter name declaration values)
      (discipline.Halts before) := by
  show Ensures (if settings.limits.maxCallDepth ≤ before.scopes.depth then _ else _) before _ _
  split
  · exact discipline.fail inv nofun
  · exact ⟨discipline.enter inv admits good, rfl, rfl⟩

end

section

variable {evaluator : Evaluator} {before : Machine} (meets : discipline.Meets evaluator)
  (inv : discipline.Inv before)

include meets inv

/-- Values computed one after another are all known at the end. -/
theorem evalList {exprs : List Expr} (admits : ∀ expr ∈ exprs, discipline.Admits (.expr expr)) :
    discipline.Ends before (Scriptlet.evalList evaluator.expr exprs)
      fun values after => ∀ value ∈ values, discipline.Good after value := by
  induction exprs generalizing before with
  | nil => exact Conduct.ends_pure inv nofun
  | cons expr rest inductionHypothesis =>
      rw [List.forall_mem_cons] at admits
      refine (meets.expr admits.1 inv).bind fun {value after} inv _ good => ?_
      refine (inductionHypothesis inv admits.2).bind fun {values after} inv step othersGood => ?_
      apply Conduct.ends_pure inv
      exact List.forall_mem_cons.mpr ⟨discipline.stable step good, othersGood⟩

theorem evalItems {base : Machine} {items : List Expr}
    (admits : ∀ item ∈ items, discipline.Admits (.expr item)) {index : Nat} {slots : Slots}
    (filling : discipline.Filling base index slots before) :
    discipline.Ends before (Scriptlet.evalItems evaluator.expr index slots items)
      fun filled after => discipline.Filling base (index + items.length) filled after := by
  induction items generalizing before index slots with
  | nil => exact Conduct.ends_pure inv filling
  | cons item rest inductionHypothesis =>
      rw [List.forall_mem_cons] at admits
      refine (meets.expr admits.1 inv).bind fun {value evaluated} inv step good => ?_
      have filling := discipline.keepFilling step filling
      refine (discipline.fill inv filling good).bind fun {copy copied} inv _ filling => ?_
      have filled := inductionHypothesis inv admits.2 filling
      rw [Nat.add_right_comm, Nat.add_assoc] at filled
      exact filled

theorem evalArray {items : List Expr} (admits : discipline.Admits (.expr (.array items))) :
    discipline.Gives before (Scriptlet.evalArray evaluator.expr items) := by
  have itemsAdmitted : ∀ item ∈ items, discipline.Admits (.expr item) :=
    fun item member => discipline.admits_part (.item member) admits
  have filled := discipline.evalItems meets inv itemsAdmitted (discipline.startFilling inv)
  rw [Nat.zero_add] at filled
  exact Ensures.bind filled fun ⟨inv, step, filling⟩ =>
    discipline.makeArray admits inv step filling

theorem evalBinary {operator : BinaryOperator} {left right : Expr}
    (admits : discipline.Admits (.expr (.binary operator left right))) :
    discipline.Gives before (Scriptlet.evalBinary evaluator.expr operator left right) := by
  have leftAdmitted := discipline.admits_part (.left operator left right) admits
  have rightAdmitted := discipline.admits_part (.right operator left right) admits
  refine (meets.expr leftAdmitted inv).bind fun {value after} inv _ good => ?_
  split
  · refine (Conduct.ends_ofExcept inv Value.ordinary_of_asTruth).bind
      fun {truth after} inv step _ => ?_
    cases truth with
    | true => exact meets.expr rightAdmitted inv
    | false => exact Conduct.ends_pure inv (discipline.stable step good)
  · refine (Conduct.ends_ofExcept inv Value.ordinary_of_asTruth).bind
      fun {truth after} inv step _ => ?_
    cases truth with
    | true => exact Conduct.ends_pure inv (discipline.stable step good)
    | false => exact meets.expr rightAdmitted inv
  · next notAnd notOr =>
      exact (meets.expr rightAdmitted inv).bind fun inv _ _ =>
        discipline.applyBinary inv notAnd notOr _ _

theorem evalIndex {base offset : Expr}
    (admits : discipline.Admits (.expr (.index base offset))) :
    discipline.Gives before (Scriptlet.evalIndex evaluator.expr base offset) := by
  have baseAdmitted := discipline.admits_part (.base base offset) admits
  have offsetAdmitted := discipline.admits_part (.offset base offset) admits
  refine (meets.expr baseAdmitted inv).bind fun {value after} inv _ good => ?_
  refine (Conduct.ends_ofExcept inv Value.ordinary_of_asArray).bind
    fun {location after} inv found isArray => ?_
  rw [Value.eq_array_of_asArray isArray.2] at good
  have good := discipline.stable found good
  refine (meets.expr offsetAdmitted inv).bind fun inv step _ => ?_
  have good := discipline.stable step good
  refine (Conduct.ends_ofExcept inv Value.ordinary_of_asIndex).bind
    fun {index after} inv step _ => ?_
  apply Conduct.ends_get
  exact Conduct.ends_pure inv
    (discipline.readSlot index.toInt.toNat inv (discipline.stable step good))

theorem evalCall {name : String} {arguments : List Expr}
    (admits : discipline.Admits (.expr (.call name arguments))) :
    discipline.Gives before
      (Scriptlet.evalCall settings evaluator.expr evaluator.block name arguments) := by
  have argumentsAdmitted : ∀ argument ∈ arguments, discipline.Admits (.expr argument) :=
    fun argument member => discipline.admits_part (.argument name member) admits
  refine (discipline.callee inv name arguments.length).bind
    fun {declaration found} foundInv _ ⟨same, bound⟩ => ?_
  subst same
  have declarationAdmitted := discipline.declared inv bound
  have bodyAdmitted := discipline.admits_part (.declared _ _ _) declarationAdmitted
  refine (discipline.evalList meets inv argumentsAdmitted).bind
    fun {values given} inv _ good => ?_
  refine Ensures.bind (discipline.enterCall inv name declarationAdmitted good)
    fun {depth entered} ⟨enteredInv, isDepth, isEntered⟩ => ?_
  subst isDepth isEntered
  have executes : discipline.toConduct.Executes (given.enter name declaration values)
      (evaluator.block declaration.body) :=
    meets.execute (.block declaration.body) trivial bodyAdmitted enteredInv
  refine Ensures.bind (Ensures.weaken executes id (discipline.enterHalts inv))
    fun {flow ended} ⟨step, endedInv⟩ => ?_
  exact discipline.leave inv step endedInv

theorem execStore {base offset value : Expr}
    (admits : discipline.Admits (.statement (.store base offset value))) :
    discipline.Ends before (Scriptlet.execStore settings evaluator.expr base offset value)
      fun _ _ => True := by
  have baseAdmitted := discipline.admits_part (.storeBase base offset value) admits
  have offsetAdmitted := discipline.admits_part (.storeOffset base offset value) admits
  have valueAdmitted := discipline.admits_part (.stored base offset value) admits
  refine (meets.expr baseAdmitted inv).bind fun {array after} inv _ good => ?_
  refine (Conduct.ends_ofExcept inv Value.ordinary_of_asArray).bind
    fun {location after} inv found isArray => ?_
  rw [Value.eq_array_of_asArray isArray.2] at good
  have good := discipline.stable found good
  refine (meets.expr valueAdmitted inv).bind fun {stored after} inv step storedGood => ?_
  have good := discipline.stable step good
  refine (meets.expr offsetAdmitted inv).bind fun inv step _ => ?_
  have good := discipline.stable step good
  have storedGood := discipline.stable step storedGood
  refine (Conduct.ends_ofExcept inv Value.ordinary_of_asIndex).bind fun inv step _ => ?_
  exact discipline.writeSlot location _ inv (discipline.stable step good)
    (discipline.stable step storedGood)

theorem loopContinues {condition : Option Expr} {step : Statement} {body : Block}
    (admits : discipline.Admits (.loop condition step body)) :
    discipline.Ends before (Scriptlet.loopContinues evaluator.expr condition)
      fun _ _ => True := by
  cases condition with
  | none => exact Conduct.ends_pure inv trivial
  | some condition =>
      have conditionAdmitted :=
        discipline.admits_part (.turnCondition condition step body) admits
      exact (meets.expr conditionAdmitted inv).bind fun inv _ _ =>
        (Conduct.ends_ofExcept inv Value.ordinary_of_asTruth).weaken fun _ => trivial

theorem execChoice {branches : List Branch} {otherwise : Block}
    (conditions : ∀ branch ∈ branches, discipline.Admits (.expr branch.condition))
    (bodies : ∀ branch ∈ branches, discipline.Admits (.block branch.body))
    (last : discipline.Admits (.block otherwise)) :
    discipline.toConduct.Executes before
      (Scriptlet.execChoice evaluator.expr evaluator.block otherwise branches) := by
  induction branches generalizing before with
  | nil => exact meets.execute (.block otherwise) trivial last inv
  | cons branch rest inductionHypothesis =>
      obtain ⟨condition, body⟩ := branch
      rw [List.forall_mem_cons] at conditions bodies
      refine (meets.expr conditions.1 inv).thenExecutes fun inv _ _ => ?_
      refine (Conduct.ends_ofExcept inv Value.ordinary_of_asTruth).thenExecutes
        fun {truth after} inv _ _ => ?_
      cases truth with
      | true => exact meets.execute (.block body) trivial bodies.1 inv
      | false => exact inductionHypothesis inv conditions.2 bodies.2

theorem execList {block : Block}
    (admits : ∀ statement ∈ block, discipline.Admits (.statement statement)) :
    discipline.toConduct.Executes before (Scriptlet.execList evaluator.statement block) := by
  induction block generalizing before with
  | nil => exact Conduct.executes_proceed inv
  | cons statement rest inductionHypothesis =>
      rw [List.forall_mem_cons] at admits
      have executes : discipline.toConduct.Executes before (evaluator.statement statement) :=
        meets.execute (.statement statement) trivial admits.1 inv
      exact executes.bind (fun _ => rfl) fun inv => inductionHypothesis inv admits.2

end

/-! ## Layers -/

section

variable {discipline} {evaluator : Evaluator} {before : Machine}
  (meets : discipline.Meets evaluator) (inv : discipline.Inv before)

include meets inv

theorem Meets.exprBody {expr : Expr} (admits : discipline.Admits (.expr expr)) :
    discipline.Gives before (evaluator.exprBody settings expr) := by
  cases expr with
  | integer value => exact Conduct.ends_pure inv (discipline.integer _ _)
  | name name => exact discipline.readName name inv
  | array items => exact discipline.evalArray meets inv admits
  | unary operator operand =>
      have operandAdmitted := discipline.admits_part (.operand operator operand) admits
      exact (meets.expr operandAdmitted inv).bind fun inv _ _ =>
        discipline.applyUnary inv operator _
  | binary operator left right => exact discipline.evalBinary meets inv admits
  | index base offset => exact discipline.evalIndex meets inv admits
  | call name arguments => exact discipline.evalCall meets inv admits

theorem Meets.statementBody {statement : Statement}
    (admits : discipline.Admits (.statement statement)) :
    discipline.toConduct.Executes before (evaluator.statementBody settings statement) := by
  cases statement with
  | assign name value =>
      have valueAdmitted := discipline.admits_part (.assigned name value) admits
      refine (meets.expr valueAdmitted inv).thenExecutes fun {assigned after} inv _ good => ?_
      obtain ⟨step, inv⟩ := discipline.assign admits inv good
      exact ⟨step, fun _ => inv⟩
  | store base offset value =>
      exact (discipline.execStore meets inv admits).thenExecutes fun inv _ _ =>
        Conduct.executes_proceed inv
  | evaluate expr =>
      have exprAdmitted := discipline.admits_part (.evaluated expr) admits
      exact (meets.expr exprAdmitted inv).thenExecutes fun inv _ _ =>
        Conduct.executes_proceed inv
  | choose branches otherwise =>
      exact discipline.execChoice meets inv
        (fun branch member => discipline.admits_part (.condition member otherwise) admits)
        (fun branch member => discipline.admits_part (.guarded member otherwise) admits)
        (discipline.admits_part (.otherwise branches otherwise) admits)
  | loop initial condition step body =>
      have initialAdmitted := discipline.admits_part (.initial initial condition step body) admits
      have turnsAdmitted := discipline.admits_part (.turns initial condition step body) admits
      have executes : discipline.toConduct.Executes before (evaluator.statement initial) :=
        meets.execute (.statement initial) trivial initialAdmitted inv
      exact executes.bind (fun _ => rfl) fun inv =>
        meets.execute (.loop condition step body) trivial turnsAdmitted inv
  | declare name parameters body =>
      obtain ⟨step, inv⟩ := discipline.declare admits inv
      exact ⟨step, fun _ => inv⟩
  | giveBack value =>
      have valueAdmitted := discipline.admits_part (.returned value) admits
      refine (meets.expr valueAdmitted inv).thenExecutes fun {returned after} inv _ good => ?_
      exact ⟨discipline.giveBack inv good, nofun⟩
  | skip => exact Conduct.executes_proceed inv

theorem Meets.loopBody {condition : Option Expr} {step : Statement} {body : Block}
    (admits : discipline.Admits (.loop condition step body)) :
    discipline.toConduct.Executes before (evaluator.loopBody condition step body) := by
  have bodyAdmitted := discipline.admits_part (.turnBody condition step body) admits
  have stepAdmitted := discipline.admits_part (.turnStep condition step body) admits
  refine (discipline.loopContinues meets inv admits).thenExecutes
    fun {goesOn after} inv _ _ => ?_
  cases goesOn with
  | false => exact Conduct.executes_proceed inv
  | true =>
      have executesBody : discipline.toConduct.Executes after (evaluator.block body) :=
        meets.execute (.block body) trivial bodyAdmitted inv
      refine executesBody.bind (fun _ => rfl) fun {stepped} inv => ?_
      have executesStep : discipline.toConduct.Executes stepped (evaluator.statement step) :=
        meets.execute (.statement step) trivial stepAdmitted inv
      exact executesStep.bind (fun _ => rfl) fun inv =>
        meets.execute (.loop condition step body) trivial admits inv

end

/-- A layer above an evaluator that keeps to the discipline keeps to it. -/
theorem Meets.next {discipline : Discipline settings} {evaluator : Evaluator}
    (meets : discipline.Meets evaluator) : discipline.Meets (evaluator.next settings) where
  expr admits inv := (discipline.tick inv).bind fun inv _ _ => meets.exprBody inv admits
  execute node _ isExecuted admits inv := by
    cases node with
    | expr expr => cases isExecuted
    | statement statement =>
        exact (discipline.tick inv).thenExecutes fun inv _ _ => meets.statementBody inv admits
    | loop condition step body => exact meets.loopBody inv admits
    | block block =>
        exact (discipline.tick inv).thenExecutes fun inv _ _ =>
          discipline.execList meets inv fun statement member =>
            discipline.admits_part (.statement member) admits

/-- Evaluation with any fuel keeps to the discipline. -/
theorem meets_atFuel (fuel : Nat) : discipline.Meets (Evaluator.atFuel settings fuel) := by
  induction fuel with
  | zero =>
      rw [Evaluator.atFuel_zero]
      refine ⟨fun _ inv => discipline.outOfFuel inv, fun node _ isExecuted _ inv => ?_⟩
      cases node with
      | expr expr => cases isExecuted
      | statement | loop | block => exact discipline.outOfFuel inv
  | succ fuel inductionHypothesis =>
      rw [Evaluator.atFuel_succ]
      exact inductionHypothesis.next

/-! ## Visits -/

section

variable {discipline} {evaluator : Evaluator} {before after : Machine} {part : Node}
  (meets : discipline.Meets evaluator)

include meets

theorem Meets.of_choiceOpens {branches : List Branch} {otherwise : Block}
    (opens : ChoiceOpens evaluator otherwise branches before part after)
    (inv : discipline.Inv before)
    (conditions : ∀ branch ∈ branches, discipline.Admits (.expr branch.condition))
    (bodies : ∀ branch ∈ branches, discipline.Admits (.block branch.body))
    (last : discipline.Admits (.block otherwise)) :
    discipline.Admits part ∧ discipline.Inv after := by
  induction opens with
  | condition condition body rest machine =>
      exact ⟨conditions _ List.mem_cons_self, inv⟩
  | holds body rest evaluated truth =>
      obtain ⟨inv, _, _⟩ := (meets.expr (conditions _ List.mem_cons_self) inv).of_ok evaluated
      exact ⟨bodies _ List.mem_cons_self, inv⟩
  | later body evaluated truth _ inductionHypothesis =>
      obtain ⟨inv, _, _⟩ := (meets.expr (conditions _ List.mem_cons_self) inv).of_ok evaluated
      exact inductionHypothesis inv
        (fun branch member => conditions branch (List.mem_cons_of_mem _ member))
        (fun branch member => bodies branch (List.mem_cons_of_mem _ member))
  | otherwise machine => exact ⟨last, inv⟩

/-- What an admitted node takes up is admitted, and the invariant holds there. -/
theorem Meets.of_opens {node : Node} (opens : Opens settings evaluator node before part after)
    (admits : discipline.Admits node) (inv : discipline.Inv before) :
    discipline.Admits part ∧ discipline.Inv after := by
  have admitted : ∀ {inside : Node}, inside.Part node → discipline.Admits inside :=
    fun isPart => discipline.admits_part isPart admits
  cases opens with
  | @item done _ _ _ item rest evaluated =>
      have doneAdmitted : ∀ expr ∈ done, discipline.Admits (.expr expr) :=
        fun expr member => admitted (.item (List.mem_append_left _ member))
      have filled := discipline.evalItems meets inv doneAdmitted (discipline.startFilling inv)
      exact ⟨admitted (.item (by simp)), (filled.of_ok evaluated).1⟩
  | operand operator operand => exact ⟨admitted (.operand operator operand), inv⟩
  | left operator left right => exact ⟨admitted (.left operator left right), inv⟩
  | right right evaluated needed =>
      have evaluates := meets.expr (admitted (.left _ _ right)) inv
      exact ⟨admitted (.right _ _ right), (evaluates.of_ok evaluated).1⟩
  | base base offset => exact ⟨admitted (.base base offset), inv⟩
  | offset offset evaluated =>
      have evaluates := meets.expr (admitted (.base _ offset)) inv
      exact ⟨admitted (.offset _ offset), (evaluates.of_ok evaluated).1⟩
  | @argument name done _ _ _ _ argument rest found evaluated =>
      have doneAdmitted : ∀ expr ∈ done, discipline.Admits (.expr expr) :=
        fun expr member => admitted (.argument name (List.mem_append_left _ member))
      have evaluates := discipline.evalList meets inv doneAdmitted
      exact ⟨admitted (.argument name (by simp)), (evaluates.of_ok evaluated).1⟩
  | @called name arguments values declaration _ _ given _ found evaluated enters =>
      obtain ⟨_, _, _, bound⟩ := (discipline.callee inv name arguments.length).of_ok found
      have declarationAdmitted := discipline.declared inv bound
      have argumentsAdmitted : ∀ argument ∈ arguments, discipline.Admits (.expr argument) :=
        fun argument member => admitted (.argument name member)
      obtain ⟨givenInv, _, good⟩ :=
        (discipline.evalList meets inv argumentsAdmitted).of_ok evaluated
      have entersFrame := discipline.enterCall givenInv name declarationAdmitted good
      exact ⟨discipline.admits_part (.declared _ _ _) declarationAdmitted,
        (entersFrame.of_ok enters).1⟩
  | assigned name value => exact ⟨admitted (.assigned name value), inv⟩
  | storeBase base offset value => exact ⟨admitted (.storeBase base offset value), inv⟩
  | stored offset value evaluated =>
      have evaluates := meets.expr (admitted (.storeBase _ offset value)) inv
      exact ⟨admitted (.stored _ offset value), (evaluates.of_ok evaluated).1⟩
  | storeOffset offset evaluated evaluatedValue =>
      have evaluates := meets.expr (admitted (.storeBase _ offset _)) inv
      have evaluatesValue :=
        meets.expr (admitted (.stored _ offset _)) (evaluates.of_ok evaluated).1
      exact ⟨admitted (.storeOffset _ offset _), (evaluatesValue.of_ok evaluatedValue).1⟩
  | evaluated expr => exact ⟨admitted (.evaluated expr), inv⟩
  | choice opens =>
      exact meets.of_choiceOpens opens inv (fun _ member => admitted (.condition member _))
        (fun _ member => admitted (.guarded member _)) (admitted (.otherwise _ _))
  | initial initial condition step body =>
      exact ⟨admitted (.initial initial condition step body), inv⟩
  | turns condition step body executed =>
      have executes := meets.execute (.statement _) trivial
        (admitted (.initial _ condition step body)) inv
      exact ⟨admitted (.turns _ condition step body), (executes.of_ok executed).2 rfl⟩
  | returned value => exact ⟨admitted (.returned value), inv⟩
  | turnCondition condition step body => exact ⟨admitted (.turnCondition condition step body), inv⟩
  | turnBody step body goesOn =>
      have continues := discipline.loopContinues meets inv admits
      exact ⟨admitted (.turnBody _ step body), (continues.of_ok goesOn).1⟩
  | turnStep step goesOn executed =>
      have continues := discipline.loopContinues meets inv admits
      have executes := meets.execute (.block _) trivial (admitted (.turnBody _ step _))
        (continues.of_ok goesOn).1
      exact ⟨admitted (.turnStep _ step _), (executes.of_ok executed).2 rfl⟩
  | nextTurn goesOn executed executedStep =>
      have continues := discipline.loopContinues meets inv admits
      have executes := meets.execute (.block _) trivial (admitted (.turnBody _ _ _))
        (continues.of_ok goesOn).1
      have executesStep := meets.execute (.statement _) trivial (admitted (.turnStep _ _ _))
        ((executes.of_ok executed).2 rfl)
      exact ⟨admits, (executesStep.of_ok executedStep).2 rfl⟩
  | @statement done _ _ statement rest executed =>
      have doneAdmitted : ∀ inside ∈ done, discipline.Admits (.statement inside) :=
        fun inside member => admitted (.statement (List.mem_append_left _ member))
      have executes := discipline.execList meets inv doneAdmitted
      exact ⟨admitted (.statement (by simp)), (executes.of_ok executed).2 rfl⟩

end

/-- Counting a node keeps to the discipline. -/
theorem count (node : Node) {before : Machine} (inv : discipline.Inv before) :
    discipline.Ends before (node.count settings) fun _ _ => True := by
  cases node with
  | loop condition step body => exact Conduct.ends_pure inv trivial
  | expr | statement | block => exact discipline.tick inv

/-- A visit that begins inside one of an admitted node, where the invariant
holds, is such a visit too. -/
theorem of_begins {outer inner : Visit} (begins : outer.Begins settings inner)
    (admits : discipline.Admits outer.node) (inv : discipline.Inv outer.machine) :
    discipline.Admits inner.node ∧ discipline.Inv inner.machine := by
  cases begins with
  | @intro node part fuel before counted after counts opens =>
      obtain ⟨countedInv, _, _⟩ := (discipline.count node inv).of_ok counts
      exact (discipline.meets_atFuel fuel).of_opens opens admits countedInv

/-- All visits made inside a visit of an admitted node, where the invariant
holds, are such visits. -/
theorem of_makes {outer inner : Visit} (makes : outer.Makes settings inner)
    (admits : discipline.Admits outer.node) (inv : discipline.Inv outer.machine) :
    discipline.Admits inner.node ∧ discipline.Inv inner.machine := by
  induction makes with
  | refl => exact ⟨admits, inv⟩
  | tail _ begins inductionHypothesis =>
      exact discipline.of_begins begins inductionHypothesis.1 inductionHypothesis.2

end Discipline

end Scriptlet
