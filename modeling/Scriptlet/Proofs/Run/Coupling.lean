import Mathlib.Data.List.Forall2
import Scriptlet.Proofs.Run.Contract
import Scriptlet.Proofs.Run.Visits
import Scriptlet.Proofs.Store.Match

/-!
Contract: two runs of a program that go side by side.

Owns:
- pairings, which say what holds of the machines of two runs, and pairs of steps
  that keep to one;
- couplings: pairings that the primitive steps of evaluation keep to, as far as
  they use allowed names;
- evaluation keeps to every coupling, node by node.

The two runs take the same decisions, so they evaluate the same nodes: values that
match count as true alike, and fail alike where an integer or an array is needed.
What is known of the first run alone comes from a contract.
-/

namespace Scriptlet

open Run

/-! ## Matching values -/

namespace Matching

variable {matching : Matching} {value other : Value}

theorem Values.asInteger_eq (matched : matching.Values value other) (operation : String) :
    value.asInteger operation = other.asInteger operation := by
  cases matched <;> rfl

theorem Values.asTruth_eq (matched : matching.Values value other) (operation : String) :
    value.asTruth operation = other.asTruth operation := by
  rw [Value.asTruth, Value.asTruth, matched.asInteger_eq]

theorem Values.asIndex_eq (matched : matching.Values value other) :
    value.asIndex = other.asIndex := by
  rw [Value.asIndex, Value.asIndex, matched.asInteger_eq]

/-- Ways of going on that match: what was returned does. -/
inductive Flows (matching : Matching) : Flow → Flow → Prop where
  | proceed : Flows matching .proceed .proceed
  | returned {value other : Value} (matched : matching.Values value other) :
      Flows matching (.returned value) (.returned other)

theorem Flows.isReturned_eq {flow other : Flow} (matched : matching.Flows flow other) :
    flow.isReturned = other.isReturned := by
  cases matched <;> rfl

end Matching

/-! ## Pairings -/

/-- What holds of the machines of two runs while they go on and where they halt,
and the contract that the first of them keeps to. -/
structure Pairing (settings : Settings) where
  contract : Contract settings
  matching : Matching
  Names : String → Prop
  Machines : Machine → Machine → Prop
  Halted : Machine → Machine → Prop
  halted : ∀ {first second : Machine}, Machines first second → Halted first second

namespace Pairing

variable {settings : Settings} {pairing : Pairing settings} {α β γ δ : Type}
  {first second : Machine}

/-- Machines from which two runs go on side by side. -/
structure Together (pairing : Pairing settings) (first second : Machine) : Prop where
  inv : pairing.contract.Inv first
  machines : pairing.Machines first second

/-- Whether two steps from two machines keep to a pairing, with results as told. -/
def Pairs (pairing : Pairing settings) (post : α → β → Prop) (left : Run α) (right : Run β)
    (first second : Machine) : Prop :=
  Coupled (fun result after other otherAfter => pairing.Machines after otherAfter ∧
    post result other) pairing.Halted (left first) (right second)

/-- Whether two steps keep to a pairing from all machines that are paired. -/
def Couples (pairing : Pairing settings) (post : α → β → Prop) (left : Run α) (right : Run β) :
    Prop :=
  ∀ first second : Machine, pairing.Together first second →
    pairing.Pairs post left right first second

theorem pairs_pure {post : α → β → Prop} {result : α} {other : β}
    (together : pairing.Together first second) (holds : post result other) :
    pairing.Pairs post (pure result) (pure other) first second :=
  .ok ⟨together.machines, holds⟩

theorem pairs_throw {post : α → β → Prop} (together : pairing.Together first second)
    (halt : Halt) : pairing.Pairs post (throw halt) (throw halt) first second :=
  .error (pairing.halted together.machines)

/-- Steps that read their machines first end as the rest does. -/
theorem pairs_get {leftNext : Machine → Run α} {rightNext : Machine → Run β}
    {post : α → β → Prop}
    (rest : pairing.Pairs post (leftNext first) (rightNext second) first second) :
    pairing.Pairs post (get >>= leftNext) (get >>= rightNext) first second :=
  rest

theorem Pairs.bind {left : Run α} {right : Run β} {leftNext : α → Run γ} {rightNext : β → Run δ}
    {post : α → β → Prop} {nextPost : γ → δ → Prop} {known : α → Machine → Prop}
    (pairs : pairing.Pairs post left right first second)
    (ends : pairing.contract.Ends first left known)
    (rest : ∀ {result after other otherAfter}, pairing.Together after otherAfter →
      known result after → post result other →
      pairing.Pairs nextPost (leftNext result) (rightNext other) after otherAfter) :
    pairing.Pairs nextPost (left >>= leftNext) (right >>= rightNext) first second := by
  have leaves : ∀ {result after}, left first = .ok result after →
      pairing.contract.Inv after ∧ known result after := by
    intro result after success
    have inv := ends.inv
    rw [final_of_ok success] at inv
    exact ⟨inv, ends.result success⟩
  refine (Coupled.and_left pairs leaves).bind ?_
  rintro result after other otherAfter ⟨⟨inv, isKnown⟩, machines, holds⟩
  exact rest ⟨inv, machines⟩ isKnown holds

theorem pairs_ofExcept (together : pairing.Together first second) (result : Except RunError α) :
    pairing.Pairs Eq (ofExcept result) (ofExcept result) first second := by
  cases result with
  | ok value => exact pairs_pure together rfl
  | error error => exact pairs_throw together _

/-- Where matching values are looked at the same way, the rest may be told from
what both are seen as. -/
theorem pairs_ofExcept_bind (together : pairing.Together first second)
    {seen otherSeen : Except RunError α} (same : seen = otherSeen) {leftNext : α → Run γ}
    {rightNext : α → Run δ} {nextPost : γ → δ → Prop}
    (rest : ∀ result, pairing.Pairs nextPost (leftNext result) (rightNext result) first second) :
    pairing.Pairs nextPost (ofExcept seen >>= leftNext) (ofExcept otherSeen >>= rightNext) first
      second := by
  subst same
  cases seen with
  | ok result => exact rest result
  | error error => exact pairs_throw together _

/-- An array that is needed is there on both sides or on neither. -/
theorem pairs_asArray_bind (together : pairing.Together first second) {value other : Value}
    (matched : pairing.matching.Values value other) {leftNext : Nat → Run γ}
    {rightNext : Nat → Run δ} {nextPost : γ → δ → Prop}
    (rest : ∀ {location otherLocation}, pairing.matching.Locations location otherLocation →
      pairing.Pairs nextPost (leftNext location) (rightNext otherLocation) first second) :
    pairing.Pairs nextPost (ofExcept value.asArray >>= leftNext)
      (ofExcept other.asArray >>= rightNext) first second := by
  cases matched with
  | array matched => exact rest matched
  | integer | function => exact pairs_throw together _

/-- Whether an expression is evaluated in pairs, with the first evaluation under the
contract. -/
structure Gives (pairing : Pairing settings) (eval : Expr → Run Value) (expr : Expr) : Prop where
  contract : pairing.contract.Gives (eval expr)
  couples : pairing.Couples pairing.matching.Values (eval expr) (eval expr)

theorem Gives.bind {eval : Expr → Run Value} {expr : Expr} (gives : pairing.Gives eval expr)
    (together : pairing.Together first second) {leftNext : Value → Run γ}
    {rightNext : Value → Run δ} {nextPost : γ → δ → Prop}
    (rest : ∀ {value after other otherAfter}, pairing.Together after otherAfter →
      pairing.contract.Good after value → pairing.matching.Values value other →
      pairing.Pairs nextPost (leftNext value) (rightNext other) after otherAfter) :
    pairing.Pairs nextPost (eval expr >>= leftNext) (eval expr >>= rightNext) first second :=
  (gives.couples first second together).bind (gives.contract together.inv) rest

/-- Whether a step of a statement is taken in pairs, with the first one under the
contract. -/
structure Executes (pairing : Pairing settings) (step : Run Flow) : Prop where
  contract : pairing.contract.Keeps step
  couples : pairing.Couples pairing.matching.Flows step step

theorem Executes.bind {step : Run Flow} (executes : pairing.Executes step)
    (together : pairing.Together first second) {leftNext : Flow → Run γ}
    {rightNext : Flow → Run δ} {nextPost : γ → δ → Prop}
    (rest : ∀ {flow after other otherAfter}, pairing.Together after otherAfter →
      pairing.matching.Flows flow other →
      pairing.Pairs nextPost (leftNext flow) (rightNext other) after otherAfter) :
    pairing.Pairs nextPost (step >>= leftNext) (step >>= rightNext) first second :=
  (executes.couples first second together).bind (executes.contract together.inv)
    fun together _ flows => rest together flows

theorem couples_evalList {eval : Expr → Run Value} {exprs : List Expr}
    (gives : ∀ expr ∈ exprs, pairing.Gives eval expr)
    (contract : ∀ expr, pairing.contract.Gives (eval expr)) :
    pairing.Couples (List.Forall₂ pairing.matching.Values) (evalList eval exprs)
      (evalList eval exprs) := by
  induction exprs with
  | nil => exact fun _ _ together => pairs_pure together .nil
  | cons expr rest inductionHypothesis =>
      intro first second together
      rw [List.forall_mem_cons] at gives
      refine gives.1.bind together fun together _ matched => ?_
      refine (inductionHypothesis gives.2 _ _ together).bind
        (Terms.ends_evalList contract rest together.inv) fun together _ others => ?_
      exact pairs_pure together (.cons matched others)

end Pairing

/-! ## Couplings -/

open Pairing

/-- A pairing that the primitive steps under some settings keep to. -/
structure Coupling (settings : Settings) extends Pairing settings where
  returnName_allowed : Names returnName
  function_of_declare : ∀ {name : String} {parameters : List String} {body : Block},
    (Node.statement (.declare name parameters body)).UsesOnly Names →
      matching.Functions ⟨name, parameters, body⟩
  tick : toPairing.Couples Eq (tick settings) (tick settings)
  readName : ∀ {name : String}, Names name →
    toPairing.Couples matching.Values (readName settings name) (readName settings name)
  writeName : ∀ {name : String} {value other : Value}, Names name →
    matching.Values value other →
    toPairing.Couples Eq (writeName name value) (writeName name other)
  readSlot : ∀ {location other : Nat} (index : Int64), matching.Locations location other →
    toPairing.Couples matching.Values (readSlot location index) (readSlot other index)
  writeSlot : ∀ {location otherLocation : Nat} (index : Int64) {value other : Value},
    matching.Locations location otherLocation → matching.Values value other →
    toPairing.Couples Eq (writeSlot settings location index value)
      (writeSlot settings otherLocation index other)
  equal : ∀ {left right otherLeft otherRight : Value}, matching.Values left otherLeft →
    matching.Values right otherRight →
    toPairing.Couples Eq (equal left right) (equal otherLeft otherRight)
  array : ∀ {eval : Expr → Run Value} {items : List Expr},
    (∀ expr, contract.Gives (eval expr)) → (∀ item ∈ items, toPairing.Gives eval item) →
    toPairing.Couples matching.Values (evalArray eval items) (evalArray eval items)
  call : ∀ {eval : Expr → Run Value} {exec : Block → Run Flow} {name : String}
    {arguments : List Expr}, Names name → (∀ expr, contract.Gives (eval expr)) →
    (∀ argument ∈ arguments, toPairing.Gives eval argument) →
    (∀ block, (Node.block block).UsesOnly Names → toPairing.Executes (exec block)) →
    toPairing.Couples matching.Values (evalCall settings eval exec name arguments)
      (evalCall settings eval exec name arguments)

namespace Coupling

variable {settings : Settings} {coupling : Coupling settings} {first second : Machine}

/-! ## The parts of a layer -/

section

variable {left right otherLeft otherRight : Value}
  (together : coupling.Together first second)

include together

theorem applyUnary (operator : UnaryOperator) (matched : coupling.matching.Values left otherLeft) :
    coupling.Pairs coupling.matching.Values (Scriptlet.applyUnary operator left)
      (Scriptlet.applyUnary operator otherLeft) first second := by
  cases operator with
  | not =>
      exact pairs_ofExcept_bind together (matched.asTruth_eq _) fun _ =>
        pairs_pure together (.integer _)
  | negate =>
      exact pairs_ofExcept_bind together (matched.asInteger_eq _) fun _ =>
        pairs_pure together (.integer _)
  | plus =>
      exact pairs_ofExcept_bind together (matched.asInteger_eq _) fun _ =>
        pairs_pure together (.integer _)

theorem applyBinary (operator : BinaryOperator)
    (leftMatched : coupling.matching.Values left otherLeft)
    (rightMatched : coupling.matching.Values right otherRight) :
    coupling.Pairs coupling.matching.Values (Scriptlet.applyBinary operator left right)
      (Scriptlet.applyBinary operator otherLeft otherRight) first second := by
  have compares := coupling.equal leftMatched rightMatched _ _ together
  have ends := coupling.contract.equal together.inv left right
  unfold Scriptlet.applyBinary
  split
  · refine compares.bind ends fun together _ same => ?_
    subst same
    exact pairs_pure together (.integer _)
  · refine compares.bind ends fun together _ same => ?_
    subst same
    exact pairs_pure together (.integer _)
  · exact pairs_ofExcept_bind together (leftMatched.asInteger_eq _) fun _ =>
      pairs_ofExcept_bind together (rightMatched.asInteger_eq _) fun _ =>
        pairs_ofExcept_bind together rfl fun _ => pairs_pure together (.integer _)

end

section

variable {eval : Expr → Run Value} {exec : Block → Run Flow}

theorem evalBinary (operator : BinaryOperator) {left right : Expr}
    (givesLeft : coupling.Gives eval left) (givesRight : coupling.Gives eval right) :
    coupling.Couples coupling.matching.Values (Scriptlet.evalBinary eval operator left right)
      (Scriptlet.evalBinary eval operator left right) := by
  intro first second together
  refine givesLeft.bind together fun together _ matched => ?_
  split
  · refine pairs_ofExcept_bind together (matched.asTruth_eq _) fun truth => ?_
    cases truth with
    | true => exact givesRight.couples _ _ together
    | false => exact pairs_pure together matched
  · refine pairs_ofExcept_bind together (matched.asTruth_eq _) fun truth => ?_
    cases truth with
    | true => exact pairs_pure together matched
    | false => exact givesRight.couples _ _ together
  · exact givesRight.bind together fun together _ rightMatched =>
      applyBinary together operator matched rightMatched

theorem evalIndex {base offset : Expr} (givesBase : coupling.Gives eval base)
    (givesOffset : coupling.Gives eval offset) :
    coupling.Couples coupling.matching.Values (Scriptlet.evalIndex eval base offset)
      (Scriptlet.evalIndex eval base offset) := by
  intro first second together
  refine givesBase.bind together fun together _ matched => ?_
  refine pairs_asArray_bind together matched fun located => ?_
  refine givesOffset.bind together fun together _ matched => ?_
  exact pairs_ofExcept_bind together matched.asIndex_eq fun index =>
    coupling.readSlot index located _ _ together

theorem execStore {base offset value : Expr} (givesBase : coupling.Gives eval base)
    (givesOffset : coupling.Gives eval offset) (givesValue : coupling.Gives eval value) :
    coupling.Couples Eq (Scriptlet.execStore settings eval base offset value)
      (Scriptlet.execStore settings eval base offset value) := by
  intro first second together
  refine givesBase.bind together fun together _ matched => ?_
  refine pairs_asArray_bind together matched fun located => ?_
  refine givesValue.bind together fun together _ stored => ?_
  refine givesOffset.bind together fun together _ matched => ?_
  exact pairs_ofExcept_bind together matched.asIndex_eq fun index =>
    coupling.writeSlot index located stored _ _ together

theorem loopContinues {condition : Option Expr}
    (gives : ∀ expr, condition = some expr → coupling.Gives eval expr) :
    coupling.Couples Eq (Scriptlet.loopContinues eval condition)
      (Scriptlet.loopContinues eval condition) := by
  intro first second together
  cases condition with
  | none => exact pairs_pure together rfl
  | some condition =>
      refine (gives condition rfl).bind together fun together _ matched => ?_
      rw [matched.asTruth_eq]
      exact pairs_ofExcept together _

theorem execChoice {branches : List Branch} {otherwise : Block}
    (gives : ∀ branch ∈ branches, coupling.Gives eval branch.condition)
    (executes : ∀ branch ∈ branches, coupling.Executes (exec branch.body))
    (executesLast : coupling.Executes (exec otherwise)) :
    coupling.Couples coupling.matching.Flows (Scriptlet.execChoice eval exec otherwise branches)
      (Scriptlet.execChoice eval exec otherwise branches) := by
  induction branches with
  | nil => exact executesLast.couples
  | cons branch rest inductionHypothesis =>
      intro first second together
      obtain ⟨condition, body⟩ := branch
      rw [List.forall_mem_cons] at gives executes
      refine gives.1.bind together fun together _ matched => ?_
      refine pairs_ofExcept_bind together (matched.asTruth_eq _) fun truth => ?_
      cases truth with
      | true => exact executes.1.couples _ _ together
      | false => exact inductionHypothesis gives.2 executes.2 _ _ together

theorem execList {exec : Statement → Run Flow} {block : Block}
    (executes : ∀ statement ∈ block, coupling.Executes (exec statement)) :
    coupling.Couples coupling.matching.Flows (Scriptlet.execList exec block)
      (Scriptlet.execList exec block) := by
  induction block with
  | nil => exact fun _ _ together => pairs_pure together .proceed
  | cons statement rest inductionHypothesis =>
      intro first second together
      rw [List.forall_mem_cons] at executes
      refine executes.1.bind together fun together flows => ?_
      cases flows with
      | proceed => exact inductionHypothesis executes.2 _ _ together
      | returned matched => exact pairs_pure together (.returned matched)

end

/-! ## Layers -/

/-- Whether an evaluator keeps to a coupling on the nodes in which only allowed
names occur. -/
structure Respects (coupling : Coupling settings) (evaluator : Evaluator) : Prop where
  expr : ∀ {expr : Expr}, (Node.expr expr).UsesOnly coupling.Names →
    coupling.Couples coupling.matching.Values (evaluator.expr expr) (evaluator.expr expr)
  statement : ∀ {statement : Statement}, (Node.statement statement).UsesOnly coupling.Names →
    coupling.Couples coupling.matching.Flows (evaluator.statement statement)
      (evaluator.statement statement)
  loop : ∀ {condition : Option Expr} {step : Statement} {body : Block},
    (Node.loop condition step body).UsesOnly coupling.Names →
    coupling.Couples coupling.matching.Flows (evaluator.loop condition step body)
      (evaluator.loop condition step body)
  block : ∀ {block : Block}, (Node.block block).UsesOnly coupling.Names →
    coupling.Couples coupling.matching.Flows (evaluator.block block) (evaluator.block block)

section

variable {evaluator : Evaluator} (respects : coupling.Respects evaluator)
  (meets : coupling.contract.Meets evaluator)

include respects meets

theorem Respects.gives {expr : Expr} (uses : (Node.expr expr).UsesOnly coupling.Names) :
    coupling.Gives evaluator.expr expr :=
  ⟨meets.expr expr, respects.expr uses⟩

theorem Respects.executesBlock {block : Block} (uses : (Node.block block).UsesOnly coupling.Names) :
    coupling.Executes (evaluator.block block) :=
  ⟨meets.block block, respects.block uses⟩

theorem Respects.executesStatement {statement : Statement}
    (uses : (Node.statement statement).UsesOnly coupling.Names) :
    coupling.Executes (evaluator.statement statement) :=
  ⟨meets.statement statement, respects.statement uses⟩

theorem Respects.exprBody {expr : Expr} (uses : (Node.expr expr).UsesOnly coupling.Names) :
    coupling.Couples coupling.matching.Values (evaluator.exprBody settings expr)
      (evaluator.exprBody settings expr) := by
  cases expr with
  | integer value => exact fun _ _ together => pairs_pure together (.integer value)
  | name name => exact coupling.readName (uses.spelled rfl)
  | array items =>
      exact coupling.array meets.expr fun item member =>
        respects.gives meets (uses.part (.item member))
  | unary operator operand =>
      have gives := respects.gives meets (uses.part (.operand operator operand))
      exact fun _ _ together => gives.bind together fun together _ matched =>
        applyUnary together operator matched
  | binary operator left right =>
      exact evalBinary operator (respects.gives meets (uses.part (.left operator left right)))
        (respects.gives meets (uses.part (.right operator left right)))
  | index base offset =>
      exact evalIndex (respects.gives meets (uses.part (.base base offset)))
        (respects.gives meets (uses.part (.offset base offset)))
  | call name arguments =>
      exact coupling.call (uses.spelled rfl) meets.expr
        (fun argument member => respects.gives meets (uses.part (.argument name member)))
        fun block usesBlock => respects.executesBlock meets usesBlock

theorem Respects.statementBody {statement : Statement}
    (uses : (Node.statement statement).UsesOnly coupling.Names) :
    coupling.Couples coupling.matching.Flows (evaluator.statementBody settings statement)
      (evaluator.statementBody settings statement) := by
  intro first second together
  cases statement with
  | assign name value =>
      refine (respects.gives meets (uses.part (.assigned name value))).bind together
        fun together good matched => ?_
      exact (coupling.writeName (uses.spelled rfl) matched _ _ together).bind
        (coupling.contract.writeName name together.inv good) fun together _ _ =>
          pairs_pure together .proceed
  | store base offset value =>
      have stores := execStore (respects.gives meets (uses.part (.storeBase base offset value)))
        (respects.gives meets (uses.part (.storeOffset base offset value)))
        (respects.gives meets (uses.part (.stored base offset value)))
      exact (stores _ _ together).bind
        (coupling.contract.execStore meets.expr base offset value together.inv)
        fun together _ _ => pairs_pure together .proceed
  | evaluate expr =>
      exact (respects.gives meets (uses.part (.evaluated expr))).bind together
        fun together _ _ => pairs_pure together .proceed
  | choose branches otherwise =>
      exact execChoice
        (fun branch member => respects.gives meets (uses.part (.condition member otherwise)))
        (fun branch member => respects.executesBlock meets (uses.part (.guarded member otherwise)))
        (respects.executesBlock meets (uses.part (.otherwise branches otherwise))) _ _ together
  | loop initial condition step body =>
      refine (respects.executesStatement meets
        (uses.part (.initial initial condition step body))).bind together
          fun together flows => ?_
      cases flows with
      | proceed =>
          exact respects.loop (uses.part (.turns initial condition step body)) _ _ together
      | returned matched => exact pairs_pure together (.returned matched)
  | declare name parameters body =>
      have matched := Matching.Values.function (coupling.function_of_declare uses)
      exact (coupling.writeName (uses.spelled (.inl rfl)) matched _ _ together).bind
        (coupling.contract.declare name _ together.inv) fun together _ _ =>
          pairs_pure together .proceed
  | giveBack value =>
      refine (respects.gives meets (uses.part (.returned value))).bind together
        fun together good matched => ?_
      exact (coupling.writeName coupling.returnName_allowed matched _ _ together).bind
        (coupling.contract.writeName returnName together.inv good) fun together _ _ =>
          pairs_pure together (.returned matched)
  | skip => exact pairs_pure together .proceed

theorem Respects.loopBody {condition : Option Expr} {step : Statement} {body : Block}
    (uses : (Node.loop condition step body).UsesOnly coupling.Names) :
    coupling.Couples coupling.matching.Flows (evaluator.loopBody condition step body)
      (evaluator.loopBody condition step body) := by
  intro first second together
  have gives : ∀ expr, condition = some expr → coupling.Gives evaluator.expr expr := by
    rintro expr rfl
    exact respects.gives meets (uses.part (.turnCondition expr step body))
  refine (loopContinues gives _ _ together).bind
    (coupling.contract.loopContinues meets.expr condition together.inv)
    fun together _ same => ?_
  subst same
  split
  · refine (respects.executesBlock meets (uses.part (.turnBody condition step body))).bind together
      fun together flows => ?_
    cases flows with
    | returned matched => exact pairs_pure together (.returned matched)
    | proceed =>
        refine (respects.executesStatement meets
          (uses.part (.turnStep condition step body))).bind together fun together flows => ?_
        cases flows with
        | returned matched => exact pairs_pure together (.returned matched)
        | proceed => exact respects.loop uses _ _ together
  · exact pairs_pure together .proceed

/-- A layer above an evaluator that keeps to a coupling keeps to it. -/
theorem Respects.next : coupling.Respects (evaluator.next settings) where
  expr uses _ _ together := (coupling.tick _ _ together).bind
    (coupling.contract.tick together.inv) fun together _ _ =>
      respects.exprBody meets uses _ _ together
  statement uses _ _ together := (coupling.tick _ _ together).bind
    (coupling.contract.tick together.inv) fun together _ _ =>
      respects.statementBody meets uses _ _ together
  loop uses := respects.loopBody meets uses
  block uses _ _ together := (coupling.tick _ _ together).bind
    (coupling.contract.tick together.inv) fun together _ _ =>
      execList (fun _ member => respects.executesStatement meets (uses.part (.statement member)))
        _ _ together

end

/-- Evaluation with any fuel keeps to a coupling. -/
theorem respects_atFuel (coupling : Coupling settings) (fuel : Nat) :
    coupling.Respects (Evaluator.atFuel settings fuel) := by
  induction fuel with
  | zero =>
      rw [Evaluator.atFuel_zero]
      exact ⟨fun _ _ _ together => pairs_throw together _,
        fun _ _ _ together => pairs_throw together _,
        fun _ _ _ together => pairs_throw together _,
        fun _ _ _ together => pairs_throw together _⟩
  | succ fuel inductionHypothesis =>
      rw [Evaluator.atFuel_succ]
      exact inductionHypothesis.next (coupling.contract.meets_atFuel fuel)

end Coupling

end Scriptlet
