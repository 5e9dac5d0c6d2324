import Mathlib.Logic.Relation
import Scriptlet.Program.Run
import Scriptlet.Proofs.Run.Layer

/-!
Contract: which nodes a run evaluates, and in which machines.

Owns:
- nodes, and the parts that a node is made of, with the bodies of functions it
  declares, and the names that occur in them;
- visits, in which a node is taken up in a machine, and the visits that begin
  inside a visit;
- the visits of a run, and those that an activation makes itself, outside the
  calls it makes.

A visit begins where evaluation comes to the node: everything before it in the
node around it was evaluated, did not halt and did not return.  The body of a
function is no part of a call of it, but the call takes it up.
-/

namespace Scriptlet

open Run

/-- A node as evaluation takes it up.  The turns of a loop are a node of their
own, which every turn takes up again. -/
inductive Node where
  | expr (expr : Expr)
  | statement (statement : Statement)
  | loop (condition : Option Expr) (step : Statement) (body : Block)
  | block (block : Block)

namespace Node

/-- Whether the first node is a part of the second. -/
inductive Part : Node → Node → Prop where
  | item {items : List Expr} {item : Expr} (member : item ∈ items) :
      Part (.expr item) (.expr (.array items))
  | operand (operator : UnaryOperator) (operand : Expr) :
      Part (.expr operand) (.expr (.unary operator operand))
  | left (operator : BinaryOperator) (left right : Expr) :
      Part (.expr left) (.expr (.binary operator left right))
  | right (operator : BinaryOperator) (left right : Expr) :
      Part (.expr right) (.expr (.binary operator left right))
  | base (base offset : Expr) : Part (.expr base) (.expr (.index base offset))
  | offset (base offset : Expr) : Part (.expr offset) (.expr (.index base offset))
  | argument (name : String) {arguments : List Expr} {argument : Expr}
      (member : argument ∈ arguments) :
      Part (.expr argument) (.expr (.call name arguments))
  | assigned (name : String) (value : Expr) :
      Part (.expr value) (.statement (.assign name value))
  | storeBase (base offset value : Expr) :
      Part (.expr base) (.statement (.store base offset value))
  | storeOffset (base offset value : Expr) :
      Part (.expr offset) (.statement (.store base offset value))
  | stored (base offset value : Expr) :
      Part (.expr value) (.statement (.store base offset value))
  | evaluated (expr : Expr) : Part (.expr expr) (.statement (.evaluate expr))
  | condition {branches : List Branch} {branch : Branch} (member : branch ∈ branches)
      (otherwise : Block) :
      Part (.expr branch.condition) (.statement (.choose branches otherwise))
  | guarded {branches : List Branch} {branch : Branch} (member : branch ∈ branches)
      (otherwise : Block) :
      Part (.block branch.body) (.statement (.choose branches otherwise))
  | otherwise (branches : List Branch) (otherwise : Block) :
      Part (.block otherwise) (.statement (.choose branches otherwise))
  | initial (initial : Statement) (condition : Option Expr) (step : Statement) (body : Block) :
      Part (.statement initial) (.statement (.loop initial condition step body))
  | turns (initial : Statement) (condition : Option Expr) (step : Statement) (body : Block) :
      Part (.loop condition step body) (.statement (.loop initial condition step body))
  | declared (name : String) (parameters : List String) (body : Block) :
      Part (.block body) (.statement (.declare name parameters body))
  | returned (value : Expr) : Part (.expr value) (.statement (.giveBack value))
  | turnCondition (condition : Expr) (step : Statement) (body : Block) :
      Part (.expr condition) (.loop (some condition) step body)
  | turnBody (condition : Option Expr) (step : Statement) (body : Block) :
      Part (.block body) (.loop condition step body)
  | turnStep (condition : Option Expr) (step : Statement) (body : Block) :
      Part (.statement step) (.loop condition step body)
  | statement {block : Block} {statement : Statement} (member : statement ∈ block) :
      Part (.statement statement) (.block block)

/-- Whether the first node is the second one or stands somewhere inside it. -/
def Within : Node → Node → Prop :=
  Relation.ReflTransGen Part

/-- Whether a node spells a name itself: as what it reads, calls, binds or declares,
or as a parameter. -/
def Spells (name : String) : Node → Prop
  | .expr (.name identifier) => identifier = name
  | .expr (.call function _) => function = name
  | .statement (.assign target _) => target = name
  | .statement (.declare function parameters _) => function = name ∨ name ∈ parameters
  | _ => False

/-- Whether a name occurs in a node. -/
def Occurs (name : String) (node : Node) : Prop :=
  ∃ inside : Node, inside.Within node ∧ inside.Spells name

theorem Occurs.cases {name : String} {node : Node} (occurs : node.Occurs name) :
    node.Spells name ∨ ∃ part : Node, part.Part node ∧ part.Occurs name := by
  obtain ⟨inside, within, spells⟩ := occurs
  rcases within.cases_tail with rfl | ⟨part, within, isPart⟩
  · exact .inl spells
  · exact .inr ⟨part, isPart, inside, within, spells⟩

/-- Whether only some names occur in a node. -/
def UsesOnly (Names : String → Prop) (node : Node) : Prop :=
  ∀ name, node.Occurs name → Names name

theorem UsesOnly.spelled {Names : String → Prop} {node : Node} (uses : node.UsesOnly Names)
    {name : String} (spells : node.Spells name) : Names name :=
  uses name ⟨node, .refl, spells⟩

theorem UsesOnly.part {Names : String → Prop} {node part : Node} (uses : node.UsesOnly Names)
    (isPart : part.Part node) : part.UsesOnly Names := by
  rintro name ⟨inside, within, spells⟩
  exact uses name ⟨inside, within.tail isPart, spells⟩

/-- Whether a node is executed, in contrast to an expression. -/
def IsExecuted : Node → Prop
  | .expr _ => False
  | _ => True

/-- Counts a node.  The turns of a loop are not counted. -/
def count (settings : Settings) : Node → Run Unit
  | .loop .. => pure ()
  | _ => tick settings

end Node

namespace Evaluator

/-- Executing a node; an expression is evaluated for its effects. -/
def execute (evaluator : Evaluator) : Node → Run Flow
  | .expr expr => do
      let _ ← evaluator.expr expr
      return .proceed
  | .statement statement => evaluator.statement statement
  | .loop condition step body => evaluator.loop condition step body
  | .block block => evaluator.block block

end Evaluator

/-! ## What a node takes up -/

/-- Whether a binary operator evaluates its right operand after a value of the
left one. -/
def BinaryOperator.NeedsRight : BinaryOperator → Value → Prop
  | .and, value => value.asTruth "and" = .ok true
  | .or, value => value.asTruth "or" = .ok false
  | _, _ => True

/-- Whether choosing among branches from a machine takes up a node in another
one.  Conditions are evaluated in order up to the first that holds. -/
inductive ChoiceOpens (inner : Evaluator) (otherwise : Block) :
    List Branch → Machine → Node → Machine → Prop where
  | condition (condition : Expr) (body : Block) (rest : List Branch) (machine : Machine) :
      ChoiceOpens inner otherwise (.mk condition body :: rest) machine (.expr condition) machine
  | holds {condition : Expr} {value : Value} {before after : Machine} (body : Block)
      (rest : List Branch) (evaluated : inner.expr condition before = .ok value after)
      (truth : value.asTruth "if" = .ok true) :
      ChoiceOpens inner otherwise (.mk condition body :: rest) before (.block body) after
  | later {condition : Expr} {value : Value} {before middle after : Machine} {part : Node}
      (body : Block) {rest : List Branch}
      (evaluated : inner.expr condition before = .ok value middle)
      (truth : value.asTruth "if" = .ok false)
      (opens : ChoiceOpens inner otherwise rest middle part after) :
      ChoiceOpens inner otherwise (.mk condition body :: rest) before part after
  | otherwise (machine : Machine) :
      ChoiceOpens inner otherwise [] machine (.block otherwise) machine

/-- Whether evaluating a node, from the machine in which it was counted, takes
up a node in another machine; `inner` evaluates the nodes that are taken up. -/
inductive Opens (settings : Settings) (inner : Evaluator) :
    Node → Machine → Node → Machine → Prop where
  | item {done : List Expr} {slots : Slots} {before after : Machine} (item : Expr)
      (rest : List Expr) (evaluated : evalItems inner.expr 0 ∅ done before = .ok slots after) :
      Opens settings inner (.expr (.array (done ++ item :: rest))) before (.expr item) after
  | operand (operator : UnaryOperator) (operand : Expr) (machine : Machine) :
      Opens settings inner (.expr (.unary operator operand)) machine (.expr operand) machine
  | left (operator : BinaryOperator) (left right : Expr) (machine : Machine) :
      Opens settings inner (.expr (.binary operator left right)) machine (.expr left) machine
  | right {operator : BinaryOperator} {left : Expr} {value : Value} {before after : Machine}
      (right : Expr) (evaluated : inner.expr left before = .ok value after)
      (needed : operator.NeedsRight value) :
      Opens settings inner (.expr (.binary operator left right)) before (.expr right) after
  | base (base offset : Expr) (machine : Machine) :
      Opens settings inner (.expr (.index base offset)) machine (.expr base) machine
  | offset {base : Expr} {location : Nat} {before after : Machine} (offset : Expr)
      (evaluated : inner.expr base before = .ok (.array location) after) :
      Opens settings inner (.expr (.index base offset)) before (.expr offset) after
  | argument {name : String} {done : List Expr} {values : List Value}
      {declaration : FunctionDeclaration} {before after : Machine} (argument : Expr)
      (rest : List Expr)
      (found : callee name (done ++ argument :: rest).length before = .ok declaration before)
      (evaluated : evalList inner.expr done before = .ok values after) :
      Opens settings inner (.expr (.call name (done ++ argument :: rest))) before
        (.expr argument) after
  | called {name : String} {arguments : List Expr} {values : List Value}
      {declaration : FunctionDeclaration} {depth : Nat} {before given entered : Machine}
      (found : callee name arguments.length before = .ok declaration before)
      (evaluated : evalList inner.expr arguments before = .ok values given)
      (enters : enterCall settings name declaration values given = .ok depth entered) :
      Opens settings inner (.expr (.call name arguments)) before (.block declaration.body)
        entered
  | assigned (name : String) (value : Expr) (machine : Machine) :
      Opens settings inner (.statement (.assign name value)) machine (.expr value) machine
  | storeBase (base offset value : Expr) (machine : Machine) :
      Opens settings inner (.statement (.store base offset value)) machine (.expr base) machine
  | stored {base : Expr} {location : Nat} {before after : Machine} (offset value : Expr)
      (evaluated : inner.expr base before = .ok (.array location) after) :
      Opens settings inner (.statement (.store base offset value)) before (.expr value) after
  | storeOffset {base value : Expr} {location : Nat} {stored : Value}
      {before middle after : Machine} (offset : Expr)
      (evaluated : inner.expr base before = .ok (.array location) middle)
      (evaluatedValue : inner.expr value middle = .ok stored after) :
      Opens settings inner (.statement (.store base offset value)) before (.expr offset) after
  | evaluated (expr : Expr) (machine : Machine) :
      Opens settings inner (.statement (.evaluate expr)) machine (.expr expr) machine
  | choice {branches : List Branch} {otherwise : Block} {before after : Machine} {part : Node}
      (opens : ChoiceOpens inner otherwise branches before part after) :
      Opens settings inner (.statement (.choose branches otherwise)) before part after
  | initial (initial : Statement) (condition : Option Expr) (step : Statement) (body : Block)
      (machine : Machine) :
      Opens settings inner (.statement (.loop initial condition step body)) machine
        (.statement initial) machine
  | turns {initial : Statement} {before after : Machine} (condition : Option Expr)
      (step : Statement) (body : Block)
      (executed : inner.statement initial before = .ok .proceed after) :
      Opens settings inner (.statement (.loop initial condition step body)) before
        (.loop condition step body) after
  | returned (value : Expr) (machine : Machine) :
      Opens settings inner (.statement (.giveBack value)) machine (.expr value) machine
  | turnCondition (condition : Expr) (step : Statement) (body : Block) (machine : Machine) :
      Opens settings inner (.loop (some condition) step body) machine (.expr condition) machine
  | turnBody {condition : Option Expr} {before after : Machine} (step : Statement) (body : Block)
      (goesOn : loopContinues inner.expr condition before = .ok true after) :
      Opens settings inner (.loop condition step body) before (.block body) after
  | turnStep {condition : Option Expr} {body : Block} {before middle after : Machine}
      (step : Statement) (goesOn : loopContinues inner.expr condition before = .ok true middle)
      (executed : inner.block body middle = .ok .proceed after) :
      Opens settings inner (.loop condition step body) before (.statement step) after
  | nextTurn {condition : Option Expr} {step : Statement} {body : Block}
      {before middle stepped after : Machine}
      (goesOn : loopContinues inner.expr condition before = .ok true middle)
      (executed : inner.block body middle = .ok .proceed stepped)
      (executedStep : inner.statement step stepped = .ok .proceed after) :
      Opens settings inner (.loop condition step body) before (.loop condition step body) after
  | statement {done : Block} {before after : Machine} (statement : Statement) (rest : Block)
      (executed : execList inner.statement done before = .ok .proceed after) :
      Opens settings inner (.block (done ++ statement :: rest)) before (.statement statement)
        after

/-! ## Visits -/

/-- A node that is taken up in a machine, with an amount of fuel. -/
structure Visit where
  node : Node
  fuel : Nat
  machine : Machine

namespace Visit

/-- Whether evaluating the node of the first visit makes the second one, which is
nested in no other one inside the first. -/
inductive Begins (settings : Settings) : Visit → Visit → Prop where
  | intro {node part : Node} {fuel : Nat} {before counted after : Machine}
      (counts : node.count settings before = .ok () counted)
      (opens : Opens settings (Evaluator.atFuel settings fuel) node counted part after) :
      Begins settings ⟨node, fuel + 1, before⟩ ⟨part, fuel, after⟩

/-- Whether a visit is another one or is made anywhere inside it, in the calls it
makes included. -/
def Makes (settings : Settings) : Visit → Visit → Prop :=
  Relation.ReflTransGen (Begins settings)

/-- Whether a visit is made inside another one by executing only.  Calls are made
by expressions, so all of it is done by one activation. -/
def Executes (settings : Settings) : Visit → Visit → Prop :=
  Relation.ReflTransGen fun outer inner => Begins settings outer inner ∧ inner.node.IsExecuted

end Visit

namespace Program

/-- The visit that a run of a program is. -/
def visit (program : Program) (fuel : Nat) (initial : State) : Visit :=
  ⟨.block program.body, fuel, Machine.ofState initial⟩

/-- Whether a run of a program makes a visit. -/
def Visits (program : Program) (fuel : Nat) (initial : State) (limits : Limits)
    (random : RandomSource) : Visit → Prop :=
  (program.visit fuel initial).Makes (program.settings limits random)

end Program

end Scriptlet
