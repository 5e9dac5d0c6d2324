import Scriptlet.Proofs.Run.Activation

/-!
Contract: what evaluating a node consists of.

Owns:
- the steps that evaluating a node makes itself, on values that expressions gave
  which it took up;
- the machines that it passes through, after each of these steps and each of the
  nodes that it takes up, and the ways in which it stops at one of them;
- the evaluation of a node, unless the node is a declaration, ends in a machine
  that it passes through or stops, and it passes through every machine in which it
  takes up a node;
- what the steps of all nodes and the declarations keep holds throughout a visit.

A declaration binds a name to a function, which no expression gives.  It takes up
nothing and cannot fail.
-/

namespace Scriptlet

open Run

/-! ## Own steps -/

/-- Whether a value was copied from a known one. -/
def CopyOf (Known : Value → Prop) (copy : Value) : Prop :=
  ∃ level value before after, Known value ∧ copyAt level value before = .ok copy after

/-- The steps that evaluating a node makes itself, on known values, apart from
declaring a function. -/
inductive OwnStep (settings : Settings) (Known : Value → Prop) : {α : Type} → Run α → Prop where
  | tick : OwnStep settings Known (tick settings)
  | integer (operation : String) {value : Value} (known : Known value) :
      OwnStep settings Known (ofExcept (value.asInteger operation))
  | truth (operation : String) {value : Value} (known : Known value) :
      OwnStep settings Known (ofExcept (value.asTruth operation))
  | array {value : Value} (known : Known value) : OwnStep settings Known (ofExcept value.asArray)
  | index {value : Value} (known : Known value) : OwnStep settings Known (ofExcept value.asIndex)
  | arithmetic (operator : BinaryOperator) (left right : Int64) :
      OwnStep settings Known (ofExcept (operator.onIntegers left right))
  | equal (left right : Value) : OwnStep settings Known (equal left right)
  | readName (name : String) : OwnStep settings Known (readName settings name)
  | writeName (name : String) {value : Value} (known : Known value) :
      OwnStep settings Known (writeName name value)
  | readSlot (location : Nat) (index : Int64) : OwnStep settings Known (readSlot location index)
  | writeSlot (location : Nat) (index : Int64) {value : Value} (known : Known value) :
      OwnStep settings Known (writeSlot settings location index value)
  | copyAt (level : Nat) {value : Value} (known : Known value) :
      OwnStep settings Known (copyAt level value)
  | newArray {slots : Slots} (copies : ∀ {index : Nat} {value : Value},
      slots[index]? = some value → CopyOf Known value) : OwnStep settings Known (newArray slots)
  | callee (name : String) (arguments : Nat) : OwnStep settings Known (callee name arguments)
  | enterCall (name : String) (declaration : FunctionDeclaration) {values : List Value}
      (known : ∀ value ∈ values, Known value) :
      OwnStep settings Known (enterCall settings name declaration values)
  | leaveCall (name : String) (depth : Nat) : OwnStep settings Known (leaveCall name depth)

/-! ## Passing through machines -/

section

variable (settings : Settings) (inner : Evaluator) (node : Node) (before : Machine)

/-- Whether a value was given by an expression that evaluating a node takes up. -/
def Given (value : Value) : Prop :=
  ∃ expr start after, Opens settings inner node before (.expr expr) start ∧
    inner.expr expr start = .ok value after

/-- The machines that evaluating a node passes through, from the machine in which it
was counted. -/
inductive Passes : Machine → Prop where
  | start : Passes before
  | own {α : Type} {action : Run α} {machine after : Machine} {result : α}
      (passes : Passes machine) (own : OwnStep settings (Given settings inner node before) action)
      (made : action machine = .ok result after) : Passes after
  | part {part : Node} {machine after : Machine} {flow : Flow} (passes : Passes machine)
      (opens : Opens settings inner node before part machine)
      (executed : inner.execute part machine = .ok flow after) : Passes after

/-- The ways in which evaluating a node stops: by a step of its own, or because a node
stops that it takes up. -/
inductive Stops : Halt → Machine → Prop where
  | own {α : Type} {action : Run α} {machine after : Machine} {halt : Halt}
      (passes : Passes settings inner node before machine)
      (own : OwnStep settings (Given settings inner node before) action)
      (failed : action machine = .error halt after) : Stops halt after
  | part {part : Node} {machine after : Machine} {halt : Halt}
      (passes : Passes settings inner node before machine)
      (opens : Opens settings inner node before part machine)
      (failed : inner.execute part machine = .error halt after) : Stops halt after

/-- Whether a part of the evaluation of a node ends in a machine that it passes
through, with a result that `post` holds of, or stops. -/
def Consists {α : Type} (machine : Machine) (action : Run α) (post : α → Machine → Prop) : Prop :=
  Ensures action machine
    (fun result after => Passes settings inner node before after ∧ post result after)
    (Stops settings inner node before)

end

section

variable {settings : Settings} {inner : Evaluator} {node : Node} {before machine : Machine}
  {α β : Type}

theorem consists_pure {result : α} {post : α → Machine → Prop}
    (passes : Passes settings inner node before machine) (holds : post result machine) :
    Consists settings inner node before machine (pure result) post :=
  ⟨passes, holds⟩

theorem consists_own {action : Run α} (passes : Passes settings inner node before machine)
    (own : OwnStep settings (Given settings inner node before) action) :
    Consists settings inner node before machine action
      fun result after => action machine = .ok result after := by
  unfold Consists Ensures
  cases outcome : action machine with
  | ok result after => exact ⟨.own passes own outcome, rfl⟩
  | error halt after => exact .own passes own outcome

theorem consists_part {part : Node} (passes : Passes settings inner node before machine)
    (opens : Opens settings inner node before part machine) :
    Consists settings inner node before machine (inner.execute part)
      fun flow after => inner.execute part machine = .ok flow after := by
  unfold Consists Ensures
  cases outcome : inner.execute part machine with
  | ok flow after => exact ⟨.part passes opens outcome, rfl⟩
  | error halt after => exact .part passes opens outcome

theorem consists_expr {expr : Expr} (passes : Passes settings inner node before machine)
    (opens : Opens settings inner node before (.expr expr) machine) :
    Consists settings inner node before machine (inner.expr expr)
      fun value after => inner.expr expr machine = .ok value after := by
  unfold Consists Ensures
  cases outcome : inner.expr expr machine with
  | ok value after => exact ⟨.part passes opens (bind_of_ok outcome), rfl⟩
  | error halt after => exact .part passes opens (bind_of_error outcome)

theorem Consists.bind {action : Run α} {next : α → Run β} {post : α → Machine → Prop}
    {nextPost : β → Machine → Prop}
    (consists : Consists settings inner node before machine action post)
    (rest : ∀ {result after}, Passes settings inner node before after → post result after →
      Consists settings inner node before after (next result) nextPost) :
    Consists settings inner node before machine (action >>= next) nextPost :=
  Ensures.bind consists fun holds => rest holds.1 holds.2

/-- A part of an evaluation of which only the end matters. -/
theorem Consists.end {action : Run α} {post : α → Machine → Prop}
    (consists : Consists settings inner node before machine action post) :
    Consists settings inner node before machine action fun _ _ => True :=
  Ensures.weaken consists (fun holds => ⟨holds.1, trivial⟩) id

/-- The last part of an evaluation, after which a result is given. -/
theorem Consists.thenPure {action : Run α} {post : α → Machine → Prop}
    (consists : Consists settings inner node before machine action post) (result : β) :
    Consists settings inner node before machine (action >>= fun _ => pure result)
      fun _ _ => True :=
  consists.bind fun passes _ => consists_pure passes trivial

end

/-! ## Operators -/

section

variable {settings : Settings} {inner : Evaluator} {node : Node} {before machine : Machine}

theorem consists_applyUnary (operator : UnaryOperator) {value : Value}
    (passes : Passes settings inner node before machine)
    (given : Given settings inner node before value) :
    Consists settings inner node before machine (applyUnary operator value)
      fun _ _ => True := by
  cases operator with
  | not =>
      apply (consists_own passes (.truth "not" given)).bind
      exact fun passes _ => consists_pure passes trivial
  | negate =>
      apply (consists_own passes (.integer "-" given)).bind
      exact fun passes _ => consists_pure passes trivial
  | plus =>
      apply (consists_own passes (.integer "+" given)).bind
      exact fun passes _ => consists_pure passes trivial

theorem consists_applyBinary (operator : BinaryOperator) {left right : Value}
    (passes : Passes settings inner node before machine)
    (givenLeft : Given settings inner node before left)
    (givenRight : Given settings inner node before right) :
    Consists settings inner node before machine (applyBinary operator left right)
      fun _ _ => True := by
  unfold applyBinary
  split
  · apply (consists_own passes (.equal left right)).bind
    exact fun passes _ => consists_pure passes trivial
  · apply (consists_own passes (.equal left right)).bind
    exact fun passes _ => consists_pure passes trivial
  · apply (consists_own passes (.integer operator.symbol givenLeft)).bind
    intro leftNumber _ passes _
    apply (consists_own passes (.integer operator.symbol givenRight)).bind
    intro rightNumber _ passes _
    apply (consists_own passes (.arithmetic operator leftNumber rightNumber)).bind
    exact fun passes _ => consists_pure passes trivial

theorem consists_evalBinary (operator : BinaryOperator) (left right : Expr) :
    Consists settings inner (.expr (.binary operator left right)) before before
      (evalBinary inner.expr operator left right) fun _ _ => True := by
  have opensLeft : Opens settings inner (.expr (.binary operator left right)) before
      (.expr left) before := .left operator left right before
  apply (consists_expr .start opensLeft).bind
  intro value evaluated passes evaluates
  have given : Given settings inner (.expr (.binary operator left right)) before value :=
    ⟨left, before, evaluated, opensLeft, evaluates⟩
  split
  · apply (consists_own passes (.truth "and" given)).bind
    intro truth _ passes decides
    obtain ⟨isTruth, rfl⟩ := ofExcept_eq_ok_iff.mp decides
    cases truth with
    | true => exact (consists_expr passes (.right right evaluates isTruth)).end
    | false => exact consists_pure passes trivial
  · apply (consists_own passes (.truth "or" given)).bind
    intro truth _ passes decides
    obtain ⟨isTruth, rfl⟩ := ofExcept_eq_ok_iff.mp decides
    cases truth with
    | true => exact consists_pure passes trivial
    | false => exact (consists_expr passes (.right right evaluates isTruth)).end
  · next notAnd notOr =>
      have needed : operator.NeedsRight value := by
        unfold BinaryOperator.NeedsRight
        split <;> trivial
      have opensRight : Opens settings inner (.expr (.binary operator left right)) before
          (.expr right) evaluated := .right right evaluates needed
      apply (consists_expr passes opensRight).bind
      intro rightValue evaluatedRight passes evaluatesRight
      exact consists_applyBinary operator passes given
        ⟨right, evaluated, evaluatedRight, opensRight, evaluatesRight⟩

theorem consists_evalIndex (base offset : Expr) :
    Consists settings inner (.expr (.index base offset)) before before
      (evalIndex inner.expr base offset) fun _ _ => True := by
  have opensBase : Opens settings inner (.expr (.index base offset)) before (.expr base) before :=
    .base base offset before
  apply (consists_expr .start opensBase).bind
  intro array evaluated passes evaluates
  apply (consists_own passes (.array ⟨base, before, evaluated, opensBase, evaluates⟩)).bind
  intro location found passes finds
  obtain ⟨isArray, rfl⟩ := ofExcept_eq_ok_iff.mp finds
  rw [Value.eq_array_of_asArray isArray] at evaluates
  have opensOffset : Opens settings inner (.expr (.index base offset)) before (.expr offset)
      found := .offset offset evaluates
  apply (consists_expr passes opensOffset).bind
  intro value indexed passes evaluatesOffset
  apply (consists_own passes (.index ⟨offset, found, indexed, opensOffset, evaluatesOffset⟩)).bind
  exact fun passes _ => (consists_own passes (.readSlot _ _)).end

/-! ## Array literals and calls -/

/-- Items are evaluated and copied one after another, if each may be taken up in the
machine that those before it leave. -/
theorem consists_evalItems {items : List Expr} {index : Nat} {slots : Slots}
    (opens : ∀ {done item rest filled start}, items = done ++ item :: rest →
      evalItems inner.expr index slots done machine = .ok filled start →
      Opens settings inner node before (.expr item) start)
    (copies : ∀ {index : Nat} {value : Value}, slots[index]? = some value →
      CopyOf (Given settings inner node before) value)
    (passes : Passes settings inner node before machine) :
    Consists settings inner node before machine (evalItems inner.expr index slots items)
      fun filled _ => ∀ {index : Nat} {value : Value}, filled[index]? = some value →
        CopyOf (Given settings inner node before) value := by
  induction items generalizing index slots machine with
  | nil => exact consists_pure passes copies
  | cons item rest inductionHypothesis =>
      have opensItem : Opens settings inner node before (.expr item) machine :=
        opens (List.nil_append _).symm rfl
      apply (consists_expr passes opensItem).bind
      intro value evaluated passes evaluates
      have given : Given settings inner node before value :=
        ⟨item, machine, evaluated, opensItem, evaluates⟩
      apply (consists_own passes (.copyAt 2 given)).bind
      intro copy copied passes copyMade
      refine inductionHypothesis (fun {done later others filled start} isRest fills => ?_) ?_ passes
      · have isItems : item :: rest = (item :: done) ++ later :: others := by
          rw [isRest]
          rfl
        exact opens isItems ((bind_of_ok evaluates).trans ((bind_of_ok copyMade).trans fills))
      · intro other found isFound
        rw [Store.getElem?_insert_slots] at isFound
        split at isFound
        · cases isFound
          exact ⟨2, value, evaluated, copied, given, copyMade⟩
        · exact copies isFound

/-- Expressions are evaluated one after another, if each may be taken up in the
machine that those before it leave. -/
theorem consists_evalList {exprs : List Expr}
    (opens : ∀ {done expr rest values start}, exprs = done ++ expr :: rest →
      evalList inner.expr done machine = .ok values start →
      Opens settings inner node before (.expr expr) start)
    (passes : Passes settings inner node before machine) :
    Consists settings inner node before machine (evalList inner.expr exprs)
      fun values after => evalList inner.expr exprs machine = .ok values after ∧
        ∀ value ∈ values, Given settings inner node before value := by
  induction exprs generalizing machine with
  | nil => exact consists_pure passes ⟨rfl, nofun⟩
  | cons expr rest inductionHypothesis =>
      have opensExpr : Opens settings inner node before (.expr expr) machine :=
        opens (List.nil_append _).symm rfl
      apply (consists_expr passes opensExpr).bind
      intro value evaluated passes evaluates
      have opensRest : ∀ {done later others values start}, rest = done ++ later :: others →
          evalList inner.expr done evaluated = .ok values start →
          Opens settings inner node before (.expr later) start := by
        intro done later others values start isRest gives
        have isExprs : expr :: rest = (expr :: done) ++ later :: others := by
          rw [isRest]
          rfl
        exact opens isExprs ((bind_of_ok evaluates).trans (bind_of_ok gives))
      apply (inductionHypothesis opensRest passes).bind
      intro values _ passes holds
      refine consists_pure passes ⟨(bind_of_ok evaluates).trans (bind_of_ok holds.1), ?_⟩
      rw [List.forall_mem_cons]
      exact ⟨⟨expr, machine, evaluated, opensExpr, evaluates⟩, holds.2⟩

theorem consists_evalArray (items : List Expr) :
    Consists settings inner (.expr (.array items)) before before (evalArray inner.expr items)
      fun _ _ => True := by
  have opens : ∀ {done item rest filled start}, items = done ++ item :: rest →
      evalItems inner.expr 0 ∅ done before = .ok filled start →
      Opens settings inner (.expr (.array items)) before (.expr item) start := by
    intro done item rest filled start isItems fills
    rw [isItems]
    exact .item item rest fills
  apply (consists_evalItems opens (fun found => by simp at found) .start).bind
  intro slots _ passes copies
  exact (consists_own passes (.newArray copies)).end

theorem consists_evalCall (name : String) (arguments : List Expr) :
    Consists settings inner (.expr (.call name arguments)) before before
      (evalCall settings inner.expr inner.block name arguments) fun _ _ => True := by
  apply (consists_own .start (.callee name arguments.length)).bind
  intro declaration found passes finds
  have same := (changes_callee name arguments.length before).1
  rw [final_of_ok finds] at same
  subst same
  have opens : ∀ {done argument rest values start}, arguments = done ++ argument :: rest →
      evalList inner.expr done found = .ok values start →
      Opens settings inner (.expr (.call name arguments)) found (.expr argument) start := by
    intro done argument rest values start isArguments gives
    rw [isArguments] at finds ⊢
    exact .argument argument rest finds gives
  apply (consists_evalList opens passes).bind
  intro values given passes holds
  apply (consists_own passes (.enterCall name declaration holds.2)).bind
  intro depth entered passes enters
  apply (consists_part passes (.called finds holds.1 enters)).bind
  exact fun passes _ => (consists_own passes (.leaveCall name depth)).end

theorem consists_exprBody (expr : Expr) :
    Consists settings inner (.expr expr) before before (inner.exprBody settings expr)
      fun _ _ => True := by
  cases expr with
  | integer value => exact consists_pure .start trivial
  | name name => exact (consists_own .start (.readName name)).end
  | array items => exact consists_evalArray items
  | unary operator operand =>
      have opens : Opens settings inner (.expr (.unary operator operand)) before (.expr operand)
          before := .operand operator operand before
      apply (consists_expr .start opens).bind
      intro value evaluated passes evaluates
      exact consists_applyUnary operator passes ⟨operand, before, evaluated, opens, evaluates⟩
  | binary operator left right => exact consists_evalBinary operator left right
  | index base offset => exact consists_evalIndex base offset
  | call name arguments => exact consists_evalCall name arguments

/-! ## Statements -/

theorem consists_execStore (base offset value : Expr) :
    Consists settings inner (.statement (.store base offset value)) before before
      (execStore settings inner.expr base offset value) fun _ _ => True := by
  have opensBase : Opens settings inner (.statement (.store base offset value)) before
      (.expr base) before := .storeBase base offset value before
  apply (consists_expr .start opensBase).bind
  intro array evaluated passes evaluates
  apply (consists_own passes (.array ⟨base, before, evaluated, opensBase, evaluates⟩)).bind
  intro location found passes finds
  obtain ⟨isArray, rfl⟩ := ofExcept_eq_ok_iff.mp finds
  rw [Value.eq_array_of_asArray isArray] at evaluates
  have opensValue : Opens settings inner (.statement (.store base offset value)) before
      (.expr value) found := .stored offset value evaluates
  apply (consists_expr passes opensValue).bind
  intro stored given passes evaluatesValue
  have opensOffset : Opens settings inner (.statement (.store base offset value)) before
      (.expr offset) given := .storeOffset offset evaluates evaluatesValue
  apply (consists_expr passes opensOffset).bind
  intro position indexed passes evaluatesOffset
  apply (consists_own passes (.index ⟨offset, given, indexed, opensOffset, evaluatesOffset⟩)).bind
  intro index _ passes _
  exact (consists_own passes (.writeSlot location index
    ⟨value, found, given, opensValue, evaluatesValue⟩)).end

/-- Branches are tried in order, if choosing among the rest of them may take up what it
does. -/
theorem consists_execChoice {branches : List Branch} {otherwise : Block}
    (opens : ∀ {part start}, ChoiceOpens inner otherwise branches machine part start →
      Opens settings inner node before part start)
    (passes : Passes settings inner node before machine) :
    Consists settings inner node before machine
      (execChoice inner.expr inner.block otherwise branches) fun _ _ => True := by
  induction branches generalizing machine with
  | nil => exact (consists_part passes (opens (.otherwise machine))).end
  | cons branch rest inductionHypothesis =>
      obtain ⟨condition, body⟩ := branch
      have opensCondition : Opens settings inner node before (.expr condition) machine :=
        opens (.condition condition body rest machine)
      apply (consists_expr passes opensCondition).bind
      intro value evaluated passes evaluates
      apply (consists_own passes
        (.truth "if" ⟨condition, machine, evaluated, opensCondition, evaluates⟩)).bind
      intro truth _ passes decides
      obtain ⟨isTruth, rfl⟩ := ofExcept_eq_ok_iff.mp decides
      cases truth with
      | true => exact (consists_part passes (opens (.holds body rest evaluates isTruth))).end
      | false =>
          apply inductionHypothesis _ passes
          exact fun later => opens (.later body evaluates isTruth later)

/-- Statements are executed one after another, if each may be taken up in the machine
that those before it leave. -/
theorem consists_execList {block : Block}
    (opens : ∀ {done statement rest start}, block = done ++ statement :: rest →
      execList inner.statement done machine = .ok .proceed start →
      Opens settings inner node before (.statement statement) start)
    (passes : Passes settings inner node before machine) :
    Consists settings inner node before machine (execList inner.statement block)
      fun _ _ => True := by
  induction block generalizing machine with
  | nil => exact consists_pure passes trivial
  | cons statement rest inductionHypothesis =>
      have opensStatement : Opens settings inner node before (.statement statement) machine :=
        opens (List.nil_append _).symm rfl
      apply (consists_part passes opensStatement).bind
      intro flow executed passes executes
      cases flow with
      | returned value => exact consists_pure passes trivial
      | proceed =>
          refine inductionHypothesis (fun {done later others start} isRest proceeds => ?_) passes
          have isBlock : statement :: rest = (statement :: done) ++ later :: others := by
            rw [isRest]
            rfl
          exact opens isBlock ((bind_of_ok executes).trans proceeds)

theorem consists_loopContinues (condition : Option Expr) (step : Statement) (body : Block) :
    Consists settings inner (.loop condition step body) before before
      (loopContinues inner.expr condition)
      fun goesOn after => loopContinues inner.expr condition before = .ok goesOn after := by
  cases condition with
  | none => exact consists_pure .start rfl
  | some condition =>
      have opens : Opens settings inner (.loop (some condition) step body) before
          (.expr condition) before := .turnCondition condition step body before
      apply (consists_expr .start opens).bind
      intro value evaluated passes evaluates
      refine Ensures.weaken (consists_own passes
        (.truth "for" ⟨condition, before, evaluated, opens, evaluates⟩)) ?_ id
      exact fun holds => ⟨holds.1, (bind_of_ok evaluates).trans holds.2⟩

theorem consists_loopBody (condition : Option Expr) (step : Statement) (body : Block) :
    Consists settings inner (.loop condition step body) before before
      (inner.loopBody condition step body) fun _ _ => True := by
  apply (consists_loopContinues condition step body).bind
  intro goesOn turned passes decides
  cases goesOn with
  | false => exact consists_pure passes trivial
  | true =>
      apply (consists_part passes (.turnBody step body decides)).bind
      intro bodyFlow stepped passes executes
      cases bodyFlow with
      | returned value => exact consists_pure passes trivial
      | proceed =>
          apply (consists_part passes (.turnStep step decides executes)).bind
          intro stepFlow again passes steps
          cases stepFlow with
          | returned value => exact consists_pure passes trivial
          | proceed => exact (consists_part passes (.nextTurn decides executes steps)).end

/-- What executing a statement consists of, unless it declares a function. -/
theorem consists_statementBody {statement : Statement}
    (notDeclare : ∀ name parameters body, statement ≠ .declare name parameters body) :
    Consists settings inner (.statement statement) before before
      (inner.statementBody settings statement) fun _ _ => True := by
  cases statement with
  | assign name value =>
      have opens : Opens settings inner (.statement (.assign name value)) before (.expr value)
          before := .assigned name value before
      apply (consists_expr .start opens).bind
      intro assigned evaluated passes evaluates
      exact (consists_own passes
        (.writeName name ⟨value, before, evaluated, opens, evaluates⟩)).thenPure _
  | store base offset value => exact (consists_execStore base offset value).thenPure _
  | evaluate expr => exact (consists_expr .start (.evaluated expr before)).thenPure _
  | choose branches otherwise => exact consists_execChoice .choice .start
  | loop initial condition step body =>
      apply (consists_part .start (.initial initial condition step body before)).bind
      intro flow turning passes executes
      cases flow with
      | returned value => exact consists_pure passes trivial
      | proceed => exact (consists_part passes (.turns condition step body executes)).end
  | declare name parameters body => exact absurd rfl (notDeclare name parameters body)
  | giveBack value =>
      have opens : Opens settings inner (.statement (.giveBack value)) before (.expr value)
          before := .returned value before
      apply (consists_expr .start opens).bind
      intro returned evaluated passes evaluates
      exact (consists_own passes
        (.writeName returnName ⟨value, before, evaluated, opens, evaluates⟩)).thenPure _
  | skip => exact consists_pure .start trivial

/-- What evaluating a node consists of, unless it declares a function. -/
theorem consists_executeBody {node : Node}
    (notDeclare : ∀ name parameters body, node ≠ .statement (.declare name parameters body)) :
    Consists settings inner node before before (inner.executeBody settings node)
      fun _ _ => True := by
  cases node with
  | expr expr => exact (consists_exprBody expr).thenPure _
  | statement statement =>
      apply consists_statementBody
      rintro name parameters body rfl
      exact notDeclare name parameters body rfl
  | loop condition step body => exact consists_loopBody condition step body
  | block block =>
      apply consists_execList _ .start
      intro done statement rest start isBlock proceeds
      rw [isBlock]
      exact .statement statement rest proceeds

/-! ## Where nodes are taken up -/

theorem Passes.expr {expr : Expr} {value : Value} {after : Machine}
    (passes : Passes settings inner node before machine)
    (opens : Opens settings inner node before (.expr expr) machine)
    (evaluated : inner.expr expr machine = .ok value after) :
    Passes settings inner node before after :=
  .part passes opens (bind_of_ok evaluated)

theorem passes_of_choiceOpens {branches : List Branch} {otherwise : Block} {part : Node}
    {after : Machine} (choiceOpens : ChoiceOpens inner otherwise branches machine part after)
    (opens : ∀ {part start}, ChoiceOpens inner otherwise branches machine part start →
      Opens settings inner node before part start)
    (passes : Passes settings inner node before machine) :
    Passes settings inner node before after := by
  induction choiceOpens with
  | condition | otherwise => exact passes
  | holds body rest evaluated truth =>
      exact passes.expr (opens (.condition _ body rest _)) evaluated
  | later body evaluated truth _ inductionHypothesis =>
      apply inductionHypothesis fun later => opens (.later body evaluated truth later)
      exact passes.expr (opens (.condition _ body _ _)) evaluated

/-- Evaluating a node passes through every machine in which it takes up a node. -/
theorem passes_of_opens {part : Node} {after : Machine}
    (opens : Opens settings inner node before part after) :
    Passes settings inner node before after := by
  cases opens with
  | operand | left | base | assigned | storeBase | evaluated | initial | returned
  | turnCondition => exact .start
  | right right evaluated needed => exact Passes.start.expr (.left _ _ right _) evaluated
  | offset offset evaluated => exact Passes.start.expr (.base _ offset _) evaluated
  | stored offset value evaluated =>
      exact Passes.start.expr (.storeBase _ offset value _) evaluated
  | storeOffset offset evaluated evaluatedValue =>
      apply Passes.expr _ (.stored offset _ evaluated) evaluatedValue
      exact Passes.start.expr (.storeBase _ offset _ _) evaluated
  | @item done _ _ _ item rest evaluated =>
      have opensDone : ∀ {earlier other others filled start}, done = earlier ++ other :: others →
          evalItems inner.expr 0 ∅ earlier before = .ok filled start →
          Opens settings inner (.expr (.array (done ++ item :: rest))) before (.expr other)
            start := by
        intro earlier other others filled start isDone fills
        rw [isDone, List.append_assoc, List.cons_append]
        exact .item other (others ++ item :: rest) fills
      exact ((consists_evalItems opensDone (fun found => by simp at found) .start).of_ok
        evaluated).1
  | @argument name done _ _ _ _ argument rest found evaluated =>
      have opensDone : ∀ {earlier other others values start}, done = earlier ++ other :: others →
          evalList inner.expr earlier before = .ok values start →
          Opens settings inner (.expr (.call name (done ++ argument :: rest))) before
            (.expr other) start := by
        intro earlier other others values start isDone gives
        rw [isDone, List.append_assoc, List.cons_append] at found ⊢
        exact .argument other (others ++ argument :: rest) found gives
      exact ((consists_evalList opensDone .start).of_ok evaluated).1
  | @called name arguments _ declaration _ _ given _ found evaluated enters =>
      have opensArgument : ∀ {done argument rest values start},
          arguments = done ++ argument :: rest →
          evalList inner.expr done before = .ok values start →
          Opens settings inner (.expr (.call name arguments)) before (.expr argument) start := by
        intro done argument rest values start isArguments gives
        rw [isArguments] at found ⊢
        exact .argument argument rest found gives
      obtain ⟨passes, _, known⟩ := (consists_evalList opensArgument .start).of_ok evaluated
      exact passes.own (.enterCall name declaration known) enters
  | choice choiceOpens => exact passes_of_choiceOpens choiceOpens .choice .start
  | turns condition step body executed =>
      exact .part .start (.initial _ condition step body _) executed
  | turnBody step body goesOn =>
      exact ((consists_loopContinues _ step body).of_ok goesOn).1
  | turnStep step goesOn executed =>
      apply Passes.part _ (.turnBody step _ goesOn) executed
      exact ((consists_loopContinues _ step _).of_ok goesOn).1
  | nextTurn goesOn executed executedStep =>
      apply Passes.part _ (.turnStep _ goesOn executed) executedStep
      apply Passes.part _ (.turnBody _ _ goesOn) executed
      exact ((consists_loopContinues _ _ _).of_ok goesOn).1
  | @statement done _ _ statement rest executed =>
      have opensDone : ∀ {earlier other others start}, done = earlier ++ other :: others →
          execList inner.statement earlier before = .ok .proceed start →
          Opens settings inner (.block (done ++ statement :: rest)) before (.statement other)
            start := by
        intro earlier other others start isDone proceeds
        rw [isDone, List.append_assoc, List.cons_append]
        exact .statement other (others ++ statement :: rest) proceeds
      exact ((consists_execList opensDone .start).of_ok executed).1

end

/-! ## What holds throughout -/

section

variable {settings : Settings} {inner : Evaluator} {node : Node} {before : Machine}
  {Safe : Machine → Prop}
  (own : ∀ {α : Type} {action : Run α} {machine : Machine},
    OwnStep settings (Given settings inner node before) action → Safe machine →
    Safe (action.final machine))
  (part : ∀ {part : Node} {machine : Machine}, Opens settings inner node before part machine →
    Safe machine → Safe ((inner.execute part).final machine))
  (start : Safe before)

include own part start

/-- What own steps and parts keep holds in all machines that are passed through. -/
theorem Passes.holds {machine : Machine} (passes : Passes settings inner node before machine) :
    Safe machine := by
  induction passes with
  | start => exact start
  | own _ isOwn made inductionHypothesis =>
      have kept := own isOwn inductionHypothesis
      rwa [final_of_ok made] at kept
  | part _ opens executed inductionHypothesis =>
      have kept := part opens inductionHypothesis
      rwa [final_of_ok executed] at kept

/-- It also holds where an evaluation ends, if it stops as well. -/
theorem Consists.holds_final {α : Type} {machine : Machine} {action : Run α}
    {post : α → Machine → Prop}
    (consists : Consists settings inner node before machine action post) :
    Safe (action.final machine) := by
  cases outcome : action machine with
  | ok result after =>
      rw [final_of_ok outcome]
      exact (consists.of_ok outcome).1.holds own part start
  | error halt after =>
      rw [final_of_error outcome]
      cases consists.of_error outcome with
      | own passes isOwn failed =>
          have kept := own isOwn (passes.holds own part start)
          rwa [final_of_error failed] at kept
      | part passes opens failed =>
          have kept := part opens (passes.holds own part start)
          rwa [final_of_error failed] at kept

end

theorem OwnStep.weaken {settings : Settings} {Known Weaker : Value → Prop} {α : Type}
    {action : Run α} (own : OwnStep settings Known action)
    (implies : ∀ {value}, Known value → Weaker value) : OwnStep settings Weaker action := by
  cases own with
  | tick => exact .tick
  | integer operation known => exact .integer operation (implies known)
  | truth operation known => exact .truth operation (implies known)
  | array known => exact .array (implies known)
  | index known => exact .index (implies known)
  | arithmetic operator left right => exact .arithmetic operator left right
  | equal left right => exact .equal left right
  | readName name => exact .readName name
  | writeName name known => exact .writeName name (implies known)
  | readSlot location index => exact .readSlot location index
  | writeSlot location index known => exact .writeSlot location index (implies known)
  | copyAt level known => exact .copyAt level (implies known)
  | newArray copies =>
      apply OwnStep.newArray
      intro index value found
      obtain ⟨level, source, before, after, known, copied⟩ := copies found
      exact ⟨level, source, before, after, implies known, copied⟩
  | callee name arguments => exact .callee name arguments
  | enterCall name declaration known =>
      exact .enterCall name declaration fun value member => implies (known value member)
  | leaveCall name depth => exact .leaveCall name depth

/-! ## Visits -/

namespace Visit

variable {settings : Settings}

/-- The machine in which a visit ends, also when its evaluation halts. -/
def ended (settings : Settings) (visit : Visit) : Machine :=
  ((Evaluator.atFuel settings visit.fuel).execute visit.node).final visit.machine

/-- Whether a value was given by an expression that a visit begins. -/
def Obtains (settings : Settings) (visit : Visit) (value : Value) : Prop :=
  ∃ expr fuel start after, visit.Begins settings ⟨.expr expr, fuel, start⟩ ∧
    evalExpr settings fuel expr start = .ok value after

/-- The steps of a node are made on values that its visit obtains. -/
theorem ownStep_of_given {α : Type} {action : Run α} {node : Node} {fuel : Nat}
    {before counted : Machine} (counts : node.count settings before = .ok () counted)
    (own : OwnStep settings (Given settings (Evaluator.atFuel settings fuel) node counted) action) :
    OwnStep settings (Obtains settings ⟨node, fuel + 1, before⟩) action := by
  apply own.weaken
  rintro value ⟨expr, start, after, opens, evaluated⟩
  exact ⟨expr, fuel, start, after, .intro counts opens, evaluated⟩

section

variable {root : Visit} {Safe : Machine → Prop}
  (own : ∀ {visit : Visit} {α : Type} {action : Run α} {machine : Machine},
    root.Makes settings visit → OwnStep settings (visit.Obtains settings) action →
    Safe machine → Safe (action.final machine))
  (declares : ∀ {name : String} {parameters : List String} {body : Block} {less : Nat}
    {before counted : Machine},
    root.Makes settings ⟨.statement (.declare name parameters body), less + 1, before⟩ →
    tick settings before = .ok () counted → Safe counted →
    Safe (counted.write name (.function ⟨name, parameters, body⟩)))

include own

theorem holds_counted {node : Node} {fuel : Nat} {before : Machine}
    (makes : root.Makes settings ⟨node, fuel, before⟩) (safe : Safe before) :
    Safe ((node.count settings).final before) := by
  cases node with
  | loop condition step body => exact safe
  | expr | statement | block => exact own makes .tick safe

include declares

/-- What own steps and declarations keep holds where a visit ends. -/
theorem holds_ended {visit : Visit} (makes : root.Makes settings visit)
    (safe : Safe visit.machine) : Safe (visit.ended settings) := by
  obtain ⟨node, fuel, before⟩ := visit
  induction fuel generalizing node before with
  | zero =>
      have gaveUp : (Visit.mk node 0 before).ended settings = before := by
        unfold ended
        rw [Evaluator.atFuel_zero]
        cases node <;> rfl
      rw [gaveUp]
      exact safe
  | succ fuel inductionHypothesis =>
      have countedSafe := holds_counted own makes safe
      unfold ended
      rw [execute_succ]
      cases counts : node.count settings before with
      | error halt counted =>
          rw [final_of_error counts] at countedSafe
          rw [final_bind_of_error counts]
          exact countedSafe
      | ok _ counted =>
          rw [final_of_ok counts] at countedSafe
          rw [final_bind_of_ok counts]
          by_cases isDeclare : ∃ name parameters body,
              node = .statement (.declare name parameters body)
          · obtain ⟨name, parameters, body, rfl⟩ := isDeclare
            exact declares makes counts countedSafe
          · have notDeclare : ∀ name parameters body,
                node ≠ .statement (.declare name parameters body) :=
              fun name parameters body same => isDeclare ⟨name, parameters, body, same⟩
            apply (consists_executeBody notDeclare).holds_final _ _ countedSafe
            · exact fun isOwn => own makes (ownStep_of_given counts isOwn)
            · exact fun {part machine} opens =>
                inductionHypothesis part machine (makes.tail (.intro counts opens))

/-- What own steps and declarations keep holds throughout a visit: wherever a node is
taken up in it, and wherever the evaluation of one ends. -/
theorem holds_throughout (start : Safe root.machine) {visit : Visit}
    (makes : root.Makes settings visit) :
    Safe visit.machine ∧ Safe (visit.ended settings) := by
  have taken : Safe visit.machine := by
    induction makes with
    | refl => exact start
    | tail outerMakes begins inductionHypothesis =>
        cases begins with
        | @intro node part fuel before counted after counts opens =>
            have countedSafe := holds_counted own outerMakes inductionHypothesis
            rw [final_of_ok counts] at countedSafe
            apply (passes_of_opens opens).holds _ _ countedSafe
            · exact fun isOwn => own outerMakes (ownStep_of_given counts isOwn)
            · exact fun opens => holds_ended own declares (outerMakes.tail (.intro counts opens))
  exact ⟨taken, holds_ended own declares makes taken⟩

end

end Visit

end Scriptlet
