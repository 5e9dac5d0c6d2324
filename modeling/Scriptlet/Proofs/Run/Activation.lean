import Scriptlet.Proofs.Run.Frames
import Scriptlet.Proofs.Store.Slots

/-!
Contract: what one activation executes itself, and how it comes to return.

Owns:
- the course of an execution that succeeds: what its expressions do, and the
  executions of the nodes that it takes up, one after another;
- what holds of the statements that bind names and of what keeps all names holds
  of everything that an activation executes;
- an activation returns exactly if a return statement that it executes itself
  does, and then nothing is done after it.
-/

namespace Scriptlet

open Run

/-! ## Steps that succeed -/

namespace Run

variable {α : Type} {before after : Machine}

theorem ofExcept_eq_ok_iff {outcome : Except RunError α} {result : α} :
    ofExcept outcome before = .ok result after ↔ outcome = .ok result ∧ after = before := by
  cases outcome with
  | error error =>
      constructor
      · intro success
        cases success
      · rintro ⟨success, _⟩
        cases success
  | ok value =>
      constructor
      · intro success
        cases success
        exact ⟨rfl, rfl⟩
      · rintro ⟨success, rfl⟩
        cases success
        rfl

end Run

/-- What executing a node does after counting it. -/
def Evaluator.executeBody (settings : Settings) (inner : Evaluator) : Node → Run Flow
  | .expr expr => do
      let _ ← inner.exprBody settings expr
      return .proceed
  | .statement statement => inner.statementBody settings statement
  | .loop condition step body => inner.loopBody condition step body
  | .block block => execList inner.statement block

/-- Evaluating a node with fuel counts it first. -/
theorem execute_succ (settings : Settings) (fuel : Nat) (node : Node) :
    (Evaluator.atFuel settings (fuel + 1)).execute node = (do
      node.count settings
      (Evaluator.atFuel settings fuel).executeBody settings node) := by
  rw [Evaluator.atFuel_succ]
  cases node with
  | statement | loop | block => rfl
  | expr expr =>
      show ((tick settings >>= fun _ => (Evaluator.atFuel settings fuel).exprBody settings
          expr) >>= fun _ => pure .proceed) =
        (tick settings >>= fun _ => (Evaluator.atFuel settings fuel).executeBody settings
          (.expr expr))
      rw [bind_assoc]
      rfl

theorem execute_succ_eq_ok_iff {settings : Settings} {fuel : Nat} {node : Node}
    {before after : Machine} {flow : Flow} :
    (Evaluator.atFuel settings (fuel + 1)).execute node before = .ok flow after ↔
      ∃ counted, node.count settings before = .ok () counted ∧
        (Evaluator.atFuel settings fuel).executeBody settings node counted = .ok flow after := by
  rw [execute_succ, bind_eq_ok_iff]
  constructor
  · rintro ⟨_, counted, counts, executed⟩
    exact ⟨counted, counts, executed⟩
  · rintro ⟨counted, counts, executed⟩
    exact ⟨(), counted, counts, executed⟩

/-- An execution that succeeds had fuel and counted its node. -/
theorem exists_counted_of_execute {settings : Settings} {fuel : Nat} {node : Node}
    {before after : Machine} {flow : Flow}
    (executed : (Evaluator.atFuel settings fuel).execute node before = .ok flow after) :
    ∃ less counted, fuel = less + 1 ∧ node.count settings before = .ok () counted ∧
      (Evaluator.atFuel settings less).executeBody settings node counted = .ok flow after := by
  cases fuel with
  | zero =>
      rw [Evaluator.atFuel_zero] at executed
      cases node <;> cases executed
  | succ less =>
      obtain ⟨counted, counts, executed⟩ := execute_succ_eq_ok_iff.mp executed
      exact ⟨less, counted, rfl, counts, executed⟩

/-- Counting a node keeps all names. -/
theorem keepsNames_of_count {settings : Settings} {node : Node} {before counted : Machine}
    (counts : node.count settings before = .ok () counted) :
    before.scopes.KeepsNames counted.scopes :=
  (((keepingFrames settings).count node trivial).of_ok counts).2.1

/-! ## Courses -/

/-- How an execution that succeeds goes: what keeps all names, and executions of
nodes that are taken up, in sequence, of which only the last may return. -/
inductive Course (inner : Evaluator) (TakenUp : Node → Machine → Prop) :
    Machine → Flow → Machine → Prop where
  | quiet {before after : Machine} (keeps : before.scopes.KeepsNames after.scopes) :
      Course inner TakenUp before .proceed after
  | part (node : Node) {before after : Machine} {flow : Flow} (takenUp : TakenUp node before)
      (isExecuted : node.IsExecuted) (executed : inner.execute node before = .ok flow after) :
      Course inner TakenUp before flow after
  | follow {before middle after : Machine} {flow : Flow}
      (first : Course inner TakenUp before .proceed middle)
      (rest : Course inner TakenUp middle flow after) : Course inner TakenUp before flow after

/-- What holds of the parts of a course, and of one part after another, holds of
the course. -/
theorem Course.holds {inner : Evaluator} {TakenUp : Node → Machine → Prop}
    {Holds : Machine → Flow → Machine → Prop}
    (quiet : ∀ {before after : Machine}, before.scopes.KeepsNames after.scopes →
      Holds before .proceed after)
    (follow : ∀ {before middle after : Machine} {flow : Flow}, Holds before .proceed middle →
      Holds middle flow after → Holds before flow after)
    (part : ∀ {node : Node} {before after : Machine} {flow : Flow}, TakenUp node before →
      node.IsExecuted → inner.execute node before = .ok flow after → Holds before flow after)
    {before after : Machine} {flow : Flow} (course : Course inner TakenUp before flow after) :
    Holds before flow after := by
  induction course with
  | quiet keeps => exact quiet keeps
  | part node takenUp isExecuted executed => exact part takenUp isExecuted executed
  | follow _ _ first rest => exact follow first rest

/-- The name that executing a node binds, apart from what its parts bind. -/
def Node.bound? : Node → Option String
  | .statement (.assign name _) => some name
  | .statement (.declare name _ _) => some name
  | .statement (.giveBack _) => some returnName
  | _ => none

/-- Statements that did not return are followed by the rest of a block. -/
theorem execList_append_of_proceed {exec : Statement → Run Flow} {done : Block}
    {before middle : Machine} (proceeded : execList exec done before = .ok .proceed middle)
    (rest : Block) : execList exec (done ++ rest) before = execList exec rest middle := by
  induction done generalizing before with
  | nil =>
      cases proceeded
      rfl
  | cons statement others inductionHypothesis =>
      obtain ⟨flow, next, executed, proceeded⟩ := bind_eq_ok_iff.mp proceeded
      cases flow with
      | returned value => cases proceeded
      | proceed => exact (bind_of_ok executed).trans (inductionHypothesis proceeded)

section

variable {settings : Settings} {evaluator : Evaluator} {before after : Machine} {flow : Flow}
  (meets : (keepingFrames settings).Meets evaluator)

/-- Each statement of a block is taken up in the machine that those before it
leave. -/
theorem course_of_execList {done rest : Block} {start : Machine}
    (proceeded : execList evaluator.statement done start = .ok .proceed before)
    (executed : execList evaluator.statement rest before = .ok flow after) :
    Course evaluator (Opens settings evaluator (.block (done ++ rest)) start) before flow
      after := by
  induction rest generalizing done before with
  | nil =>
      cases executed
      exact .quiet (.refl _)
  | cons statement rest inductionHypothesis =>
      obtain ⟨first, middle, executes, executed⟩ := bind_eq_ok_iff.mp executed
      have part : Course evaluator
          (Opens settings evaluator (.block (done ++ statement :: rest)) start) before first
          middle :=
        .part (.statement statement) (.statement statement rest proceeded) trivial executes
      cases first with
      | returned value =>
          cases executed
          exact part
      | proceed =>
          have later : execList evaluator.statement (done ++ [statement]) start =
              .ok .proceed middle := by
            rw [execList_append_of_proceed proceeded]
            exact bind_of_ok executes
          have rest := inductionHypothesis later executed
          rw [List.append_assoc] at rest
          exact part.follow rest

include meets

theorem keepsNames_of_expr {expr : Expr} {value : Value}
    (evaluates : evaluator.expr expr before = .ok value after) :
    before.scopes.KeepsNames after.scopes := by
  have gives : (keepingFrames settings).Gives before (evaluator.expr expr) :=
    meets.expr trivial trivial
  exact (gives.of_ok evaluates).2.1

theorem keepsNames_of_execStore {base offset value : Expr}
    (executed : execStore settings evaluator.expr base offset value before = .ok () after) :
    before.scopes.KeepsNames after.scopes := by
  have ends : (keepingFrames settings).Ends before
      (execStore settings evaluator.expr base offset value) fun _ _ => True :=
    (keepingFrames settings).execStore meets trivial trivial
  exact (ends.of_ok executed).2.1

theorem keepsNames_of_loopContinues {condition : Option Expr} {goesOn : Bool}
    (decided : loopContinues evaluator.expr condition before = .ok goesOn after) :
    before.scopes.KeepsNames after.scopes := by
  cases condition with
  | none =>
      cases decided
      exact .refl _
  | some condition =>
      obtain ⟨value, evaluated, evaluates, decides⟩ := bind_eq_ok_iff.mp decided
      obtain ⟨_, rfl⟩ := ofExcept_eq_ok_iff.mp decides
      exact keepsNames_of_expr meets evaluates

theorem course_of_execChoice {TakenUp : Node → Machine → Prop} {branches : List Branch}
    {otherwise : Block}
    (takenUp : ∀ {part start}, ChoiceOpens evaluator otherwise branches before part start →
      TakenUp part start)
    (executed : execChoice evaluator.expr evaluator.block otherwise branches before =
      .ok flow after) : Course evaluator TakenUp before flow after := by
  induction branches generalizing before with
  | nil => exact .part (.block otherwise) (takenUp (.otherwise before)) trivial executed
  | cons branch rest inductionHypothesis =>
      obtain ⟨condition, body⟩ := branch
      obtain ⟨value, evaluated, evaluates, executed⟩ := bind_eq_ok_iff.mp executed
      obtain ⟨truth, _, decides, executed⟩ := bind_eq_ok_iff.mp executed
      obtain ⟨isTruth, rfl⟩ := ofExcept_eq_ok_iff.mp decides
      refine .follow (.quiet (keepsNames_of_expr meets evaluates)) ?_
      cases truth with
      | true =>
          exact .part (.block body) (takenUp (.holds body rest evaluates isTruth)) trivial executed
      | false =>
          refine inductionHypothesis (fun opens => ?_) executed
          exact takenUp (.later body evaluates isTruth opens)

theorem course_of_loopBody {condition : Option Expr} {step : Statement} {body : Block}
    (executed : evaluator.loopBody condition step body before = .ok flow after) :
    Course evaluator (Opens settings evaluator (.loop condition step body) before) before flow
      after := by
  obtain ⟨goesOn, turned, decided, executed⟩ := bind_eq_ok_iff.mp executed
  refine .follow (.quiet (keepsNames_of_loopContinues meets decided)) ?_
  cases goesOn with
  | false =>
      cases executed
      exact .quiet (.refl _)
  | true =>
      obtain ⟨bodyFlow, stepped, executesBody, executed⟩ := bind_eq_ok_iff.mp executed
      have bodyPart : Course evaluator (Opens settings evaluator (.loop condition step body) before)
          turned bodyFlow stepped :=
        .part (.block body) (.turnBody step body decided) trivial executesBody
      cases bodyFlow with
      | returned value =>
          cases executed
          exact bodyPart
      | proceed =>
          refine bodyPart.follow ?_
          obtain ⟨stepFlow, again, executesStep, executed⟩ := bind_eq_ok_iff.mp executed
          have stepPart : Course evaluator
              (Opens settings evaluator (.loop condition step body) before) stepped stepFlow
              again :=
            .part (.statement step) (.turnStep step decided executesBody) trivial executesStep
          cases stepFlow with
          | returned value =>
              cases executed
              exact stepPart
          | proceed =>
              refine stepPart.follow ?_
              exact .part (.loop condition step body) (.nextTurn decided executesBody executesStep)
                trivial executed

/-- An execution of a node that binds no name itself is a course of what the node
takes up. -/
theorem course_of_executeBody {node : Node} (isExecuted : node.IsExecuted)
    (unbound : node.bound? = none)
    (executed : evaluator.executeBody settings node before = .ok flow after) :
    Course evaluator (Opens settings evaluator node before) before flow after := by
  cases node with
  | expr => cases isExecuted
  | block block =>
      have nothing : execList evaluator.statement [] before = .ok .proceed before := rfl
      exact course_of_execList nothing executed
  | loop condition step body => exact course_of_loopBody meets executed
  | statement statement =>
      cases statement with
      | assign | declare | giveBack => cases unbound
      | skip =>
          cases executed
          exact .quiet (.refl _)
      | store base offset value =>
          obtain ⟨_, _, stores, executed⟩ := bind_eq_ok_iff.mp executed
          cases executed
          exact .quiet (keepsNames_of_execStore meets stores)
      | evaluate expr =>
          obtain ⟨_, _, evaluates, executed⟩ := bind_eq_ok_iff.mp executed
          cases executed
          exact .quiet (keepsNames_of_expr meets evaluates)
      | choose branches otherwise => exact course_of_execChoice meets .choice executed
      | loop initial condition step body =>
          obtain ⟨initialFlow, turning, executesInitial, executed⟩ := bind_eq_ok_iff.mp executed
          have initialPart : Course evaluator
              (Opens settings evaluator (.statement (.loop initial condition step body)) before)
              before initialFlow turning :=
            .part (.statement initial) (.initial initial condition step body before) trivial
              executesInitial
          cases initialFlow with
          | returned value =>
              cases executed
              exact initialPart
          | proceed =>
              refine initialPart.follow ?_
              exact .part (.loop condition step body) (.turns condition step body executesInitial)
                trivial executed

end

/-! ## Statements that bind a name -/

theorem Node.isExecuted_of_bound? {node : Node} {name : String}
    (bound : node.bound? = some name) : node.IsExecuted := by
  cases node with
  | expr => cases bound
  | statement | loop | block => trivial

/-- A statement that binds a name evaluates an expression at most, and then binds
the name. -/
theorem exists_write_of_bound? {settings : Settings} {fuel : Nat} {before after : Machine}
    {flow : Flow} {node : Node} {name : String} (bound : node.bound? = some name)
    (executed : (Evaluator.atFuel settings fuel).execute node before = .ok flow after) :
    ∃ (value : Value) (middle : Machine), before.scopes.KeepsNames middle.scopes ∧
      after = middle.write name value := by
  obtain ⟨less, counted, rfl, counts, executed⟩ := exists_counted_of_execute executed
  have keeps := keepsNames_of_count counts
  unfold Node.bound? at bound
  split at bound
  · obtain ⟨value, evaluated, evaluates, executed⟩ := bind_eq_ok_iff.mp executed
    cases bound
    cases executed
    exact ⟨value, evaluated, keeps.trans (keepsNames_of_evalExpr evaluates), rfl⟩
  · cases bound
    cases executed
    exact ⟨_, counted, keeps, rfl⟩
  · obtain ⟨value, evaluated, evaluates, executed⟩ := bind_eq_ok_iff.mp executed
    cases bound
    cases executed
    exact ⟨value, evaluated, keeps.trans (keepsNames_of_evalExpr evaluates), rfl⟩
  · cases bound

/-! ## What an activation executes -/

/-- What holds of the statements of an activation that bind names, of what keeps
all names, and of one part after another, holds of all that the activation
executes. -/
theorem Visit.Executes.holds {settings : Settings} {activation : Visit}
    (Holds : Machine → Flow → Machine → Prop)
    (quiet : ∀ {before after : Machine}, before.scopes.KeepsNames after.scopes →
      Holds before .proceed after)
    (follow : ∀ {before middle after : Machine} {flow : Flow}, Holds before .proceed middle →
      Holds middle flow after → Holds before flow after)
    (binds : ∀ {node : Node} {name : String} {fuel : Nat} {before after : Machine} {flow : Flow},
      activation.Executes settings ⟨node, fuel, before⟩ → node.bound? = some name →
      (Evaluator.atFuel settings fuel).execute node before = .ok flow after →
      Holds before flow after)
    {node : Node} {fuel : Nat} {before after : Machine} {flow : Flow}
    (executes : activation.Executes settings ⟨node, fuel, before⟩) (isExecuted : node.IsExecuted)
    (executed : (Evaluator.atFuel settings fuel).execute node before = .ok flow after) :
    Holds before flow after := by
  induction fuel using Nat.strongRecOn generalizing node before after flow with
  | ind fuel inductionHypothesis =>
      cases bound : node.bound? with
      | some name => exact binds executes bound executed
      | none =>
          obtain ⟨less, counted, rfl, counts, executed⟩ := exists_counted_of_execute executed
          have course := course_of_executeBody ((keepingFrames settings).meets_atFuel less)
            isExecuted bound executed
          refine follow (quiet (keepsNames_of_count counts)) (course.holds quiet follow ?_)
          intro part start ended partFlow opens partExecuted succeeded
          exact inductionHypothesis less (Nat.lt_succ_self less)
            (executes.tail ⟨.intro counts opens, partExecuted⟩) partExecuted succeeded

/-! ## Returning -/

section

variable {settings : Settings} {evaluator : Evaluator} {before start ended : Machine}
  {part node : Node} {value : Value}

theorem execChoice_of_choiceOpens {branches : List Branch} {otherwise : Block}
    (opens : ChoiceOpens evaluator otherwise branches before part start)
    (isExecuted : part.IsExecuted) :
    execChoice evaluator.expr evaluator.block otherwise branches before =
      evaluator.execute part start := by
  induction opens with
  | condition => cases isExecuted
  | holds body rest evaluated truth => exact (bind_of_ok evaluated).trans (by rw [truth]; rfl)
  | later body evaluated truth _ inductionHypothesis =>
      rw [← inductionHypothesis isExecuted]
      exact (bind_of_ok evaluated).trans (by rw [truth]; rfl)
  | otherwise => rfl

/-- What a node executes ends it if it returns. -/
theorem executeBody_of_opens (opens : Opens settings evaluator node before part start)
    (nodeExecuted : node.IsExecuted) (partExecuted : part.IsExecuted)
    (returned : evaluator.execute part start = .ok (.returned value) ended) :
    evaluator.executeBody settings node before = .ok (.returned value) ended := by
  cases opens with
  | choice opens => exact (execChoice_of_choiceOpens opens partExecuted).trans returned
  | initial => exact bind_of_ok returned
  | turns condition step body executed => exact (bind_of_ok executed).trans returned
  | turnBody step body goesOn => exact (bind_of_ok goesOn).trans (bind_of_ok returned)
  | turnStep step goesOn executed =>
      exact (bind_of_ok goesOn).trans ((bind_of_ok executed).trans (bind_of_ok returned))
  | nextTurn goesOn executed executedStep =>
      exact (bind_of_ok goesOn).trans
        ((bind_of_ok executed).trans ((bind_of_ok executedStep).trans returned))
  | statement statement rest executed =>
      exact (execList_append_of_proceed executed _).trans (bind_of_ok returned)
  | called => cases nodeExecuted
  | _ => cases partExecuted

theorem execute_of_begins {outer inner : Visit} (begins : outer.Begins settings inner)
    (outerExecuted : outer.node.IsExecuted) (innerExecuted : inner.node.IsExecuted)
    (returned : (Evaluator.atFuel settings inner.fuel).execute inner.node inner.machine =
      .ok (.returned value) ended) :
    (Evaluator.atFuel settings outer.fuel).execute outer.node outer.machine =
      .ok (.returned value) ended := by
  cases begins with
  | intro counts opens =>
      apply execute_succ_eq_ok_iff.mpr
      exact ⟨_, counts, executeBody_of_opens opens outerExecuted innerExecuted returned⟩

end

namespace Visit

variable {settings : Settings} {activation : Visit} {value : Value} {ended : Machine}

/-- Whether an activation executes a return statement itself, whose expression has
a value in it, and in which machine that statement ends. -/
inductive Returns (settings : Settings) (activation : Visit) : Value → Machine → Prop where
  | intro {expr : Expr} {fuel : Nat} {start counted given : Machine} {value : Value}
      (executes : activation.Executes settings ⟨.statement (.giveBack expr), fuel + 1, start⟩)
      (begins : Begins settings ⟨.statement (.giveBack expr), fuel + 1, start⟩
        ⟨.expr expr, fuel, counted⟩)
      (evaluates : evalExpr settings fuel expr counted = .ok value given) :
      Returns settings activation value (given.write returnName value)

/-- All that an activation executes is executed nodes. -/
theorem Executes.isExecuted {inner : Visit} (executes : activation.Executes settings inner)
    (isExecuted : activation.node.IsExecuted) : inner.node.IsExecuted := by
  cases executes with
  | refl => exact isExecuted
  | tail _ begins => exact begins.2

/-- What returns inside an activation ends it. -/
theorem Executes.execute_of_returned {inner : Visit}
    (executes : activation.Executes settings inner) (isExecuted : activation.node.IsExecuted)
    (returned : (Evaluator.atFuel settings inner.fuel).execute inner.node inner.machine =
      .ok (.returned value) ended) :
    (Evaluator.atFuel settings activation.fuel).execute activation.node activation.machine =
      .ok (.returned value) ended := by
  induction executes with
  | refl => exact returned
  | tail executes begins inductionHypothesis =>
      exact inductionHypothesis
        (execute_of_begins begins.1 (Executes.isExecuted executes isExecuted) begins.2 returned)

/-- An activation returns a value exactly if a return statement that it executes
itself does, and it ends where that statement ends. -/
theorem execute_eq_returned_iff (isExecuted : activation.node.IsExecuted) :
    (Evaluator.atFuel settings activation.fuel).execute activation.node activation.machine =
      .ok (.returned value) ended ↔ activation.Returns settings value ended := by
  constructor
  · intro executed
    refine Executes.holds (fun _ flow after => ∀ value, flow = .returned value →
      activation.Returns settings value after) (fun _ => nofun) (fun _ rest => rest) ?_ .refl
      isExecuted executed value rfl
    intro node name fuel before after flow executes bound succeeded value isReturned
    obtain ⟨less, counted, rfl, counts, succeeded⟩ := exists_counted_of_execute succeeded
    subst isReturned
    unfold Node.bound? at bound
    split at bound
    · obtain ⟨_, _, _, succeeded⟩ := bind_eq_ok_iff.mp succeeded
      cases succeeded
    · cases succeeded
    · obtain ⟨_, given, evaluates, succeeded⟩ := bind_eq_ok_iff.mp succeeded
      cases succeeded
      exact .intro executes (.intro counts (.returned _ counted)) evaluates
    · cases bound
  · rintro ⟨executes, begins, evaluates⟩
    apply executes.execute_of_returned isExecuted
    cases begins with
    | intro counts opens =>
        cases opens with
        | returned =>
            exact execute_succ_eq_ok_iff.mpr ⟨_, counts, bind_of_ok evaluates⟩

end Visit

end Scriptlet
