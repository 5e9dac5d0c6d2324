import Scriptlet.Proofs.Run.Declarations
import Scriptlet.Proofs.Store.Sizes

/-!
Contract: arrays stay as short as the limits, the program and the initial state allow.

Owns:
- the longest array literal of a node;
- a discipline put on top of any other one: the slots of all arrays stand below a bound,
  also where a value is returned and where evaluation halts;
- the bound that the slots of a run keep to, and the length of the lists it ends with.

Only writing a slot checks the limit.  A literal sets as many slots as it has items, and
copying and loading set those that are set in what they copy and load.
-/

namespace Scriptlet

open Run

/-! ## Array literals -/

namespace Expr

mutual

/-- Number of items of the longest array literal in an expression, 0 if there is none. -/
def longestLiteral : Expr → Nat
  | .integer _ => 0
  | .name _ => 0
  | .array items => max items.length (longestLiteralOfList items)
  | .unary _ operand => operand.longestLiteral
  | .binary _ left right => max left.longestLiteral right.longestLiteral
  | .index base offset => max base.longestLiteral offset.longestLiteral
  | .call _ arguments => longestLiteralOfList arguments

/-- The largest of a list, 0 for the empty list. -/
def longestLiteralOfList : List Expr → Nat
  | [] => 0
  | expr :: rest => max expr.longestLiteral (longestLiteralOfList rest)

end

end Expr

namespace Statement

mutual

/-- Number of items of the longest array literal in a statement, 0 if there is none. -/
def longestLiteral : Statement → Nat
  | .assign _ value => value.longestLiteral
  | .store base offset value =>
      max base.longestLiteral (max offset.longestLiteral value.longestLiteral)
  | .evaluate expr => expr.longestLiteral
  | .choose branches otherwise =>
      max (longestLiteralOfBranches branches) (longestLiteralOfBlock otherwise)
  | .loop initial condition step body =>
      max (max initial.longestLiteral ((condition.map Expr.longestLiteral).getD 0))
        (max step.longestLiteral (longestLiteralOfBlock body))
  | .declare _ _ body => longestLiteralOfBlock body
  | .giveBack value => value.longestLiteral
  | .skip => 0

/-- The larger of the condition and the body of a branch. -/
def longestLiteralOfBranch : Branch → Nat
  | .mk condition body => max condition.longestLiteral (longestLiteralOfBlock body)

/-- The largest of some branches, 0 if there are none. -/
def longestLiteralOfBranches : List Branch → Nat
  | [] => 0
  | branch :: rest => max (longestLiteralOfBranch branch) (longestLiteralOfBranches rest)

/-- The largest of the statements of a block, 0 for the empty block. -/
def longestLiteralOfBlock : List Statement → Nat
  | [] => 0
  | statement :: rest => max statement.longestLiteral (longestLiteralOfBlock rest)

end

end Statement

/-- What is measured of a member is not above the largest measure in a list. -/
theorem le_largest_of_mem {α : Type} {measure : α → Nat} {largest : List α → Nat}
    (isLargest : ∀ first rest, largest (first :: rest) = max (measure first) (largest rest))
    {member : α} {members : List α} (isMember : member ∈ members) :
    measure member ≤ largest members := by
  induction members with
  | nil => cases isMember
  | cons first rest inductionHypothesis =>
      rw [isLargest]
      rcases List.mem_cons.mp isMember with rfl | isMember
      · exact Nat.le_max_left _ _
      · exact Nat.le_trans (inductionHypothesis isMember) (Nat.le_max_right _ _)

namespace Node

/-- Number of items of the longest array literal in a node, 0 if there is none. -/
def longestLiteral : Node → Nat
  | .expr value => value.longestLiteral
  | .statement step => step.longestLiteral
  | .loop condition step body =>
      max ((condition.map Expr.longestLiteral).getD 0)
        (max step.longestLiteral (Statement.longestLiteralOfBlock body))
  | .block body => Statement.longestLiteralOfBlock body

theorem longestLiteral_le_of_part {part node : Node} (isPart : part.Part node) :
    part.longestLiteral ≤ node.longestLiteral := by
  have ofExprs : ∀ {expr : Expr} {exprs : List Expr}, expr ∈ exprs →
      expr.longestLiteral ≤ Expr.longestLiteralOfList exprs :=
    fun member => le_largest_of_mem (fun _ _ => rfl) member
  have ofBranches : ∀ {branch : Branch} {branches : List Branch}, branch ∈ branches →
      Statement.longestLiteralOfBranch branch ≤ Statement.longestLiteralOfBranches branches :=
    fun member => le_largest_of_mem (fun _ _ => rfl) member
  have ofBlock : ∀ {statement : Statement} {block : Block}, statement ∈ block →
      statement.longestLiteral ≤ Statement.longestLiteralOfBlock block :=
    fun member => le_largest_of_mem (fun _ _ => rfl) member
  cases isPart with
  | item member =>
      have inItems := ofExprs member
      simp only [longestLiteral, Expr.longestLiteral]
      omega
  | argument name member => exact ofExprs member
  | @condition _ branch member _ | @guarded _ branch member _ =>
      have inBranches := ofBranches member
      obtain ⟨condition, body⟩ := branch
      simp only [Statement.longestLiteralOfBranch] at inBranches
      simp only [longestLiteral, Statement.longestLiteral, Branch.condition, Branch.body]
      omega
  | statement member => exact ofBlock member
  | _ =>
      simp only [longestLiteral, Expr.longestLiteral, Statement.longestLiteral, Option.map_some,
        Option.getD_some]
      omega

theorem length_le_longestLiteral {items : List Expr} {node : Node}
    (within : (Node.expr (.array items)).Within node) : items.length ≤ node.longestLiteral := by
  induction within with
  | refl => exact Nat.le_max_left _ _
  | tail _ isPart inductionHypothesis =>
      exact Nat.le_trans inductionHypothesis (longestLiteral_le_of_part isPart)

end Node

/-! ## Steps -/

namespace Run

variable {α : Type} {bound : Nat} {before : Machine}

theorem slotsBelow_of_changes {action : Run α} {change : Machine → Machine → Prop}
    (changes : Changes change action)
    (sameStore : ∀ {before after}, change before after → after.store = before.store)
    (below : before.store.SlotsBelow bound) : (action.final before).store.SlotsBelow bound := by
  rw [sameStore (changes before).1]
  exact below

theorem slotsBelow_copyAt (level : Nat) (value : Value) (below : before.store.SlotsBelow bound) :
    ((copyAt level value).final before).store.SlotsBelow bound := by
  have ends := Store.endsBelow_copyInRoom (maxArrayNesting + 1 - level) value below
  cases outcome : Store.copyAt level value before.store with
  | ok copy store =>
      rw [← Store.copyAt, outcome] at ends
      rw [final_of_ok (copyAt_of_ok outcome)]
      exact ends.1
  | error error store =>
      rw [← Store.copyAt, outcome] at ends
      rw [final_of_error (copyAt_of_error outcome)]
      exact ends

/-- The only step that checks the limit. -/
theorem slotsBelow_writeSlot {settings : Settings} (limited : settings.limits.maxArrayIndex < bound)
    (location : Nat) (index : Int64) (value : Value) (below : before.store.SlotsBelow bound) :
    ((writeSlot settings location index value).final before).store.SlotsBelow bound := by
  unfold writeSlot
  simp only
  split
  · exact below
  · next atMost =>
      have copied := slotsBelow_copyAt (before.store.slotLevel location) value below
      show ((copyAt (before.store.slotLevel location) value >>= _).final before).store.SlotsBelow
        bound
      cases outcome : copyAt (before.store.slotLevel location) value before with
      | ok copy after =>
          rw [final_of_ok outcome] at copied
          rw [final_bind_of_ok outcome]
          exact copied.write location (by omega) copy
      | error halt after =>
          rw [final_of_error outcome] at copied
          rw [final_bind_of_error outcome]
          exact copied

end Run

/-! ## The discipline -/

namespace Conduct

variable {conduct : Conduct} {bound : Nat} {before : Machine} {α : Type}

/-- A conduct that keeps the slots of all arrays below a bound as well. -/
def withSlotsBelow (conduct : Conduct) (bound : Nat) : Conduct where
  Admits := conduct.Admits
  Inv machine := conduct.Inv machine ∧ machine.store.SlotsBelow bound
  Good := conduct.Good
  ExprStep := conduct.ExprStep
  ExecStep before flow after := conduct.ExecStep before flow after ∧
    (flow ≠ .proceed → after.store.SlotsBelow bound)
  Halts before halt after := conduct.Halts before halt after ∧ after.store.SlotsBelow bound
  admits_part := conduct.admits_part
  integer := conduct.integer
  stable := conduct.stable
  refl := conduct.refl
  trans := conduct.trans
  proceed machine := ⟨conduct.proceed machine, fun returned => absurd rfl returned⟩
  exprThen step next := ⟨conduct.exprThen step next.1, next.2⟩
  execThen step next := ⟨conduct.execThen step.1 next.1, next.2⟩
  exprHalts step halts := ⟨conduct.exprHalts step halts.1, halts.2⟩
  execHalts step halts := ⟨conduct.execHalts step.1 halts.1, halts.2⟩
  fail inv ordinary := ⟨conduct.fail inv.1 ordinary, inv.2⟩
  outOfFuel inv := ⟨conduct.outOfFuel inv.1, inv.2⟩

theorem ensures_withSlotsBelow {action : Run α} {post : α → Machine → Prop}
    {halts : Halt → Machine → Prop} (ensures : Ensures action before post halts)
    (below : (action.final before).store.SlotsBelow bound) :
    Ensures action before (fun result after => post result after ∧ after.store.SlotsBelow bound)
      fun halt after => halts halt after ∧ after.store.SlotsBelow bound := by
  unfold Ensures
  cases outcome : action before with
  | ok result after =>
      rw [final_of_ok outcome] at below
      exact ⟨ensures.of_ok outcome, below⟩
  | error halt after =>
      rw [final_of_error outcome] at below
      exact ⟨ensures.of_error outcome, below⟩

theorem Ends.withSlotsBelow {action : Run α} {post : α → Machine → Prop}
    (ends : conduct.Ends before action post)
    (below : (action.final before).store.SlotsBelow bound) :
    (conduct.withSlotsBelow bound).Ends before action post :=
  (ensures_withSlotsBelow ends below).weaken
    (fun ⟨⟨inv, step, holds⟩, below⟩ => ⟨⟨inv, below⟩, step, holds⟩) id

end Conduct

/-- A discipline that keeps the slots of all arrays below a bound as well, which exceeds
the largest index of a write and is not exceeded by the literals of admitted nodes. -/
def Discipline.withSlotsBelow {settings : Settings} (discipline : Discipline settings)
    {bound : Nat} (limited : settings.limits.maxArrayIndex < bound)
    (literals : ∀ {items : List Expr}, discipline.Admits (.expr (.array items)) →
      items.length ≤ bound) : Discipline settings where
  toConduct := discipline.toConduct.withSlotsBelow bound
  tick inv := (discipline.tick inv.1).withSlotsBelow
    (slotsBelow_of_changes (changes_tick settings) (fun isAfter => by rw [isAfter]) inv.2)
  readName name _ inv := (discipline.readName name inv.1).withSlotsBelow
    (slotsBelow_of_changes (changes_readName settings name) (fun isAfter => by rw [isAfter]) inv.2)
  readSlot index _ inv good := discipline.readSlot index inv.1 good
  writeSlot location index _ _ inv arrayGood good :=
    (discipline.writeSlot location index inv.1 arrayGood good).withSlotsBelow
      (slotsBelow_writeSlot limited location index _ inv.2)
  Filling base index slots now := discipline.Filling base index slots now ∧ slots.Below index
  startFilling inv := ⟨discipline.startFilling inv.1, Slots.below_empty 0⟩
  keepFilling step filling := ⟨discipline.keepFilling step filling.1, filling.2⟩
  fill {_ _ index _ _} inv filling good := by
    have filled := (discipline.fill inv.1 filling.1 good).withSlotsBelow
      (slotsBelow_copyAt 2 _ inv.2)
    exact filled.weaken fun kept =>
      ⟨kept, (filling.2.mono (Nat.le_succ index)).insert (Nat.lt_succ_self index) _⟩
  makeArray admits inv step filling := by
    obtain ⟨made, madeStep, good⟩ := discipline.makeArray admits inv.1 step filling.1
    exact ⟨⟨made, inv.2.allocate 1 (filling.2.mono (literals admits))⟩, madeStep, good⟩
  assign admits inv good := by
    obtain ⟨step, assigned⟩ := discipline.assign admits inv.1 good
    exact ⟨⟨step, fun returned => absurd rfl returned⟩, assigned, inv.2⟩
  declare admits inv := by
    obtain ⟨step, declared⟩ := discipline.declare admits inv.1
    exact ⟨⟨step, fun returned => absurd rfl returned⟩, declared, inv.2⟩
  giveBack inv good := ⟨discipline.giveBack inv.1 good, fun _ => inv.2⟩
  declared inv := discipline.declared inv.1
  enter inv admits good := ⟨discipline.enter inv.1 admits good, inv.2⟩
  enterHalts inv halts := ⟨discipline.enterHalts inv.1 halts.1, halts.2⟩
  leave {name _ _ before ended flow} inv step endedInv := by
    have below : ended.store.SlotsBelow bound := by
      by_cases proceeds : flow = .proceed
      · exact (endedInv proceeds).2
      · exact step.2 proceeds
    have leaves := discipline.leave inv.1 step.1 fun proceeds => (endedInv proceeds).1
    exact (Conduct.ensures_withSlotsBelow leaves (slotsBelow_of_changes (changes_leaveCall name _)
      (fun isAfter => by rw [isAfter]) below)).weaken
        (fun ⟨⟨left, leftStep, good⟩, below⟩ => ⟨⟨left, below⟩, leftStep, good⟩) id

/-- Where a visit of an admitted node ends, the slots of all arrays stand below the bound
too, also where it halts. -/
theorem Discipline.slotsBelow_ended {settings : Settings} (discipline : Discipline settings)
    {bound : Nat} (limited : settings.limits.maxArrayIndex < bound)
    (literals : ∀ {items : List Expr}, discipline.Admits (.expr (.array items)) →
      items.length ≤ bound)
    {visit : Visit} (admits : discipline.Admits visit.node) (inv : discipline.Inv visit.machine)
    (below : visit.machine.store.SlotsBelow bound) :
    (visit.ended settings).store.SlotsBelow bound := by
  have meets := (discipline.withSlotsBelow limited literals).meets_atFuel visit.fuel
  obtain ⟨node, fuel, machine⟩ := visit
  have executes : (discipline.toConduct.withSlotsBelow bound).Executes machine
      ((Evaluator.atFuel settings fuel).execute node) := by
    cases node with
    | expr expr =>
        exact (meets.expr admits ⟨inv, below⟩).thenExecutes fun inv _ _ =>
          Conduct.executes_proceed inv
    | statement | loop | block => exact meets.execute _ trivial admits ⟨inv, below⟩
  cases outcome : (Evaluator.atFuel settings fuel).execute node machine with
  | ok flow after =>
      rw [Visit.ended, final_of_ok outcome]
      obtain ⟨step, endedInv⟩ := executes.of_ok outcome
      by_cases proceeds : flow = .proceed
      · exact (endedInv proceeds).2
      · exact step.2 proceeds
  | error halt after =>
      rw [Visit.ended, final_of_error outcome]
      exact (executes.of_error outcome).2

/-! ## Runs -/

/-- What is loaded from a state sets no slot past its longest list. -/
theorem Machine.slotsBelow_ofState {bound : Nat} {initial : State}
    (short : initial.longestList ≤ bound) :
    (Machine.ofState initial).store.SlotsBelow bound := by
  show (loadGlobals initial).2.SlotsBelow bound
  unfold loadGlobals
  rw [Std.ExtTreeMap.foldl_eq_foldl_toList]
  apply List.foldlRecOn (motive := fun loaded : Bindings × Store => loaded.2.SlotsBelow bound)
  · exact Store.slotsBelow_empty bound
  · rintro ⟨globals, store⟩ below ⟨name, value⟩ member
    have inState : value.longestList ≤ initial.longestList :=
      State.le_foldl_max StateValue.longestList member
    exact below.load 1 (StateValue.longestList_le_iff.mp (Nat.le_trans inState short))

namespace Program

/-- The length that no array of a run exceeds: one more than the largest index of a write,
or the length of the longest array literal of the program or of the longest list of the
initial state, if these are longer. -/
def longestArray (program : Program) (limits : Limits) (initial : State) : Nat :=
  max (limits.maxArrayIndex + 1)
    (max (Node.block program.body).longestLiteral initial.longestList)

variable {features : FeatureSet} {source : String} {program : Program}

theorem slotsBelow_of_visits (compiled : compile features source = .ok program) {fuel : Nat}
    {initial : State} {limits : Limits} {random : RandomSource} {visit : Visit}
    (visits : program.Visits fuel initial limits random visit) :
    visit.machine.store.SlotsBelow (program.longestArray limits initial) ∧
      (visit.ended (program.settings limits random)).store.SlotsBelow
        (program.longestArray limits initial) := by
  let keepingApart := keepingFunctionsApart (program.settings limits random) (.block program.body)
    (returnName_not_declared compiled)
  have limited : limits.maxArrayIndex < program.longestArray limits initial :=
    Nat.lt_of_succ_le (Nat.le_max_left _ _)
  have literals : ∀ {items : List Expr},
      (Node.expr (.array items)).Within (.block program.body) →
        items.length ≤ program.longestArray limits initial := by
    intro items within
    have inProgram := Node.length_le_longestLiteral within
    unfold longestArray
    omega
  have start : (Machine.ofState initial).store.SlotsBelow
      (program.longestArray limits initial) := by
    apply Machine.slotsBelow_ofState
    unfold longestArray
    omega
  obtain ⟨admits, inv, below⟩ := (keepingApart.withSlotsBelow limited literals).of_makes visits
    .refl ⟨Machine.declaredIn_ofState _ initial, start⟩
  exact ⟨below, keepingApart.slotsBelow_ended limited literals admits inv below⟩

/-- In a run of a compiled program, wherever a node is taken up and wherever its evaluation
ends, also when it halts, every slot of every array that is set stands below the length that
the limits, the array literals of the program and the lists of the initial state allow.  So
no list of the state it finishes with, at any depth, is longer. -/
theorem arrays_stay_short (compiled : compile features source = .ok program)
    (fuel : Nat) (initial : State) (limits : Limits) (random : RandomSource) :
    (∀ visit, program.Visits fuel initial limits random visit →
      ∀ machine, machine = visit.machine ∨
          machine = visit.ended (program.settings limits random) →
        ∀ location, ∀ index ∈ machine.store.slots location,
          index < program.longestArray limits initial) ∧
    ∀ state returned,
      (program.runWithFuel fuel initial limits random).ending = .finished state returned →
      ∀ (name : String) (value : StateValue), state[name]? = some value →
        ∀ items, (StateValue.list items).Inside value →
          items.length ≤ program.longestArray limits initial := by
  refine ⟨?_, ?_⟩
  · rintro visit visits _ (rfl | rfl)
    · exact (slotsBelow_of_visits compiled visits).1
    · exact (slotsBelow_of_visits compiled visits).2
  · intro state returned isFinished name value found
    obtain ⟨flow, machine, executed, rfl, _⟩ := ending_eq_finished_iff.mp isFinished
    have below := (slotsBelow_of_visits compiled
      (.refl : program.Visits fuel initial limits random (program.visit fuel initial))).2
    have isEnded : (program.visit fuel initial).ended (program.settings limits random) = machine :=
      final_of_ok executed
    rw [isEnded] at below
    rw [Machine.globalState, Std.ExtTreeMap.getElem?_filterMap', Option.bind_eq_some_iff] at found
    obtain ⟨bound, _, reads⟩ := found
    exact below.listsUpTo reads

/-- Puts a copy of a list of the initial state into a literal that is shorter. -/
def nestsList : Program where
  features := FeatureSet.all
  body := [
    .assign "a" (.array [.integer 1, .integer 2, .integer 3]),
    .store (.name "a") (.integer 1) (.name "b")]

theorem arrays_stay_short_nestsList :
    let initial : State := (∅ : State).insert "b" (.list [.integer 0, .integer 0, .list [],
      .integer 5])
    let limits : Limits := ⟨none, 10, 1⟩
    let settings := nestsList.settings limits fun _ => 0
    nestsList.longestArray limits initial = 4 ∧
    (∀ location, ∀ index ∈ ((nestsList.visit 20 initial).ended settings).store.slots location,
      index < 4) ∧
    ∃ state, (nestsList.runWithFuel 20 initial limits fun _ => 0).ending =
        .finished state false ∧
      state["a"]? = some (.list [.integer 1,
        .list [.integer 0, .integer 0, .list [], .integer 5], .integer 3]) ∧
      ∀ items, (StateValue.list items).Inside (.list [.integer 1,
        .list [.integer 0, .integer 0, .list [], .integer 5], .integer 3]) →
        items.length ≤ 4 := by
  intro initial limits settings
  have compiled : compile FeatureSet.all "a = [1, 2, 3]\na[1] = b" = .ok nestsList := by
    decide +kernel
  have isBound : nestsList.longestArray limits initial = 4 := by decide +kernel
  obtain ⟨slots, lists⟩ := arrays_stay_short compiled 20 initial limits fun _ => 0
  rw [isBound] at slots lists
  have isFinished : (nestsList.runWithFuel 20 initial limits fun _ => 0).ending =
      .finished ((nestsList.visit 20 initial).ended settings).globalState false := by
    decide +kernel
  have found : ((nestsList.visit 20 initial).ended settings).globalState["a"]? =
      some (.list [.integer 1, .list [.integer 0, .integer 0, .list [], .integer 5],
        .integer 3]) := by
    decide +kernel
  exact ⟨isBound, slots _ .refl _ (.inr rfl), _, isFinished, found,
    lists _ _ isFinished _ _ found⟩

end Program

end Scriptlet
