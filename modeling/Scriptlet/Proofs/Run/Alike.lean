import Scriptlet.Proofs.Run.Arrays
import Scriptlet.Proofs.Run.Coupling
import Scriptlet.Proofs.Scopes.Coherence

/-!
Contract: runs from machines that are alike stay alike.

Owns:
- scopes that are alike: names that may be used are bound to matching values, and
  a name that may not is bound in neither run, apart from globals of the second
  one that stay as they are;
- machines that are alike, with the same counts and call events;
- every primitive step keeps machines alike, so they are a coupling.

What is read back of an array does not depend on how many arrays there are, because
the machines of the first run are sound.
-/

namespace Scriptlet

open Run Store Pairing

/-! ## Likenesses -/

/-- How two runs are alike: which values match, which names may be used, and what
the others are bound to in the second run. -/
structure Likeness where
  matching : Matching
  Names : String → Prop
  hidden : Bindings
  deepest : Nat
  deep : maxArrayNesting ≤ deepest
  returnName_allowed : Names returnName
  function_iff : ∀ {declaration : FunctionDeclaration}, matching.Functions declaration ↔
    (∀ parameter ∈ declaration.parameters, Names parameter) ∧
      (Node.block declaration.body).UsesOnly Names

/-! ## Scopes -/

/-- Bindings of the same names to matching values. -/
def Matching.BindingsAlike (matching : Matching) (first second : Bindings) : Prop :=
  ∀ name : String, Option.Rel matching.Values first[name]? second[name]?

theorem none_or_some_of_rel {α β : Type} {rel : α → β → Prop} {first : Option α}
    {second : Option β} (related : Option.Rel rel first second) :
    (first = none ∧ second = none) ∨
      ∃ value other, first = some value ∧ second = some other ∧ rel value other := by
  cases related with
  | none => exact .inl ⟨rfl, rfl⟩
  | some holds => exact .inr ⟨_, _, rfl, rfl, holds⟩

theorem optionRel_insert {matching : Matching} {first second : Bindings} {name other : String}
    {value otherValue : Value} (alike : Option.Rel matching.Values first[other]? second[other]?)
    (matched : matching.Values value otherValue) :
    Option.Rel matching.Values (first.insert name value)[other]?
      (second.insert name otherValue)[other]? := by
  rw [Scopes.getElem?_insert_bindings, Scopes.getElem?_insert_bindings]
  split
  · exact .some matched
  · exact alike

namespace Likeness

variable {likeness : Likeness}

/-- Scopes that are alike. -/
structure ScopesAlike (likeness : Likeness) (first second : Scopes) : Prop where
  globals : ∀ name : String, likeness.Names name →
    Option.Rel likeness.matching.Values first.globals[name]? second.globals[name]?
  hidden : ∀ name : String, ¬ likeness.Names name →
    first.globals[name]? = none ∧ second.globals[name]? = likeness.hidden[name]?
  frames : List.Forall₂ likeness.matching.BindingsAlike first.frames second.frames

namespace ScopesAlike

variable {first second : Scopes}

theorem depth_eq (alike : likeness.ScopesAlike first second) : first.depth = second.depth :=
  alike.frames.length_eq

theorem readFrames (name : String) {frames others : List Bindings}
    (alike : List.Forall₂ likeness.matching.BindingsAlike frames others) :
    Option.Rel likeness.matching.Values (Scopes.readFrames name frames)
      (Scopes.readFrames name others) := by
  induction alike with
  | nil => exact .none
  | cons frameAlike _ inductionHypothesis =>
      rw [Scopes.readFrames, Scopes.readFrames]
      rcases none_or_some_of_rel (frameAlike name) with
        ⟨isNone, otherNone⟩ | ⟨value, other, isSome, otherSome, matched⟩
      · rw [isNone, otherNone]
        exact inductionHypothesis
      · rw [isSome, otherSome]
        exact .some matched

theorem read (alike : likeness.ScopesAlike first second) {name : String}
    (allowed : likeness.Names name) :
    Option.Rel likeness.matching.Values (first.read name) (second.read name) := by
  rw [Scopes.read, Scopes.read]
  rcases none_or_some_of_rel (readFrames name alike.frames) with
    ⟨isNone, otherNone⟩ | ⟨value, other, isSome, otherSome, matched⟩
  · rw [isNone, otherNone]
    exact alike.globals name allowed
  · rw [isSome, otherSome]
    exact .some matched

/-- Whether an allowed name is global is the same in both. -/
theorem mem_globals_iff (alike : likeness.ScopesAlike first second) {name : String}
    (allowed : likeness.Names name) : name ∈ first.globals ↔ name ∈ second.globals := by
  rw [Std.ExtTreeMap.mem_iff_isSome_getElem?, Std.ExtTreeMap.mem_iff_isSome_getElem?]
  rcases none_or_some_of_rel (alike.globals name allowed) with
    ⟨isNone, otherNone⟩ | ⟨value, other, isSome, otherSome, _⟩
  · rw [isNone, otherNone]
  · rw [isSome, otherSome]
    exact ⟨fun _ => rfl, fun _ => rfl⟩

/-- Binding an allowed name globally on both sides. -/
theorem insertGlobal (alike : likeness.ScopesAlike first second) {name : String}
    (allowed : likeness.Names name) {value other : Value}
    (matched : likeness.matching.Values value other) :
    likeness.ScopesAlike { first with globals := first.globals.insert name value }
      { second with globals := second.globals.insert name other } where
  globals found isAllowed := optionRel_insert (alike.globals found isAllowed) matched
  hidden found notAllowed := by
    have different : name ≠ found := by
      rintro rfl
      exact notAllowed allowed
    simp only [Scopes.getElem?_insert_bindings, if_neg different]
    exact alike.hidden found notAllowed
  frames := alike.frames

theorem write (alike : likeness.ScopesAlike first second) {name : String}
    (allowed : likeness.Names name) {value other : Value}
    (matched : likeness.matching.Values value other) :
    likeness.ScopesAlike (first.write name value) (second.write name other) := by
  have sameKind := alike.mem_globals_iff allowed
  have asGlobal := alike.insertGlobal allowed matched
  obtain ⟨globals, frames⟩ := first
  obtain ⟨otherGlobals, otherFrames⟩ := second
  have framesAlike := alike.frames
  cases framesAlike with
  | nil => exact asGlobal
  | cons frameAlike outerAlike =>
      simp only [Scopes.write]
      by_cases isGlobal : name ∈ globals
      · rw [if_pos isGlobal, if_pos (sameKind.mp isGlobal)]
        exact asGlobal
      · rw [if_neg isGlobal, if_neg fun otherGlobal => isGlobal (sameKind.mpr otherGlobal)]
        exact ⟨alike.globals, alike.hidden,
          .cons (fun found => optionRel_insert (frameAlike found) matched) outerAlike⟩

theorem writeAll (alike : likeness.ScopesAlike first second) {parameters : List String}
    (allowed : ∀ parameter ∈ parameters, likeness.Names parameter) {values others : List Value}
    (matched : List.Forall₂ likeness.matching.Values values others) :
    likeness.ScopesAlike (first.writeAll (parameters.zip values))
      (second.writeAll (parameters.zip others)) := by
  induction matched generalizing first second parameters with
  | nil =>
      rw [List.zip_nil_right]
      exact alike
  | cons valueMatched _ inductionHypothesis =>
      cases parameters with
      | nil => exact alike
      | cons parameter rest =>
          rw [List.forall_mem_cons] at allowed
          exact inductionHypothesis (alike.write allowed.1 valueMatched) allowed.2

theorem push (alike : likeness.ScopesAlike first second) :
    likeness.ScopesAlike first.push second.push :=
  ⟨alike.globals, alike.hidden, .cons (fun name => by simp) alike.frames⟩

theorem pop? (alike : likeness.ScopesAlike first second) :
    Option.Rel likeness.ScopesAlike first.pop? second.pop? := by
  obtain ⟨globals, frames⟩ := first
  obtain ⟨otherGlobals, otherFrames⟩ := second
  have framesAlike := alike.frames
  cases framesAlike with
  | nil => exact .none
  | cons _ outerAlike => exact .some ⟨alike.globals, alike.hidden, outerAlike⟩

end ScopesAlike

/-! ## Machines -/

/-- Machines that are alike. -/
structure Machines (likeness : Likeness) (first second : Machine) : Prop where
  store : Store.Alike likeness.matching first.store second.store
  scopes : likeness.ScopesAlike first.scopes second.scopes
  steps : first.steps = second.steps
  draws : first.draws = second.draws
  calls : first.calls = second.calls

/-- Machines that halted after the same counts and call events. -/
structure Halted (first second : Machine) : Prop where
  steps : first.steps = second.steps
  draws : first.draws = second.draws
  calls : first.calls = second.calls

/-- Machines that are alike, as a pairing.  Those of the first run are sound. -/
def pairing (likeness : Likeness) (settings : Settings) : Pairing settings where
  contract := Machine.soundnessContract settings likeness.deep
  matching := likeness.matching
  Names := likeness.Names
  Machines := likeness.Machines
  Halted := Halted
  halted machines := ⟨machines.steps, machines.draws, machines.calls⟩

variable {settings : Settings} {first second : Machine}

/-- Machines stay alike when alike scopes take the place of their scopes. -/
theorem Machines.setScopes (machines : likeness.Machines first second) {scopes other : Scopes}
    (alike : likeness.ScopesAlike scopes other) {calls otherCalls : Array CallEvent}
    (sameCalls : calls = otherCalls) :
    likeness.Machines { first with scopes := scopes, calls := calls }
      { second with scopes := other, calls := otherCalls } :=
  ⟨machines.store, alike, machines.steps, machines.draws, sameCalls⟩

theorem Machines.setStore (machines : likeness.Machines first second) {store other : Store}
    (alike : Store.Alike likeness.matching store other) :
    likeness.Machines { first with store := store } { second with store := other } :=
  ⟨alike, machines.scopes, machines.steps, machines.draws, machines.calls⟩

/-! ## Primitive steps -/

theorem couples_tick : (likeness.pairing settings).Couples Eq (tick settings) (tick settings) := by
  intro first second together
  have machines := together.machines
  have counted : likeness.Machines { first with steps := first.steps + 1 }
      { second with steps := second.steps + 1 } :=
    ⟨machines.store, machines.scopes, congrArg (· + 1) machines.steps, machines.draws,
      machines.calls⟩
  unfold Pairs
  cases limit : settings.limits.maxSteps with
  | none =>
      rw [tick_of_unbounded limit, tick_of_unbounded limit]
      exact .ok ⟨counted, rfl⟩
  | some budget =>
      rw [tick_of_bounded limit, tick_of_bounded limit]
      by_cases exceeded : budget < first.steps + 1
      · rw [if_pos exceeded, if_pos (machines.steps ▸ exceeded)]
        exact .error ((likeness.pairing settings).halted counted)
      · rw [if_neg exceeded, if_neg (machines.steps ▸ exceeded)]
        exact .ok ⟨counted, rfl⟩

theorem couples_readName {name : String} (allowed : likeness.Names name) :
    (likeness.pairing settings).Couples likeness.matching.Values (readName settings name)
      (readName settings name) := by
  have binding : (likeness.pairing settings).Couples likeness.matching.Values (readBinding name)
      (readBinding name) := by
    intro first second together
    apply pairs_get
    rcases none_or_some_of_rel (together.machines.scopes.read allowed) with
      ⟨isNone, otherNone⟩ | ⟨value, other, isSome, otherSome, matched⟩
    · rw [isNone, otherNone]
      exact pairs_pure together (.integer 0)
    · rw [isSome, otherSome]
      cases matched with
      | integer value => exact pairs_pure together (.integer value)
      | array located => exact pairs_pure together (.array located)
      | function => exact pairs_throw together _
  unfold readName
  split
  · next source _ =>
      split
      · intro first second together
        have machines := together.machines
        have sameDraw : source first.draws = source second.draws := by rw [machines.draws]
        refine .ok ⟨⟨machines.store, machines.scopes, machines.steps,
          congrArg (· + 1) machines.draws, machines.calls⟩, ?_⟩
        rw [sameDraw]
        exact .integer _
      · exact binding
  · exact binding

theorem couples_writeName {name : String} {value other : Value} (allowed : likeness.Names name)
    (matched : likeness.matching.Values value other) :
    (likeness.pairing settings).Couples Eq (writeName name value) (writeName name other) := by
  intro first second together
  have machines := together.machines
  exact .ok ⟨machines.setScopes (machines.scopes.write allowed matched) machines.calls, rfl⟩

theorem couples_readSlot {location other : Nat} (index : Int64)
    (matched : likeness.matching.Locations location other) :
    (likeness.pairing settings).Couples likeness.matching.Values (readSlot location index)
      (readSlot other index) :=
  fun _ _ together => .ok ⟨together.machines, together.machines.store.read matched _⟩

theorem couples_equal {left right otherLeft otherRight : Value}
    (leftMatched : likeness.matching.Values left otherLeft)
    (rightMatched : likeness.matching.Values right otherRight) :
    (likeness.pairing settings).Couples Eq (equal left right) (equal otherLeft otherRight) :=
  fun _ _ together => .ok ⟨together.machines,
    together.machines.store.equal_eq together.inv.labelled leftMatched rightMatched⟩

/-- Matching values are copied alike. -/
theorem couples_copyAt (level : Nat) {value other : Value}
    (matched : likeness.matching.Values value other) :
    (likeness.pairing settings).Couples likeness.matching.Values (Run.copyAt level value)
      (Run.copyAt level other) := by
  intro first second together
  have machines := together.machines
  have copied : Coupled _ _ (Store.copyAt level value first.store)
      (Store.copyAt level other second.store) :=
    coupled_copyInRoom (maxArrayNesting + 1 - level) machines.store matched
  unfold Pairs
  generalize outcome : Store.copyAt level value first.store = result at copied
  generalize otherOutcome : Store.copyAt level other second.store = otherResult at copied
  cases copied with
  | ok both =>
      rw [copyAt_of_ok outcome, copyAt_of_ok otherOutcome]
      exact .ok ⟨machines.setStore both.1, both.2⟩
  | error =>
      rw [copyAt_of_error outcome, copyAt_of_error otherOutcome]
      exact .error ⟨machines.steps, machines.draws, machines.calls⟩

theorem couples_writeSlot {location otherLocation : Nat} (index : Int64) {value other : Value}
    (located : likeness.matching.Locations location otherLocation)
    (matched : likeness.matching.Values value other) :
    (likeness.pairing settings).Couples Eq (writeSlot settings location index value)
      (writeSlot settings otherLocation index other) := by
  intro first second together
  unfold writeSlot
  simp only
  split
  · exact pairs_throw together _
  · apply pairs_get
    rw [← together.machines.store.slotLevel_eq located]
    refine (couples_copyAt _ matched _ _ together).bind
      (Machine.ends_copyAt likeness.deep _ value together.inv) fun together _ copiesMatch => ?_
    have alike := together.machines.store.write located index.toInt.toNat copiesMatch
    exact .ok ⟨together.machines.setStore alike, rfl⟩

theorem couples_callee {name : String} (arguments : Nat) (allowed : likeness.Names name) :
    (likeness.pairing settings).Couples (fun declaration other => declaration = other ∧
      likeness.matching.Functions declaration) (callee name arguments) (callee name arguments) := by
  intro first second together
  apply pairs_get
  rcases none_or_some_of_rel (together.machines.scopes.read allowed) with
    ⟨isNone, otherNone⟩ | ⟨value, other, isSome, otherSome, matched⟩
  · rw [isNone, otherNone]
    exact pairs_throw together _
  · rw [isSome, otherSome]
    cases matched with
    | integer => exact pairs_throw together _
    | array => exact pairs_throw together _
    | @function declaration allowed =>
        by_cases takes : declaration.parameters.length = arguments
        · simp only [if_pos takes]
          exact pairs_pure together ⟨rfl, allowed⟩
        · simp only [if_neg takes]
          exact pairs_throw together _

theorem couples_enterCall (name : String) {declaration : FunctionDeclaration}
    {values others : List Value} (allowed : likeness.matching.Functions declaration)
    (matched : List.Forall₂ likeness.matching.Values values others) :
    (likeness.pairing settings).Couples Eq (enterCall settings name declaration values)
      (enterCall settings name declaration others) := by
  intro first second together
  have machines := together.machines
  apply pairs_get
  simp only [machines.scopes.depth_eq]
  split
  · exact pairs_throw together _
  · have entered := machines.scopes.push.writeAll (likeness.function_iff.mp allowed).1 matched
    exact .ok ⟨machines.setScopes entered (by rw [machines.calls]), rfl⟩

theorem couples_leaveCall (name : String) (depth : Nat) :
    (likeness.pairing settings).Couples likeness.matching.Values (leaveCall name depth)
      (leaveCall name depth) := by
  intro first second together
  have machines := together.machines
  have returned : likeness.matching.Values ((first.scopes.read returnName).getD (.integer 0))
      ((second.scopes.read returnName).getD (.integer 0)) := by
    rcases none_or_some_of_rel (machines.scopes.read likeness.returnName_allowed) with
      ⟨isNone, otherNone⟩ | ⟨value, other, isSome, otherSome, matched⟩
    · rw [isNone, otherNone]
      exact .integer 0
    · rw [isSome, otherSome]
      exact matched
  apply pairs_get
  rcases none_or_some_of_rel machines.scopes.pop? with
    ⟨isNone, otherNone⟩ | ⟨scopes, other, isSome, otherSome, alike⟩
  · simp only [isNone, otherNone]
    exact pairs_throw together _
  · simp only [isSome, otherSome]
    exact .ok ⟨machines.setScopes alike (by rw [machines.calls]), returned⟩

/-! ## Array literals and calls -/

section

variable {eval : Expr → Run Value}

theorem couples_evalItems {items : List Expr}
    (gives : ∀ item ∈ items, (likeness.pairing settings).Gives eval item) (index : Nat)
    {slots others : Slots} (slotsAlike : likeness.matching.SlotsAlike slots others) :
    (likeness.pairing settings).Couples likeness.matching.SlotsAlike
      (evalItems eval index slots items) (evalItems eval index others items) := by
  induction items generalizing index slots others with
  | nil => exact fun _ _ together => pairs_pure together slotsAlike
  | cons item rest inductionHypothesis =>
      intro first second together
      rw [List.forall_mem_cons] at gives
      refine gives.1.bind together fun together _ matched => ?_
      refine (couples_copyAt 2 matched _ _ together).bind
        (Machine.ends_copyAt likeness.deep 2 _ together.inv) fun together _ copiesMatch => ?_
      exact inductionHypothesis gives.2 (index + 1) (slotsAlike.insert index copiesMatch) _ _
        together

theorem couples_evalArray {items : List Expr}
    (contract : ∀ expr, (likeness.pairing settings).contract.Gives (eval expr))
    (gives : ∀ item ∈ items, (likeness.pairing settings).Gives eval item) :
    (likeness.pairing settings).Couples likeness.matching.Values (evalArray eval items)
      (evalArray eval items) := by
  intro first second together
  refine (couples_evalItems gives 0 Matching.slotsAlike_empty _ _ together).bind
    (Machine.ends_evalItems contract likeness.deep items 0 together.inv (.refl _) pending_empty)
    fun together _ slotsAlike => ?_
  obtain ⟨alike, matched⟩ := together.machines.store.allocate 1 slotsAlike
  exact .ok ⟨together.machines.setStore alike, matched⟩

theorem couples_evalCall {exec : Block → Run Flow} {name : String} {arguments : List Expr}
    (allowed : likeness.Names name)
    (contract : ∀ expr, (likeness.pairing settings).contract.Gives (eval expr))
    (gives : ∀ argument ∈ arguments, (likeness.pairing settings).Gives eval argument)
    (executes : ∀ block, (Node.block block).UsesOnly likeness.Names →
      (likeness.pairing settings).Executes (exec block)) :
    (likeness.pairing settings).Couples likeness.matching.Values
      (evalCall settings eval exec name arguments)
      (evalCall settings eval exec name arguments) := by
  intro first second together
  refine (couples_callee arguments.length allowed _ _ together).bind
    (Machine.ends_callee name arguments.length together.inv) ?_
  rintro declaration _ _ _ together _ ⟨rfl, isAllowed⟩
  refine (couples_evalList gives contract _ _ together).bind
    (Terms.ends_evalList contract arguments together.inv) fun together has matched => ?_
  refine (couples_enterCall name isAllowed matched _ _ together).bind
    (Machine.ends_enterCall settings name declaration together.inv has) ?_
  rintro depth _ _ _ together _ rfl
  exact (executes declaration.body (likeness.function_iff.mp isAllowed).2).bind together
    fun together _ => couples_leaveCall name depth _ _ together

end

/-- Runs from machines that are alike stay alike. -/
def coupling (likeness : Likeness) (settings : Settings) : Coupling settings where
  toPairing := likeness.pairing settings
  returnName_allowed := likeness.returnName_allowed
  function_of_declare uses := likeness.function_iff.mpr
    ⟨fun _ member => uses.spelled (.inr member), uses.part (.declared _ _ _)⟩
  tick := couples_tick
  readName := couples_readName
  writeName := couples_writeName
  readSlot := couples_readSlot
  writeSlot := couples_writeSlot
  equal := couples_equal
  array := couples_evalArray
  call := couples_evalCall

/-! ## Runs -/

/-- Names that may be used have the same state values. -/
theorem getElem?_globalState (together : (likeness.pairing settings).Together first second)
    {name : String} (allowed : likeness.Names name) :
    first.globalState[name]? = second.globalState[name]? := by
  have machines := together.machines
  rw [Machine.globalState, Machine.globalState, Std.ExtTreeMap.getElem?_filterMap',
    Std.ExtTreeMap.getElem?_filterMap']
  rcases none_or_some_of_rel (machines.scopes.globals name allowed) with
    ⟨isNone, otherNone⟩ | ⟨value, other, isSome, otherSome, matched⟩
  · rw [isNone, otherNone]
    rfl
  · rw [isSome, otherSome]
    exact machines.store.stateValue_eq together.inv.labelled matched

end Likeness

/-- The report of a run with another final state, if it has one. -/
def Report.mapState (change : State → State) (report : Report) : Report :=
  { report with ending :=
      match report.ending with
      | .finished state returned => .finished (change state) returned
      | ending => ending }

@[simp] theorem Report.mapState_id (report : Report) : report.mapState id = report := by
  obtain ⟨ending, steps, draws, calls⟩ := report
  cases ending <;> rfl

/-- Executing from machines that are alike counts and logs the same and ends alike, as
far as what the final states tell. -/
theorem Likeness.ofOutcome_execBlock (likeness : Likeness) {settings : Settings} {block : Block}
    {first second : Machine} (uses : (Node.block block).UsesOnly likeness.Names)
    (together : (likeness.pairing settings).Together first second) (change : State → State)
    (changes : ∀ {after otherAfter : Machine},
      (likeness.pairing settings).Together after otherAfter → Grows first.store after.store →
      otherAfter.globalState = change after.globalState) (fuel : Nat) :
    Report.ofOutcome (execBlock settings fuel block second) =
      (Report.ofOutcome (execBlock settings fuel block first)).mapState change := by
  have executes := ((likeness.coupling settings).respects_atFuel fuel).block uses _ _ together
  have keeps := ((Machine.soundnessContract settings likeness.deep).meets_atFuel fuel).block block
    together.inv
  have leaves : ∀ {flow after}, (Evaluator.atFuel settings fuel).block block first =
      .ok flow after → after.Sound likeness.deepest ∧ Grows first.store after.store := by
    intro flow after success
    obtain ⟨inv, step, _⟩ := keeps
    rw [final_of_ok success] at inv step
    exact ⟨inv, step⟩
  have both := Coupled.and_left executes leaves
  simp only [Evaluator.atFuel] at both
  generalize execBlock settings fuel block first = outcome at both
  generalize execBlock settings fuel block second = otherOutcome at both
  cases both with
  | ok holds =>
      obtain ⟨⟨inv, grows⟩, machines, flows⟩ := holds
      have sameReturn := flows.isReturned_eq
      simp only [Report.ofOutcome, Report.mapState, changes ⟨inv, machines⟩ grows, sameReturn,
        machines.steps, machines.draws, machines.calls]
  | @error halt _ _ halted =>
      cases halt <;>
        simp only [Report.ofOutcome, Report.mapState, halted.steps, halted.draws, halted.calls]

/-- Runs against states that are loaded alike count and log the same and end alike, as
far as what their final states tell. -/
theorem Likeness.runWithFuel_eq (likeness : Likeness) {program : Program} {limits : Limits}
    {random : RandomSource} {initial other : State}
    (uses : (Node.block program.body).UsesOnly likeness.Names)
    (together : (likeness.pairing (program.settings limits random)).Together
      (Machine.ofState initial) (Machine.ofState other))
    (change : State → State)
    (changes : ∀ {first second : Machine},
      (likeness.pairing (program.settings limits random)).Together first second →
      Grows (Machine.ofState initial).store first.store →
      second.globalState = change first.globalState) (fuel : Nat) :
    program.runWithFuel fuel other limits random =
      (program.runWithFuel fuel initial limits random).mapState change := by
  rw [Program.runWithFuel_eq_execBlock, Program.runWithFuel_eq_execBlock]
  exact likeness.ofOutcome_execBlock uses together change changes fuel

end Scriptlet
