import Scriptlet.Proofs.Parser.Joint
import Scriptlet.Proofs.Run.Activation
import Scriptlet.Proofs.Run.Scalar

/-!
Contract: the state that one program leaves is all that the next one needs.

Owns:
- the machine that a scalar run starts in and every one that it ends in binds names
  to values only, with no call active;
- such a machine is seen as the one that is made of the state it reads back as;
- running two texts one after the other is running them as one text.

Between the two runs the state becomes lists and arrays again.  Names that shared an
array no longer do, and zeros at the ends of arrays are lost.
-/

namespace Scriptlet

open Run

/-- Two texts that compile also do with a line feed between them, to the statements of
both. -/
theorem Program.compile_append_newline {features : FeatureSet} {source later : String}
    {first second : Program} (compiledFirst : compile features source = .ok first)
    (compiledSecond : compile features later = .ok second) :
    compile features (source ++ "\n" ++ later) = .ok ⟨features, first.body ++ second.body⟩ := by
  rw [compile, parse_append_newline (parse_of_compile compiledFirst)
    (parse_of_compile compiledSecond)]
  rfl

theorem Program.features_of_compile {features : FeatureSet} {source : String} {program : Program}
    (compiled : compile features source = .ok program) : program.features = features := by
  rw [compile, parse_of_compile compiled] at compiled
  exact (congrArg Program.features (Except.ok.inj compiled)).symm

theorem Settings.afterDraws_zero (settings : Settings) : settings.afterDraws 0 = settings := by
  have sameSource : (fun (source : RandomSource) draw => source (0 + draw)) = id := by
    funext source draw
    rw [Nat.zero_add]
    rfl
  rw [afterDraws, sameSource, Option.map_id]
  rfl

theorem Program.settings_afterDraws (program : Program) (limits : Limits) (random : RandomSource)
    (made : Nat) : (program.settings limits random).afterDraws made =
      program.settings limits fun draw => random (made + draw) := by
  unfold settings Settings.afterDraws
  split <;> rfl

/-! ## Machines between runs -/

/-- Whether no call is active and every name is bound to a value that can be read
back. -/
structure Machine.AtRest (machine : Machine) : Prop where
  frames : machine.scopes.frames = []
  globals : ∀ {name : String} {value : Value}, machine.scopes.globals[name]? = some value →
    ∃ seen, machine.store.stateValue value = some seen

theorem Machine.atRest_ofState (initial : State) : (ofState initial).AtRest where
  frames := rfl
  globals := by
    intro name value found
    have member := mem_globals_ofState.mp (Std.ExtTreeMap.mem_iff_isSome_getElem?.mpr
      (Option.isSome_iff_exists.mpr ⟨value, found⟩))
    have isState := congrArg (·[name]?) (globalState_ofState initial)
    rw [globalState, Std.ExtTreeMap.getElem?_filterMap', Std.ExtTreeMap.getElem?_map, found,
      Std.ExtTreeMap.getElem?_eq_some_getElem member] at isState
    exact ⟨_, isState⟩

namespace View

variable {view : View} {first second : Machine}

theorem Machines.atRest (machines : view.Machines first second) : first.AtRest where
  frames := machines.firstFrames
  globals := by
    intro name value found
    rcases none_or_some_of_rel (machines.globals name) with
      ⟨isNone, _⟩ | ⟨_, _, isSome, _, seen, isSeen, _⟩
    · cases isNone.symm.trans found
    · cases isSome.symm.trans found
      rw [machines.firstStore]
      exact ⟨seen, isSeen⟩

/-- Machines at rest that read back as the same state are seen as the same. -/
theorem machines_of_globalState (firstRests : first.AtRest) (secondRests : second.AtRest)
    (same : first.globalState = second.globalState) {ahead : Nat}
    (draws : first.draws = ahead + second.draws) :
    (View.mk first.store second.store ahead).Machines first second where
  firstStore := rfl
  secondStore := rfl
  firstFrames := firstRests.frames
  secondFrames := secondRests.frames
  draws := draws
  globals := by
    intro name
    have sameName := congrArg (·[name]?) same
    simp only [Machine.globalState, Std.ExtTreeMap.getElem?_filterMap'] at sameName
    cases found : first.scopes.globals[name]? with
    | none =>
        cases otherFound : second.scopes.globals[name]? with
        | none => exact .none
        | some other =>
            obtain ⟨seen, isSeen⟩ := secondRests.globals otherFound
            rw [found, otherFound, Option.bind_none, Option.bind_some, isSeen] at sameName
            cases sameName
    | some value =>
        obtain ⟨seen, isSeen⟩ := firstRests.globals found
        cases otherFound : second.scopes.globals[name]? with
        | none =>
            rw [found, otherFound, Option.bind_none, Option.bind_some, isSeen] at sameName
            cases sameName
        | some other =>
            rw [found, otherFound, Option.bind_some, Option.bind_some, isSeen] at sameName
            exact .some ⟨seen, isSeen, sameName.symm⟩

/-- Blocks that end alike are reported to. -/
theorem ending_eq_of_coupled {outcome other : EStateM.Result Halt Machine Flow}
    (coupled : Coupled (fun flow after otherFlow otherAfter => view.Machines after otherAfter ∧
      Proceeds flow otherFlow) (fun _ _ => True) outcome other) :
    (Report.ofOutcome outcome).ending = (Report.ofOutcome other).ending := by
  cases coupled with
  | ok holds =>
      obtain ⟨machines, rfl, rfl⟩ := holds
      exact congrArg (Ending.finished · false) machines.globalState_eq
  | error => rfl

end View

/-- Statements that halt do so with more statements after them. -/
theorem execList_append_of_error {exec : Statement → Run Flow} {done : Block}
    {before after : Machine} {halt : Halt} (failure : execList exec done before = .error halt after)
    (rest : Block) : execList exec (done ++ rest) before = .error halt after := by
  induction done generalizing before with
  | nil => cases failure
  | cons statement others inductionHypothesis =>
      rw [List.cons_append, execList]
      rw [execList] at failure
      cases executed : exec statement before with
      | error other middle =>
          rw [bind_of_error executed] at failure ⊢
          exact failure
      | ok flow middle =>
          rw [bind_of_ok executed] at failure ⊢
          cases flow with
          | returned value => cases failure
          | proceed => exact inductionHypothesis failure

section

variable {settings : Settings} {fuel : Nat} {block rest : Block} {before after : Machine}
  (unbounded : settings.limits.maxSteps = none)

include unbounded

/-- A scalar block does not return, and leaves the machine at rest.  It ends as it does
from the machine itself, which is seen as the same. -/
theorem Machine.AtRest.of_execBlock (atRest : before.AtRest) (scalar : (Node.block block).Scalar)
    {flow : Flow} (success : execBlock settings fuel block before = .ok flow after) :
    flow = .proceed ∧ after.AtRest := by
  have machines : (View.mk before.store before.store 0).Machines before before :=
    View.machines_of_globalState atRest atRest rfl (Nat.zero_add _).symm
  have coupled := (View.keeps_atFuel unbounded fuel).block scalar machines
  rw [Settings.afterDraws_zero, Evaluator.atFuel] at coupled
  simp only [success] at coupled
  cases coupled with
  | ok holds => exact ⟨holds.2.1, holds.1.atRest⟩

/-- A block that halts does so with more statements after it. -/
theorem execBlock_append_of_error {halt : Halt}
    (failure : execBlock settings fuel block before = .error halt after) (rest : Block) :
    execBlock settings fuel (block ++ rest) before = .error halt after := by
  cases fuel with
  | zero => exact failure
  | succ fuel =>
      have ticked := tick_of_unbounded unbounded before
      rw [execBlock, bind_of_ok ticked] at failure ⊢
      exact execList_append_of_error failure rest

/-- A block that proceeds is followed by the statements after it. -/
theorem execBlock_append_of_proceed
    (proceeded : execBlock settings fuel block before = .ok .proceed after) (rest : Block) :
    ∃ inner, fuel = inner + 1 ∧ execBlock settings fuel (block ++ rest) before =
      execList (execStatement settings inner) rest after := by
  cases fuel with
  | zero => cases proceeded
  | succ fuel =>
      have ticked := tick_of_unbounded unbounded before
      refine ⟨fuel, rfl, ?_⟩
      rw [execBlock, bind_of_ok ticked] at proceeded ⊢
      exact execList_append_of_proceed proceeded rest

/-- Where a machine comes to rest between two scalar blocks, the second one ends as it
does from the state that the machine reads back as. -/
theorem ending_append_of_proceed (scalar : (Node.block rest).Scalar) (atRest : after.AtRest)
    (proceeded : execBlock settings fuel block before = .ok .proceed after) :
    (Report.ofOutcome (execBlock settings fuel (block ++ rest) before)).ending =
      (Report.ofOutcome (execBlock (settings.afterDraws after.draws) fuel rest
        (Machine.ofState after.globalState))).ending := by
  have readsBack : (Machine.ofState after.globalState).globalState = after.globalState :=
    Machine.globalState_ofState_of_normal Machine.normal_of_globalState
  let view : View := ⟨after.store, (Machine.ofState after.globalState).store, after.draws⟩
  have machines : view.Machines after (Machine.ofState after.globalState) :=
    View.machines_of_globalState atRest (Machine.atRest_ofState _) readsBack.symm rfl
  obtain ⟨inner, rfl, isRest⟩ := execBlock_append_of_proceed unbounded proceeded rest
  have alsoUnbounded : (settings.afterDraws after.draws).limits.maxSteps = none := unbounded
  have sees : view.Sees View.Proceeds (execList (execStatement settings inner) rest)
      (execList (execStatement (settings.afterDraws view.ahead) inner) rest) :=
    View.sees_execList fun _ member =>
      (View.keeps_atFuel unbounded inner).statement (scalar.part (.statement member))
  rw [isRest, execBlock, bind_of_ok (tick_of_unbounded alsoUnbounded _)]
  exact View.ending_eq_of_coupled (sees (machines.withSteps after.steps _))

end

namespace Program

variable {program : Program} {fuel : Nat} {initial : State} {limits : Limits}
  {random : RandomSource}

/-- A run without a budget that ends does so with more fuel. -/
theorem runWithFuel_of_le (unbounded : limits.maxSteps = none) {more : Nat} (enough : fuel ≤ more)
    (ended : (program.runWithFuel fuel initial limits random).ending ≠ .outOfFuel) :
    program.runWithFuel more initial limits random =
      program.runWithFuel fuel initial limits random := by
  have isLimits : limits = { limits with maxSteps := none } := by rw [← unbounded]
  obtain ⟨rest, rfl⟩ := Nat.exists_eq_add_of_le enough
  rw [isLimits, runWithFuel_eq_ofOutcome] at ended ⊢
  rw [runWithFuel_eq_ofOutcome]
  have goesOn := (extends_atFuel (program.settings limits random) fuel rest).block program.body
    (Machine.ofState initial)
  refine congrArg Report.ofOutcome (goesOn.1 ?_)
  rintro ⟨machine, exhausted⟩
  exact ended (congrArg (fun outcome => (Report.ofOutcome outcome).ending) exhausted)

/-- A run that exhausts any fuel ends as one that it ends as with enough fuel. -/
theorem exhausts_of_eventually_eq (unbounded : limits.maxSteps = none) {other : Program}
    {otherInitial : State} {otherRandom : RandomSource}
    (same : ∀ more ≥ fuel, (program.runWithFuel more initial limits random).ending =
      (other.runWithFuel more otherInitial limits otherRandom).ending)
    (exhausts : ∀ any, (program.runWithFuel any initial limits random).ending = .outOfFuel)
    (any : Nat) : (other.runWithFuel any otherInitial limits otherRandom).ending = .outOfFuel := by
  by_contra ended
  have stillEnded := runWithFuel_of_le unbounded (Nat.le_max_left any fuel) ended
  rw [← stillEnded, ← same _ (Nat.le_max_right any fuel)] at ended
  exact ended (exhausts _)

/-- Programs with the same features are run under the same settings. -/
theorem settings_eq {other : Program} (same : program.features = other.features)
    (limits : Limits) (random : RandomSource) :
    program.settings limits random = other.settings limits random := by
  rw [settings, settings, same]

/-- Where the first of two texts finishes, both as one text end as the second does from
the state that the first leaves, with the draws after its own. -/
theorem ending_append_of_finished {first second whole : Program}
    (sameFirst : whole.features = first.features) (sameSecond : second.features = first.features)
    (isBody : whole.body = first.body ++ second.body) (unbounded : limits.maxSteps = none)
    (scalarFirst : (Node.block first.body).Scalar) (scalarSecond : (Node.block second.body).Scalar)
    {carried : State} {returned : Bool}
    (finished : (first.runWithFuel fuel initial limits random).ending =
      .finished carried returned) :
    (whole.runWithFuel fuel initial limits random).ending =
      (second.runWithFuel fuel carried limits fun draw =>
        random ((first.runWithFuel fuel initial limits random).draws + draw)).ending := by
  obtain ⟨flow, machine, success, rfl, _⟩ := ending_eq_finished_iff.mp finished
  have alsoUnbounded : (first.settings limits random).limits.maxSteps = none := unbounded
  obtain ⟨rfl, atRest⟩ :=
    (Machine.atRest_ofState initial).of_execBlock alsoUnbounded scalarFirst success
  have isDraws : (first.runWithFuel fuel initial limits random).draws = machine.draws := by
    rw [runWithFuel_eq_execBlock, success]
    rfl
  rw [isDraws, runWithFuel_eq_execBlock, runWithFuel_eq_execBlock, isBody,
    settings_eq sameFirst, settings_eq sameSecond, ← settings_afterDraws]
  exact ending_append_of_proceed alsoUnbounded scalarSecond atRest success

/-- Carrying a state from run to run composes.  Take two texts that compile with neither
functions nor arrays among the features.  With a line feed between them they compile too.
Without a step budget, if the first one fails from a state, so does the whole, with the
same error.  If it finishes, the whole ends as the second one does from the state that the
first leaves, with the draws that come after those made: both with the same error or the
same final state, or neither ends with any fuel. -/
theorem carried_state_composes {features : FeatureSet} {source later : String}
    {first second : Program} (without : .function ∉ features ∧ .array ∉ features)
    (compiledFirst : compile features source = .ok first)
    (compiledSecond : compile features later = .ok second) :
    ∃ whole, compile features (source ++ "\n" ++ later) = .ok whole ∧
      ∀ (initial : State) (limits : Limits) (random : RandomSource) (fuel : Nat),
        limits.maxSteps = none →
        (∀ error, (first.runWithFuel fuel initial limits random).ending = .failed error →
          ∀ more ≥ fuel,
            (whole.runWithFuel more initial limits random).ending = .failed error) ∧
        ∀ (carried : State) (returned : Bool),
          (first.runWithFuel fuel initial limits random).ending = .finished carried returned →
          let others : RandomSource := fun draw =>
            random ((first.runWithFuel fuel initial limits random).draws + draw)
          (∀ more ≥ fuel, (whole.runWithFuel more initial limits random).ending =
            (second.runWithFuel more carried limits others).ending) ∧
          ((∀ any, (whole.runWithFuel any initial limits random).ending = .outOfFuel) ↔
            ∀ any, (second.runWithFuel any carried limits others).ending = .outOfFuel) := by
  have sameFirst := features_of_compile compiledFirst
  have sameSecond := features_of_compile compiledSecond
  have scalarFirst := scalar_of_parse without (parse_of_compile compiledFirst)
  have scalarSecond := scalar_of_parse without (parse_of_compile compiledSecond)
  refine ⟨_, compile_append_newline compiledFirst compiledSecond, ?_⟩
  intro initial limits random fuel unbounded
  constructor
  · intro error failed more enough
    have stillFails : (first.runWithFuel more initial limits random).ending = .failed error := by
      rw [runWithFuel_of_le unbounded enough (by rw [failed]; exact nofun), failed]
    obtain ⟨machine, failure⟩ := ending_eq_failed_iff.mp stillFails
    refine ending_eq_failed_iff.mpr ⟨machine, ?_⟩
    rw [settings_eq (show _ = first.features from sameFirst.symm)]
    exact execBlock_append_of_error unbounded failure second.body
  · intro carried returned finished others
    have ends : ∀ more ≥ fuel, (runWithFuel ⟨features, first.body ++ second.body⟩ more initial
        limits random).ending = (second.runWithFuel more carried limits others).ending := by
      intro more enough
      have sameReport : first.runWithFuel more initial limits random =
          first.runWithFuel fuel initial limits random :=
        runWithFuel_of_le unbounded enough (by rw [finished]; exact nofun)
      rw [← sameReport] at finished
      rw [ending_append_of_finished sameFirst.symm (sameSecond.trans sameFirst.symm) rfl unbounded
        scalarFirst scalarSecond finished, sameReport]
    refine ⟨ends, exhausts_of_eventually_eq unbounded ends, ?_⟩
    exact exhausts_of_eventually_eq unbounded fun more enough => (ends more enough).symm

/-- All features but functions and arrays. -/
def scalarFeatures : FeatureSet :=
  .ofTest fun feature => feature != .function && feature != .array

/-- Gives a list a second name, and draws. -/
def sharesList : Program where
  features := scalarFeatures
  body := [.assign "b" (.name "a"), .assign "x" (.name "rand")]

/-- Draws again if the two names have equal lists. -/
def comparesLists : Program where
  features := scalarFeatures
  body := [.choose [.mk (.binary .is (.name "a") (.name "b"))
    [.assign "x" (.binary .multiply (.name "x") (.name "rand"))]] []]

/-- The names share the list in the whole, and have lists of their own in the second
run.  Both are equal, and the second draw is the one that comes after the first. -/
theorem carried_state_composes_sharesList :
    let initial := (∅ : State).insert "a"
      (.list [.list [.integer 1, .integer 0], .integer 0, .integer 2, .integer 0])
    let list := StateValue.list [.list [.integer 1], .integer 0, .integer 2]
    let carried := (((∅ : State).insert "a" list).insert "b" list).insert "x" (.integer 3)
    compile scalarFeatures "b=a\nx=rand" = .ok sharesList ∧
    compile scalarFeatures "\n#again\nif a is b \x7b x = x * rand \x7d" = .ok comparesLists ∧
    (sharesList.runWithFuel 12 initial Limits.default (.ofArray #[3, 5])).ending =
      .finished carried false ∧
    ∃ whole, compile scalarFeatures
        ("b=a\nx=rand" ++ "\n" ++ "\n#again\nif a is b \x7b x = x * rand \x7d") = .ok whole ∧
      (whole.runWithFuel 12 initial Limits.default (.ofArray #[3, 5])).ending =
        .finished (carried.insert "x" (.integer 15)) false := by
  intro initial list carried
  have compiledFirst : compile scalarFeatures "b=a\nx=rand" = .ok sharesList := by
    decide +kernel
  have compiledSecond : compile scalarFeatures "\n#again\nif a is b \x7b x = x * rand \x7d" =
      .ok comparesLists := by
    decide +kernel
  have finished : (sharesList.runWithFuel 12 initial Limits.default (.ofArray #[3, 5])).ending =
      .finished carried false := by
    decide +kernel
  obtain ⟨whole, compiled, composes⟩ :=
    carried_state_composes (by decide) compiledFirst compiledSecond
  have ends := ((composes initial Limits.default (.ofArray #[3, 5]) 12 (by decide)).2 carried false
    finished).1 12 (Nat.le_refl _)
  refine ⟨compiledFirst, compiledSecond, finished, whole, compiled, ends.trans ?_⟩
  decide +kernel

end Program

end Scriptlet
