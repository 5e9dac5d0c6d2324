import Scriptlet.Proofs.Run.Declarations
import Scriptlet.Proofs.Run.Snapshots
import Scriptlet.Proofs.Store.Height
import Scriptlet.Proofs.Store.Match

/-!
Contract: arrays are equal exactly if they read alike at every index.

Owns:
- values that are the same down to their integers, whatever arrays they are made of;
- in a store of data, arrays are equal exactly if what they read as is, at each
  index, and exactly if they are the same in this sense;
- machines are sound wherever a run takes up a node and wherever its evaluation
  ends;
- what `is` and `is not` give in these machines.

Equality is decided by reading arrays back as lists, which have no zeros at their
ends and zeros where slots are unset.  An empty array still differs from a zero.
-/

namespace Scriptlet

open Run StateValue

namespace Store

variable {store : Store} {deepest : Nat}

/-- Whether values are the same: integers that are, or arrays that hold the same at
every index. -/
inductive Same (store : Store) : Value → Value → Prop where
  | integer (number : Int64) : Same store (.integer number) (.integer number)
  | array (left right : Nat) :
      (∀ index, Same store (store.read left index) (store.read right index)) →
      Same store (.array left) (.array right)

/-- That one array is equal to itself takes no reading back. -/
theorem equal_array (store : Store) (left right : Nat) :
    store.equal (.array left) (.array right) =
      (store.stateValue (.array left) == store.stateValue (.array right)) := by
  by_cases same : left = right
  · rw [same, equal, beq_self_eq_true, beq_self_eq_true, Bool.true_or]
  · rw [equal, beq_eq_false_iff_ne.mpr same, Bool.false_or]

/-- Data reads back the same exactly if it is equal. -/
theorem readsAs_eq_iff (store : Store) {left right : Value} (leftData : left.IsData)
    (rightData : right.IsData) :
    store.readsAs store.cells.size left = store.readsAs store.cells.size right ↔
      store.equal left right = true := by
  have readsArray : ∀ location, ∃ items, store.stateValue (.array location) = some (.list items) ∧
      store.readsAs store.cells.size (.array location) = .list items := by
    intro location
    unfold readsAs stateValue
    cases store.cells.size <;> exact ⟨_, rfl, rfl⟩
  have readsInteger : ∀ number,
      store.readsAs store.cells.size (.integer number) = .integer number := by
    intro number
    unfold readsAs
    cases store.cells.size <;> rfl
  cases left with
  | function => exact leftData.elim
  | integer number =>
      cases right with
      | function => exact rightData.elim
      | integer other => simp [readsInteger, equal]
      | array location =>
          obtain ⟨items, _, isList⟩ := readsArray location
          simp [readsInteger, isList, equal]
  | array location =>
      obtain ⟨items, isState, isList⟩ := readsArray location
      cases right with
      | function => exact rightData.elim
      | integer other => simp [readsInteger, isList, equal]
      | array other =>
          obtain ⟨others, isOtherState, isOther⟩ := readsArray other
          rw [equal_array, isState, isOtherState, isList, isOther]
          simp

/-- Arrays of data are equal exactly if what they hold is, at each index. -/
theorem Labelled.equal_array_iff (labelled : store.Labelled deepest) (holdsData : store.HoldsData)
    (left right : Nat) :
    store.equal (.array left) (.array right) = true ↔
      ∀ index, store.equal (store.read left index) (store.read right index) = true := by
  obtain ⟨items, isList, trimmed, isItem⟩ := store.exists_items_of_array store.cells.size left
  obtain ⟨others, isOther, otherTrimmed, isOtherItem⟩ :=
    store.exists_items_of_array store.cells.size right
  rw [labelled.stateValueUpTo_of_size_le _ (Nat.le_succ _)] at isList isOther
  have sameLists : store.equal (.array left) (.array right) = true ↔ items = others := by
    rw [equal_array, isList, isOther]
    simp
  have sameItems : items = others ↔ ∀ index, itemAt items index = itemAt others index :=
    ⟨fun same index => by rw [same], fun same => trimmed.eq_of_itemAt_eq otherTrimmed same⟩
  rw [sameLists, sameItems]
  refine forall_congr' fun index => ?_
  rw [isItem, isOtherItem]
  exact readsAs_eq_iff store (holdsData.read left index) (holdsData.read right index)

/-- Equal data is made of equal integers, or of arrays that are equal. -/
theorem equal_data_iff {left right : Value} (leftData : left.IsData) (rightData : right.IsData) :
    store.equal left right = true ↔
      (∃ number, left = .integer number ∧ right = .integer number) ∨
        ∃ inner other, left = .array inner ∧ right = .array other ∧
          store.equal (.array inner) (.array other) = true := by
  cases left with
  | function => exact leftData.elim
  | integer number =>
      cases right with
      | function => exact rightData.elim
      | integer other =>
          rw [equal, beq_iff_eq]
          constructor
          · rintro rfl
            exact .inl ⟨number, rfl, rfl⟩
          · rintro (⟨same, isNumber, isOther⟩ | ⟨inner, other, isArray, _⟩)
            · cases isNumber
              cases isOther
              rfl
            · cases isArray
      | array location => simp [equal]
  | array location =>
      cases right with
      | function => exact rightData.elim
      | integer other => simp [equal]
      | array other => simp

/-- Chains of arrays that start at a value have a bound. -/
theorem Labelled.exists_nests_le (labelled : store.Labelled deepest) (value : Value) :
    ∃ bound, ∀ count, store.Nests value count → count ≤ bound := by
  by_cases has : store.Has value
  · exact ⟨_, fun count nests => (labelled.isGreatest_height has).2 nests⟩
  · simp only [Has, not_forall] at has
    obtain ⟨location, rfl, outside⟩ := has
    refine ⟨1, fun count nests => ?_⟩
    cases nests with
    | none => exact Nat.zero_le 1
    | array _ index nests =>
        rw [read_of_size_le (Nat.le_of_not_lt outside)] at nests
        cases nests
        exact Nat.le_refl 1

/-- Data is equal exactly if it is the same down to its integers. -/
theorem Labelled.equal_iff_same (labelled : store.Labelled deepest) (holdsData : store.HoldsData)
    {left right : Value} (leftData : left.IsData) (rightData : right.IsData) :
    store.equal left right = true ↔ store.Same left right := by
  constructor
  · intro isEqual
    obtain ⟨bound, nested⟩ := labelled.exists_nests_le left
    -- The chains below an array are shorter than those that start at it.
    induction bound generalizing left right with
    | zero =>
        rcases (equal_data_iff leftData rightData).mp isEqual with
          ⟨number, rfl, rfl⟩ | ⟨inner, other, rfl, rfl, _⟩
        · exact .integer number
        · exact absurd (nested 1 (.array inner 0 (.none _))) (by decide)
    | succ bound inductionHypothesis =>
        rcases (equal_data_iff leftData rightData).mp isEqual with
          ⟨number, rfl, rfl⟩ | ⟨inner, other, rfl, rfl, _⟩
        · exact .integer number
        · refine .array inner other fun index => ?_
          apply inductionHypothesis (holdsData.read inner index) (holdsData.read other index)
            ((labelled.equal_array_iff holdsData inner other).mp isEqual index)
          exact fun count nests => Nat.le_of_succ_le_succ (nested _ (.array inner index nests))
  · intro same
    clear leftData rightData
    induction same with
    | integer number => exact beq_self_eq_true number
    | array inner other _ inductionHypothesis =>
        exact (labelled.equal_array_iff holdsData inner other).mpr inductionHypothesis

end Store

/-! ## Comparing -/

/-- Whether two outcomes answer a question with opposite truth values in one machine,
or halt in the same way. -/
inductive Opposite : EStateM.Result Halt Machine Value → EStateM.Result Halt Machine Value → Prop
  | answers (same : Bool) (machine : Machine) :
      Opposite (.ok (.ofBool same) machine) (.ok (.ofBool (!same)) machine)
  | halts (halt : Halt) (machine : Machine) : Opposite (.error halt machine) (.error halt machine)

theorem opposite_applyBinary (left right : Value) (machine : Machine) :
    Opposite (applyBinary .is left right machine) (applyBinary .isNot left right machine) :=
  .answers (machine.store.equal left right) machine

/-- Whatever `is` gives of two expressions, `is not` gives the opposite. -/
theorem opposite_evalExpr (settings : Settings) (fuel : Nat) (left right : Expr)
    (machine : Machine) :
    Opposite (evalExpr settings fuel (.binary .is left right) machine)
      (evalExpr settings fuel (.binary .isNot left right) machine) := by
  cases fuel with
  | zero => exact .halts .outOfFuel machine
  | succ fuel =>
      rw [evalExpr, evalExpr]
      cases counts : tick settings machine with
      | error halt after =>
          rw [bind_of_error counts, bind_of_error counts]
          exact .halts halt after
      | ok _ counted =>
          rw [bind_of_ok counts, bind_of_ok counts]
          simp only [evalBinary]
          cases evaluated : evalExpr settings fuel left counted with
          | error halt after =>
              rw [bind_of_error evaluated, bind_of_error evaluated]
              exact .halts halt after
          | ok leftValue middle =>
              rw [bind_of_ok evaluated, bind_of_ok evaluated]
              cases evaluatedRight : evalExpr settings fuel right middle with
              | error halt after =>
                  rw [bind_of_error evaluatedRight, bind_of_error evaluatedRight]
                  exact .halts halt after
              | ok rightValue after =>
                  rw [bind_of_ok evaluatedRight, bind_of_ok evaluatedRight]
                  exact opposite_applyBinary leftValue rightValue after

namespace Program

variable {features : FeatureSet} {source : String} {program : Program} {fuel : Nat}
  {initial : State} {limits : Limits} {random : RandomSource}

/-- Machines are sound wherever a run takes up a node and wherever its evaluation
ends. -/
theorem sound_of_visits {visit : Visit} (visits : program.Visits fuel initial limits random visit) :
    visit.machine.Sound (max maxArrayNesting initial.nesting) ∧
      (visit.ended (program.settings limits random)).Sound
        (max maxArrayNesting initial.nesting) := by
  have deep := Nat.le_max_left maxArrayNesting initial.nesting
  obtain ⟨_, sound⟩ := (Machine.keepingApart (program.settings limits random) deep).of_makes
    visits trivial (Machine.sound_ofState (Nat.le_max_right _ _))
  refine ⟨sound, ?_⟩
  have keeps : ∀ {α : Type} {action : Run α},
      Evaluation (program.settings limits random) action →
      (action.final visit.machine).Sound (max maxArrayNesting initial.nesting) :=
    fun evaluation => ((Machine.soundnessContract _ deep).keeps_of_evaluation evaluation sound).1
  obtain ⟨node, less, machine⟩ := visit
  cases node with
  | statement statement => exact keeps (.statement less statement)
  | loop condition step body => exact keeps (.loop less condition step body)
  | block block => exact keeps (.block less block)
  | expr expr =>
      have exprKeeps := keeps (.expr less expr)
      cases evaluated : evalExpr (program.settings limits random) less expr machine with
      | ok value after =>
          rw [final_of_ok evaluated] at exprKeeps
          have isEnded : Visit.ended (program.settings limits random) ⟨.expr expr, less, machine⟩ =
              after := final_bind_of_ok evaluated
          rw [isEnded]
          exact exprKeeps
      | error halt after =>
          rw [final_of_error evaluated] at exprKeeps
          have isEnded : Visit.ended (program.settings limits random) ⟨.expr expr, less, machine⟩ =
              after := final_bind_of_error evaluated
          rw [isEnded]
          exact exprKeeps

/-- Array equality is extensional.  In every run of a compiled program, wherever a node is
taken up and wherever its evaluation ends, `is` gives 1 on two arrays exactly if at every
index they read as the same integer, or as two arrays on which `is` gives 1.  So it
gives 1 exactly on arrays that are the same down to their integers.  Comparing what the
arrays read back as would give the same answer without looking at whether they are one
array.  And `is not` always gives the opposite of `is`, on any two expressions. -/
theorem array_equality_is_extensional (compiled : compile features source = .ok program)
    (fuel : Nat) (initial : State) (limits : Limits) (random : RandomSource) :
    (∀ visit, program.Visits fuel initial limits random visit →
      ∀ machine, machine = visit.machine ∨
          machine = visit.ended (program.settings limits random) →
        ∀ left right : Nat,
          (applyBinary .is (.array left) (.array right) machine = .ok (.integer 1) machine ↔
            ∀ index,
              (∃ number, machine.store.read left index = .integer number ∧
                machine.store.read right index = .integer number) ∨
              ∃ inner other, machine.store.read left index = .array inner ∧
                machine.store.read right index = .array other ∧
                applyBinary .is (.array inner) (.array other) machine =
                  .ok (.integer 1) machine) ∧
          (applyBinary .is (.array left) (.array right) machine = .ok (.integer 1) machine ↔
            machine.store.Same (.array left) (.array right)) ∧
          machine.store.equal (.array left) (.array right) =
            (machine.store.stateValue (.array left) ==
              machine.store.stateValue (.array right)) ∧
          Opposite (applyBinary .is (.array left) (.array right) machine)
            (applyBinary .isNot (.array left) (.array right) machine)) ∧
    ∀ settings less left right machine,
      Opposite (evalExpr settings less (.binary .is left right) machine)
        (evalExpr settings less (.binary .isNot left right) machine) := by
  refine ⟨?_, opposite_evalExpr⟩
  intro visit visits machine isReached left right
  obtain ⟨labelled, holdsData⟩ :
      machine.store.Labelled (max maxArrayNesting initial.nesting) ∧ machine.store.HoldsData := by
    rcases isReached with rfl | rfl
    · exact ⟨(sound_of_visits visits).1.labelled, (declaredSoFar_of_visits compiled visits).1.data⟩
    · exact ⟨(sound_of_visits visits).2.labelled, (declaredSoFar_of_visits compiled visits).2.data⟩
  have gives : ∀ inner other,
      applyBinary .is (.array inner) (.array other) machine = .ok (.integer 1) machine ↔
        machine.store.equal (.array inner) (.array other) = true := by
    intro inner other
    show EStateM.Result.ok (Value.ofBool (machine.store.equal (.array inner) (.array other)))
      machine = .ok (.integer 1) machine ↔ _
    cases machine.store.equal (.array inner) (.array other) <;> simp [Value.ofBool]
  refine ⟨?_, ?_, Store.equal_array _ left right, opposite_applyBinary _ _ machine⟩
  · simp only [gives]
    rw [labelled.equal_array_iff holdsData]
    exact forall_congr' fun index =>
      Store.equal_data_iff (holdsData.read left index) (holdsData.read right index)
  · rw [gives]
    exact labelled.equal_iff_same holdsData trivial trivial

/-- Makes one array with its slots set in order, one with slots left unset and a zero set
behind the last item, and one with a zero where the others have an empty array. -/
def laysOutArrays : Program where
  features := FeatureSet.all
  body := [
    .assign "a" (.array [.integer 1, .integer 0, .array []]),
    .assign "b" (.array [.integer 1]),
    .store (.name "b") (.integer 2) (.array []),
    .store (.name "b") (.integer 5) (.integer 0),
    .assign "c" (.array [.integer 1])]

theorem array_equality_is_extensional_laysOutArrays :
    let settings := laysOutArrays.settings Limits.default fun _ => 0
    let machine := (laysOutArrays.visit 20 ∅).ended settings
    ∃ a b c, machine.scopes.globals["a"]? = some (.array a) ∧
      machine.scopes.globals["b"]? = some (.array b) ∧
      machine.scopes.globals["c"]? = some (.array c) ∧
      a ≠ b ∧ machine.store.Same (.array a) (.array b) ∧
      ¬ machine.store.Same (.array a) (.array c) := by
  intro settings machine
  have compiled : compile FeatureSet.all "a = [1, 0, []]\nb = [1]\nb[2] = []\nb[5] = 0\nc = [1]" =
      .ok laysOutArrays := by
    decide +kernel
  have extensional := (array_equality_is_extensional compiled 20 ∅ Limits.default fun _ => 0).1 _
    .refl machine (.inr rfl)
  have isEqual : machine.store.equal (.array 2) (.array 3) = true := by decide +kernel
  have isNotEqual : machine.store.equal (.array 2) (.array 6) = false := by decide +kernel
  refine ⟨2, 3, 6, by decide +kernel, by decide +kernel, by decide +kernel, by decide, ?_, ?_⟩
  · rw [← (extensional 2 3).2.1]
    show EStateM.Result.ok (Value.ofBool (machine.store.equal _ _)) machine = _
    rw [isEqual]
    rfl
  · rw [← (extensional 2 6).2.1]
    show ¬ EStateM.Result.ok (Value.ofBool (machine.store.equal _ _)) machine = _
    rw [isNotEqual]
    nofun

end Program

end Scriptlet
