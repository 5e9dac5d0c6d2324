import Scriptlet.Proofs.Run.Activation
import Scriptlet.Proofs.Run.Arrays
import Scriptlet.Proofs.Store.Snapshot

/-!
Contract: index assignments of a run store snapshots.

Owns:
- evaluation keeps machines sound and arrays held by the slots that held them, at
  every visit of a run;
- what an index assignment does up to the store, in order;
- what is stored is equal to what the value was, nothing else changes, and the
  stored value and the arrays that existed stay apart.
-/

namespace Scriptlet

open Run Store

/-! ## Sound machines at all visits -/

namespace Machine

/-- What evaluation may do to the arrays of a sound machine. -/
def sharing (deepest : Nat) : Conduct where
  Admits _ := True
  Inv := Sound deepest
  Good machine value := machine.store.Has value
  ExprStep before after :=
    Grows before.store after.store ∧ KeepsHolders before.store after.store
  ExecStep before flow after :=
    (Grows before.store after.store ∧ KeepsHolders before.store after.store) ∧
      ∀ value, flow = .returned value → after.Sound deepest
  Halts _ _ _ := True
  admits_part _ _ := trivial
  integer := (soundness deepest).integer
  stable step has := has.grow step.1
  refl machine := ⟨.refl machine.store, .refl machine.store⟩
  trans first second := ⟨first.1.trans second.1, first.2.trans second.2⟩
  proceed machine :=
    ⟨⟨.refl machine.store, .refl machine.store⟩, fun _ returned => by cases returned⟩
  exprThen first second :=
    ⟨⟨first.1.trans second.1.1, first.2.trans second.1.2⟩, second.2⟩
  execThen first second :=
    ⟨⟨first.1.1.trans second.1.1, first.1.2.trans second.1.2⟩, second.2⟩
  exprHalts _ _ := trivial
  execHalts _ _ := trivial
  fail _ _ := trivial
  outOfFuel _ := trivial

variable {deepest : Nat} {before : Machine}

/-- A step that keeps machines sound and holders ends as the conduct tells. -/
theorem ends_of_soundness {α : Type} {action : Run α} {post : α → Machine → Prop}
    (ends : (soundness deepest).Ends before action post)
    (holders : ∀ {result after}, action before = .ok result after →
      KeepsHolders before.store after.store) :
    (sharing deepest).Ends before action post := by
  obtain ⟨inv, step, result⟩ := ends
  unfold Conduct.Ends Ensures
  cases outcome : action before with
  | error halt after => trivial
  | ok value after =>
      rw [final_of_ok outcome] at inv step
      exact ⟨inv, ⟨step, holders outcome⟩, result outcome⟩

/-- A step that keeps the store keeps holders. -/
theorem keepsHolders_of_changes {α : Type} {action : Run α} {change : Machine → Machine → Prop}
    (changes : Changes change action)
    (sameStore : ∀ {after}, change before after → after.store = before.store) {result : α}
    {after : Machine} (success : action before = .ok result after) :
    KeepsHolders before.store after.store := by
  have changed := (changes before).1
  rw [final_of_ok success] at changed
  rw [sameStore changed]
  exact .refl _

theorem Sound.enter (sound : before.Sound deepest) (name : String)
    (declaration : FunctionDeclaration) {values : List Value}
    (has : ∀ value ∈ values, before.store.Has value) :
    (before.enter name declaration values).Sound deepest := by
  refine sound.change sound.labelled (.refl _) fun binds => ?_
  rcases Scopes.binds_writeAll binds with ⟨parameter, member⟩ | binds
  · exact .inr (has _ (List.of_mem_zip member).2)
  · exact .inl (Scopes.binds_push binds)

/-- A call is left in a sound machine, with a value that is known. -/
theorem Sound.leaveCall (sound : before.Sound deepest) (name : String) (depth : Nat) :
    Ensures (leaveCall name depth) before
      (fun value after => after.Sound deepest ∧ after.store = before.store ∧
        after.store.Has value)
      fun _ _ => True := by
  apply ensures_get
  simp only
  split
  · trivial
  · next scopes popped =>
      refine ⟨sound.change sound.labelled (.refl _) fun binds => ?_, rfl, ?_⟩
      · exact .inl (Scopes.binds_of_pop? popped binds)
      · cases returned : before.scopes.read returnName with
        | none => nofun
        | some value => exact sound.has_of_binds (Scopes.binds_of_read returned)

/-- Evaluation keeps machines sound, and arrays held by the slots that held
them. -/
def keepingApart (settings : Settings) (deep : maxArrayNesting ≤ deepest) :
    Discipline settings where
  toConduct := sharing deepest
  tick sound := by
    refine ends_of_soundness (ends_tick settings sound)
      (keepsHolders_of_changes (changes_tick settings) ?_)
    rintro _ rfl
    rfl
  readName name _ sound := by
    refine ends_of_soundness (ends_readName settings name sound)
      (keepsHolders_of_changes (changes_readName settings name) ?_)
    intro after changed
    rw [changed]
  readSlot index _ sound _ := sound.labelled.has_read _ index
  writeSlot location index before value sound has _ := by
    refine ends_of_soundness (ends_writeSlot settings deep location index value sound has) ?_
    intro _ after written
    obtain ⟨copy, store, copied, rfl⟩ := exists_copy_of_writeSlot written
    obtain ⟨keeps, made⟩ := keepsHolders_of_copyInRoom copied
    exact keeps.write location _ made
  Filling base _ slots machine :=
    Pending base.store machine.store 2 slots ∧ Grows base.store machine.store ∧
      KeepsHolders base.store machine.store
  startFilling _ := ⟨pending_empty, .refl _, .refl _⟩
  keepFilling step filling :=
    ⟨filling.1.grow step.1, filling.2.1.trans step.1, filling.2.2.trans step.2⟩
  fill {base before index slots value} sound filling _ := by
    obtain ⟨pending, grows, keeps⟩ := filling
    have copies : (sharing deepest).Ends before (Run.copyAt 2 value)
        fun copy after => Fresh before.store after.store 2 copy := by
      refine ends_of_soundness (ends_copyAt deep 2 value sound) fun {_ after} copied => ?_
      obtain ⟨store, copies, rfl⟩ := exists_store_of_copyAt copied
      exact (keepsHolders_of_copyInRoom copies).1
    refine Ensures.weaken copies (fun {copy after} ends => ?_) id
    obtain ⟨inv, step, fresh⟩ := ends
    exact ⟨inv, step, pending.insert grows step.1 fresh index, grows.trans step.1,
      keeps.trans step.2⟩
  makeArray _ sound _ filling := by
    obtain ⟨pending, grows, keeps⟩ := filling
    have outermost : 1 ≤ deepest := Nat.le_trans (by decide) deep
    obtain ⟨labelled, written, fresh⟩ := sound.labelled.allocate pending grows outermost
    refine ⟨⟨labelled, fun binds => (sound.has_of_binds binds).allocate _⟩, ⟨written, ?_⟩,
      fresh.has⟩
    exact keeps.allocate 1 fun found location isArray => (pending.fresh found location isArray).1
  assign _ sound has :=
    ⟨⟨⟨.refl _, .refl _⟩, fun _ returned => by cases returned⟩,
      (ends_writeName _ sound has).inv⟩
  declare {name parameters body before} _ sound := by
    have has : before.store.Has (.function ⟨name, parameters, body⟩) := nofun
    exact ⟨⟨⟨.refl _, .refl _⟩, fun _ returned => by cases returned⟩,
      (ends_writeName name sound has).inv⟩
  giveBack sound has := ⟨⟨.refl _, .refl _⟩, fun _ _ => (ends_writeName returnName sound has).inv⟩
  declared _ _ := trivial
  enter sound _ has := sound.enter _ _ has
  enterHalts _ _ := trivial
  leave {name declaration values before ended flow} _ step endedSound := by
    have sound : ended.Sound deepest := by
      cases flow with
      | proceed => exact endedSound rfl
      | returned value => exact step.2 value rfl
    refine Ensures.weaken (sound.leaveCall name _) (fun {value after} ends => ?_) id
    obtain ⟨afterSound, sameStore, has⟩ := ends
    refine ⟨afterSound, ?_, has⟩
    show Grows before.store after.store ∧ KeepsHolders before.store after.store
    rw [sameStore]
    exact step.1

end Machine

/-! ## Later stores -/

/-- Whether a store comes from another one by evaluating a node, in scopes whose
names refer to arrays that exist. -/
def Store.Evolves (settings : Settings) (deepest : Nat) (older newer : Store) : Prop :=
  ∃ (α : Type) (action : Run α) (machine after : Machine) (result : α),
    Evaluation settings action ∧ machine.Sound deepest ∧ machine.store = older ∧
      action machine = .ok result after ∧ after.store = newer

section

variable {settings : Settings} {deepest : Nat} {older newer : Store}

theorem Store.Evolves.keeps (deep : maxArrayNesting ≤ deepest)
    (evolves : older.Evolves settings deepest newer) :
    newer.Labelled deepest ∧ KeepsHolders older newer := by
  obtain ⟨α, action, machine, after, result, evaluation, sound, rfl, success, rfl⟩ := evolves
  have executed : ∀ {node : Node} {fuel : Nat} {flow : Flow}, node.IsExecuted →
      (Evaluator.atFuel settings fuel).execute node machine = .ok flow after →
      after.store.Labelled deepest ∧ KeepsHolders machine.store after.store := by
    intro node fuel flow isExecuted success
    have executes := ((Machine.keepingApart settings deep).meets_atFuel fuel).execute node
      isExecuted trivial sound
    obtain ⟨⟨step, returned⟩, proceeded⟩ := executes.of_ok success
    cases flow with
    | proceed => exact ⟨(proceeded rfl).labelled, step.2⟩
    | returned value => exact ⟨(returned value rfl).labelled, step.2⟩
  cases evaluation with
  | expr fuel expr =>
      have gives : (Machine.sharing deepest).Gives machine (evalExpr settings fuel expr) :=
        ((Machine.keepingApart settings deep).meets_atFuel fuel).expr trivial sound
      obtain ⟨afterSound, step, _⟩ := gives.of_ok success
      exact ⟨afterSound.labelled, step.2⟩
  | statement fuel statement =>
      have isExecuted : (Node.statement statement).IsExecuted := trivial
      exact executed isExecuted success
  | loop fuel condition step body =>
      have isExecuted : (Node.loop condition step body).IsExecuted := trivial
      exact executed isExecuted success
  | block fuel block =>
      have isExecuted : (Node.block block).IsExecuted := trivial
      exact executed isExecuted success

/-- However much is evaluated, the store stays a forest and holders are kept. -/
theorem Store.keeps_of_evolves (deep : maxArrayNesting ≤ deepest)
    (labelled : older.Labelled deepest)
    (evolves : Relation.ReflTransGen (Evolves settings deepest) older newer) :
    newer.Labelled deepest ∧ KeepsHolders older newer := by
  induction evolves with
  | refl => exact ⟨labelled, .refl _⟩
  | tail _ evolves inductionHypothesis =>
      obtain ⟨newerLabelled, keeps⟩ := evolves.keeps deep
      exact ⟨newerLabelled, inductionHypothesis.2.trans keeps⟩

end

/-! ## Index assignments -/

theorem Value.eq_integer_of_asIndex {value : Value} {index : Int64}
    (found : value.asIndex = .ok index) : value = .integer index := by
  cases value with
  | integer number =>
      simp only [asIndex, asInteger, bind, Except.bind] at found
      split at found
      · cases found
      · cases found
        rfl
  | array | function => cases found

/-- Whether an index assignment comes to store in a slot: it counts itself, and
evaluates the array, the value and the index in this order. -/
def ComesToStore (settings : Settings) (fuel : Nat) (base offset value : Expr)
    (start : Machine) (location : Nat) (index : Int64) (stored : Value) (before : Machine) :
    Prop :=
  ∃ counted located evaluated,
    tick settings start = .ok () counted ∧
    evalExpr settings fuel base counted = .ok (.array location) located ∧
    evalExpr settings fuel value located = .ok stored evaluated ∧
    evalExpr settings fuel offset evaluated = .ok (.integer index) before

section

variable {settings : Settings} {fuel : Nat} {base offset value : Expr}
  {start before after : Machine} {location : Nat} {index : Int64} {stored : Value} {flow : Flow}

theorem exists_store_of_execStatement
    (executed : execStatement settings (fuel + 1) (.store base offset value) start =
      .ok flow after) :
    ∃ location index stored before,
      ComesToStore settings fuel base offset value start location index stored before ∧
      writeSlot settings location index stored before = .ok () after := by
  have storing : (Evaluator.atFuel settings (fuel + 1)).execute
      (.statement (.store base offset value)) start = .ok flow after := executed
  obtain ⟨counted, counts, executes⟩ := execute_succ_eq_ok_iff.mp storing
  obtain ⟨_, _, stores, proceeds⟩ := bind_eq_ok_iff.mp executes
  cases proceeds
  obtain ⟨array, located, locates, takesArray⟩ := bind_eq_ok_iff.mp stores
  obtain ⟨location, _, checksArray, evaluates⟩ := bind_eq_ok_iff.mp takesArray
  obtain ⟨isArray, rfl⟩ := ofExcept_eq_ok_iff.mp checksArray
  obtain ⟨stored, evaluated, evaluatesValue, indexes⟩ := bind_eq_ok_iff.mp evaluates
  obtain ⟨number, before, evaluatesIndex, takesIndex⟩ := bind_eq_ok_iff.mp indexes
  obtain ⟨index, _, checksIndex, writes⟩ := bind_eq_ok_iff.mp takesIndex
  obtain ⟨isIndex, rfl⟩ := ofExcept_eq_ok_iff.mp checksIndex
  obtain rfl := Value.eq_array_of_asArray isArray
  obtain rfl := Value.eq_integer_of_asIndex isIndex
  exact ⟨location, index, stored, _,
    ⟨counted, _, evaluated, counts, locates, evaluatesValue, evaluatesIndex⟩, writes⟩

/-- Where an assignment comes to store, the machine is sound, and the array and the
value exist. -/
theorem ComesToStore.sound {deepest : Nat} (deep : maxArrayNesting ≤ deepest)
    (sound : start.Sound deepest)
    (comes : ComesToStore settings fuel base offset value start location index stored before) :
    before.Sound deepest ∧ before.store.Has (.array location) ∧ before.store.Has stored := by
  obtain ⟨counted, located, evaluated, counts, locates, evaluatesValue, evaluatesIndex⟩ := comes
  have gives : ∀ {expr : Expr} {before after : Machine} {value : Value}, before.Sound deepest →
      evalExpr settings fuel expr before = .ok value after →
      after.Sound deepest ∧ Grows before.store after.store ∧ after.store.Has value := by
    intro expr before after value sound success
    have gives : (Machine.sharing deepest).Gives before (evalExpr settings fuel expr) :=
      ((Machine.keepingApart settings deep).meets_atFuel fuel).expr trivial sound
    obtain ⟨afterSound, step, has⟩ := gives.of_ok success
    exact ⟨afterSound, step.1, has⟩
  obtain ⟨countedSound, _, _⟩ := ((Machine.keepingApart settings deep).tick sound).of_ok counts
  obtain ⟨locatedSound, _, hasArray⟩ := gives countedSound locates
  obtain ⟨evaluatedSound, valueGrows, hasStored⟩ := gives locatedSound evaluatesValue
  obtain ⟨beforeSound, indexGrows, _⟩ := gives evaluatedSound evaluatesIndex
  exact ⟨beforeSound, (hasArray.grow valueGrows).grow indexGrows, hasStored.grow indexGrows⟩

end

namespace Program

variable (program : Program) (fuel : Nat) (initial : State) (limits : Limits)
  (random : RandomSource)

/-- Index assignments store snapshots and change nothing else.  Wherever a run
comes, an index assignment that succeeds there has come to store a value in a slot
of an array, and then: the slot holds a value equal to what that value was just
before, the other slots of the array hold what they held, every array that existed
and from which the written one was not reachable reads back as it did, no binding
has changed, and the stored value shares no array with those that existed.  This
stays so whatever is evaluated later: no write to an array that existed shows in the
stored value, and no write to an array of the stored value shows in an array that
existed, unless the written one is reachable from it. -/
theorem index_assignments_store_snapshots :
    ∀ visit, program.Visits fuel initial limits random visit →
    ∀ depth base offset value flow after,
      execStatement (program.settings limits random) (depth + 1) (.store base offset value)
        visit.machine = .ok flow after →
      ∃ location index stored before,
        ComesToStore (program.settings limits random) depth base offset value visit.machine
          location index stored before ∧
        location < before.store.cells.size ∧
        StoresSnapshot before.store location index.toInt.toNat stored after.store ∧
        after.scopes = before.scopes ∧
        ∀ later root,
          Relation.ReflTransGen (Evolves (program.settings limits random)
            (max maxArrayNesting initial.nesting)) after.store later →
          after.store.read location index.toInt.toNat = .array root →
          (∀ inner, later.Reachable root inner → before.store.cells.size ≤ inner) ∧
          (∀ array slot written, array < before.store.cells.size →
            (later.write array slot written).stateValue (.array root) =
              later.stateValue (.array root)) ∧
          ∀ inner array slot written, later.Reachable root inner →
            array < before.store.cells.size → ¬ later.Reachable array location →
            (later.write inner slot written).stateValue (.array array) =
              later.stateValue (.array array) := by
  intro visit visits depth base offset value flow after executed
  have deep : maxArrayNesting ≤ max maxArrayNesting initial.nesting := Nat.le_max_left _ _
  obtain ⟨_, sound⟩ := (Machine.keepingApart (program.settings limits random) deep).of_makes
    visits trivial (Machine.sound_ofState (Nat.le_max_right _ _))
  obtain ⟨location, index, stored, before, comes, writes⟩ := exists_store_of_execStatement executed
  obtain ⟨beforeSound, hasArray, hasStored⟩ := comes.sound deep sound
  obtain ⟨afterSound, ⟨_, keepsStored⟩, _⟩ := ((Machine.keepingApart _ deep).writeSlot location
    index beforeSound hasArray hasStored).of_ok writes
  have inside := hasArray location rfl
  obtain ⟨copy, store, copied, rfl⟩ := exists_copy_of_writeSlot writes
  have snapshot := storesSnapshot_of_copyAt deep beforeSound.labelled hasStored inside copied
    index.toInt.toNat
  refine ⟨location, index, stored, before, comes, inside, snapshot, rfl, ?_⟩
  intro later root evolves isRoot
  obtain ⟨laterLabelled, keepsLater⟩ := keeps_of_evolves deep afterSound.labelled evolves
  have keeps := keepsStored.trans keepsLater
  have made := snapshot.apart isRoot .refl
  refine ⟨fun inner => keeps.size_le_of_reachable made, ?_, ?_⟩
  · exact fun array slot written isOld => keeps.stateValue_write_older made isOld slot written
  · intro inner array slot written reachable isOld apart
    exact keepsStored.stateValue_write_newer keepsLater afterSound.labelled laterLabelled
      (holds_of_read isRoot) made reachable isOld apart slot written

theorem index_assignments_store_snapshots_storeIntoItself :
    let settings := storeIntoItself.settings Limits.default fun _ => 0
    ∃ machine after location index stored before,
      storeIntoItself.Visits 9 ∅ Limits.default (fun _ => 0)
        ⟨.statement (.store (.name "a") (.integer 1) (.name "a")), 8, machine⟩ ∧
      execStatement settings 8 (.store (.name "a") (.integer 1) (.name "a")) machine =
        .ok .proceed after ∧
      ComesToStore settings 7 (.name "a") (.integer 1) (.name "a") machine location index stored
        before ∧
      StoresSnapshot before.store location index.toInt.toNat stored after.store ∧
      after.scopes = before.scopes ∧
      ∀ root slot written, after.store.read location index.toInt.toNat = .array root →
        (after.store.write location slot written).stateValue (.array root) =
          after.store.stateValue (.array root) := by
  intro settings
  have visited : ∃ machine after, storeIntoItself.Visits 9 ∅ Limits.default (fun _ => 0)
        ⟨.statement (.store (.name "a") (.integer 1) (.name "a")), 8, machine⟩ ∧
      execStatement settings 8 (.store (.name "a") (.integer 1) (.name "a")) machine =
        .ok .proceed after :=
    ⟨_, _, .single (.intro rfl (@Opens.statement _ _ [_] _ _ _ _ rfl)), rfl⟩
  obtain ⟨machine, after, visits, executed⟩ := visited
  obtain ⟨location, index, stored, before, comes, inside, snapshot, sameScopes, stays⟩ :=
    index_assignments_store_snapshots storeIntoItself 9 ∅ Limits.default (fun _ => 0) _ visits _ _
      _ _ _ _ executed
  refine ⟨machine, after, location, index, stored, before, visits, executed, comes, snapshot,
    sameScopes, fun root slot written isRoot => ?_⟩
  exact (stays after.store root .refl isRoot).2.1 location slot written inside

end Program

end Scriptlet
