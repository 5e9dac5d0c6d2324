import Scriptlet.Proofs.Run.Bindings
import Scriptlet.Proofs.Run.Budget
import Scriptlet.Proofs.Run.Contract
import Scriptlet.Proofs.Store.Copy

/-!
Contract: at all times in a run, its arrays form a forest with correct labels.

Owns:
- sound machines, whose arrays are labelled and whose names refer to arrays that
  exist;
- every primitive step keeps machines sound, and so does every evaluation;
- the machines that are reached in a run, and that they are sound.

Names, parameters, results and slots that were read share arrays.  Only slots
hold them, and what goes into a slot is always a copy that was made for it.
-/

namespace Scriptlet

open Run Store

/-! ## Sound machines -/

/-- A machine whose arrays are labelled with their levels, and whose names refer
to arrays that exist. -/
structure Machine.Sound (deepest : Nat) (machine : Machine) : Prop where
  labelled : machine.store.Labelled deepest
  has_of_binds : ∀ {value : Value}, machine.scopes.Binds value → machine.store.Has value

namespace Machine

variable {deepest : Nat} {before after : Machine}

/-- A machine stays sound when its store grows and its names come to refer to
arrays that existed. -/
theorem Sound.change (sound : before.Sound deepest) (labelled : after.store.Labelled deepest)
    (grows : Grows before.store after.store)
    (bound : ∀ {value : Value}, after.scopes.Binds value →
      before.scopes.Binds value ∨ before.store.Has value) :
    after.Sound deepest := by
  refine ⟨labelled, fun binds => ?_⟩
  rcases bound binds with binds | has
  · exact (sound.has_of_binds binds).grow grows
  · exact has.grow grows

/-- Soundness, as what evaluation keeps.  Stores grow meanwhile, and the values
that it gives refer to arrays that exist. -/
def soundness (deepest : Nat) : Terms where
  Inv := Sound deepest
  Step before after := Grows before.store after.store
  Good machine value := machine.store.Has value
  refl machine := .refl machine.store
  trans := Grows.trans
  stable grows has := Has.grow has grows
  integer _ _ := nofun

/-- A step that keeps the store keeps machines sound, if it binds names to arrays
that exist. -/
theorem ends_of_sameStore {α : Type} {action : Run α} {post : α → Machine → Prop}
    (sound : before.Sound deepest) (sameStore : (action.final before).store = before.store)
    (bound : ∀ {value : Value}, (action.final before).scopes.Binds value →
      before.scopes.Binds value ∨ before.store.Has value)
    (result : ∀ {value : α} {after : Machine}, action before = .ok value after →
      post value after) :
    (soundness deepest).Ends before action post := by
  have grows : Grows before.store (action.final before).store := by
    rw [sameStore]
    exact .refl before.store
  refine ⟨sound.change ?_ grows bound, grows, result⟩
  rw [sameStore]
  exact sound.labelled

/-! ## Primitive steps -/

theorem ends_tick (settings : Settings) (sound : before.Sound deepest) :
    (soundness deepest).Ends before (tick settings) fun _ _ => True := by
  have changed := (changes_tick settings before).1
  refine ends_of_sameStore sound ?_ ?_ fun _ => trivial
  · rw [changed]
  · rw [changed]
    exact .inl

theorem ends_readName (settings : Settings) (name : String) (sound : before.Sound deepest) :
    (soundness deepest).Ends before (readName settings name)
      fun value after => after.store.Has value := by
  have binding : (soundness deepest).Ends before (readBinding name)
      fun value after => after.store.Has value := by
    apply Terms.ends_get
    split
    · exact Terms.ends_fail sound _
    · next found => exact Terms.ends_pure sound (sound.has_of_binds (Scopes.binds_of_read found))
    · exact Terms.ends_pure sound nofun
  unfold readName
  split
  · split
    · refine ends_of_sameStore sound rfl .inl fun success => ?_
      cases success
      nofun
    · exact binding
  · exact binding

theorem ends_writeName (name : String) {value : Value} (sound : before.Sound deepest)
    (has : before.store.Has value) :
    (soundness deepest).Ends before (writeName name value) fun _ _ => True := by
  refine ends_of_sameStore sound rfl (fun binds => ?_) fun _ => trivial
  rcases Scopes.binds_write binds with rfl | binds
  · exact .inr has
  · exact .inl binds

theorem ends_readSlot (location : Nat) (index : Int64) (sound : before.Sound deepest) :
    (soundness deepest).Ends before (readSlot location index)
      fun value after => after.store.Has value := by
  refine ends_of_sameStore sound rfl .inl fun success => ?_
  cases success
  exact sound.labelled.has_read _ _

theorem ends_copyAt (deep : maxArrayNesting ≤ deepest) (level : Nat) (value : Value)
    (sound : before.Sound deepest) :
    (soundness deepest).Ends before (copyAt level value)
      fun copy after => Fresh before.store after.store level copy := by
  have leaves := leaves_copyAt deep level value sound.labelled
  cases outcome : Store.copyAt level value before.store with
  | ok copy store =>
      rw [outcome] at leaves
      obtain ⟨labelled, grows, fresh⟩ := leaves
      have success := copyAt_of_ok outcome
      refine ⟨?_, ?_, fun {other after} isOther => ?_⟩
      · rw [final_of_ok success]
        exact sound.change labelled grows .inl
      · rw [final_of_ok success]
        exact grows
      · cases success.symm.trans isOther
        exact fresh
  | error error store =>
      rw [outcome] at leaves
      obtain ⟨labelled, grows⟩ := leaves
      have failure := copyAt_of_error outcome
      refine ⟨?_, ?_, fun {other after} isOther => ?_⟩
      · rw [final_of_error failure]
        exact sound.change labelled grows .inl
      · rw [final_of_error failure]
        exact grows
      · cases failure.symm.trans isOther

/-- A copy that was made for the slots of an array may be stored in one. -/
theorem ends_writeSlot (settings : Settings) (deep : maxArrayNesting ≤ deepest) (location : Nat)
    (index : Int64) (value : Value) (sound : before.Sound deepest)
    (has : before.store.Has (.array location)) :
    (soundness deepest).Ends before (writeSlot settings location index value)
      fun _ _ => True := by
  unfold writeSlot
  simp only
  split
  · exact Terms.ends_fail sound _
  · obtain ⟨level, isLevel⟩ := exists_level?_of_lt (has location rfl)
    have isSlotLevel : before.store.slotLevel location = level + 1 := by
      obtain ⟨cell, found, rfl⟩ := level?_eq_some_iff.mp isLevel
      simp only [slotLevel, found]
    apply Terms.ends_get
    rw [isSlotLevel]
    have copied := ends_copyAt deep (level + 1) value sound
    refine copied.bindWhole fun {copy middle} success => ?_
    have changed := (changes_copyAt (level + 1) value before).1
    obtain ⟨middleSound, grows, fresh⟩ := copied
    rw [final_of_ok success] at middleSound grows changed
    obtain ⟨labelled, written⟩ := middleSound.labelled.write grows (grows.level_kept isLevel)
      (fresh success) index.toInt.toNat
    -- The copy is held from now on, so only the store before it has grown.
    refine ⟨sound.change labelled written fun binds => .inl ?_, written, fun _ => trivial⟩
    rw [changed] at binds
    exact binds

theorem ends_callee (name : String) (arguments : Nat) (sound : before.Sound deepest) :
    (soundness deepest).Ends before (callee name arguments) fun _ _ => True := by
  have changed := (changes_callee name arguments before).1
  refine ends_of_sameStore sound ?_ ?_ fun _ => trivial
  · rw [changed]
  · rw [changed]
    exact .inl

theorem ends_enterCall (settings : Settings) (name : String) (declaration : FunctionDeclaration)
    {values : List Value} (sound : before.Sound deepest)
    (has : ∀ value ∈ values, before.store.Has value) :
    (soundness deepest).Ends before (enterCall settings name declaration values)
      fun _ _ => True := by
  apply Terms.ends_get
  simp only
  split
  · exact Terms.ends_fail sound _
  · refine ends_of_sameStore sound rfl (fun binds => ?_) fun _ => trivial
    rcases Scopes.binds_writeAll binds with ⟨parameter, member⟩ | binds
    · exact .inr (has _ (List.of_mem_zip member).2)
    · exact .inl (Scopes.binds_push binds)

/-! ## Array literals and calls -/

section

variable {eval : Expr → Run Value} (gives : ∀ expr, (soundness deepest).Gives (eval expr))

include gives

/-- The copies of the items of a literal are pending until the array is made,
also while later items are evaluated. -/
theorem ends_evalItems (deep : maxArrayNesting ≤ deepest) (items : List Expr) {base : Store}
    {slots : Slots} (index : Nat) (sound : before.Sound deepest)
    (grows : Grows base before.store) (pending : Pending base before.store 2 slots) :
    (soundness deepest).Ends before (evalItems eval index slots items)
      fun filled after => Grows base after.store ∧ Pending base after.store 2 filled := by
  induction items generalizing before slots index with
  | nil => exact Terms.ends_pure sound ⟨grows, pending⟩
  | cons item rest inductionHypothesis =>
      refine (gives item sound).bind fun {value evaluated} sound step _ => ?_
      have grows := grows.trans step
      have pending := pending.grow step
      refine (ends_copyAt deep 2 value sound).bind fun {copy copied} sound step fresh => ?_
      exact inductionHypothesis (index + 1) sound (grows.trans step)
        (pending.insert grows step fresh index)

theorem ends_evalArray (deep : maxArrayNesting ≤ deepest) (items : List Expr)
    (sound : before.Sound deepest) :
    (soundness deepest).Ends before (evalArray eval items)
      fun value after => after.store.Has value := by
  have filled := ends_evalItems gives deep items 0 sound (.refl before.store) pending_empty
  refine filled.bindWhole fun {slots middle} success => ?_
  obtain ⟨middleSound, _, result⟩ := filled
  rw [final_of_ok success] at middleSound
  obtain ⟨grows, pending⟩ := result success
  have outermost : 1 ≤ deepest := Nat.le_trans (by decide) deep
  -- The pending copies come to be held, so only the store before the literal has grown.
  obtain ⟨labelled, written, fresh⟩ := middleSound.labelled.allocate pending grows outermost
  refine ⟨⟨labelled, fun binds => ?_⟩, written, fun made => ?_⟩
  · exact (middleSound.has_of_binds binds).allocate _
  · cases made
    exact fresh.has

/-- A call binds its parameters to values that are known, and gives what its
frame binds. -/
theorem ends_evalCall (settings : Settings) {exec : Block → Run Flow}
    (keeps : ∀ block, (soundness deepest).Keeps (exec block)) (name : String)
    (arguments : List Expr) (sound : before.Sound deepest) :
    (soundness deepest).Ends before (evalCall settings eval exec name arguments)
      fun value after => after.store.Has value := by
  refine (ends_callee name arguments.length sound).bind fun {declaration found} sound _ _ => ?_
  refine (Terms.ends_evalList gives arguments sound).bind fun {values given} sound _ has => ?_
  have enters := ends_enterCall settings name declaration sound has
  refine enters.bind fun {depth entered} sound _ _ => ?_
  refine (keeps declaration.body sound).bind fun {_ executed} sound _ _ => ?_
  apply Terms.ends_get
  simp only
  split
  · exact Terms.ends_fail sound _
  · next scopes popped =>
      refine ends_of_sameStore sound rfl
        (fun binds => .inl (Scopes.binds_of_pop? popped binds)) fun success => ?_
      cases success
      cases returned : executed.scopes.read returnName with
      | none => nofun
      | some value => exact sound.has_of_binds (Scopes.binds_of_read returned)

end

/-- Evaluation under any settings keeps machines sound. -/
def soundnessContract (settings : Settings) (deep : maxArrayNesting ≤ deepest) :
    Contract settings where
  toTerms := soundness deepest
  tick sound := ends_tick settings sound
  readName name _ sound := ends_readName settings name sound
  writeName name _ _ sound has := ends_writeName name sound has
  declare name _ _ sound := ends_writeName name sound nofun
  readSlot location index _ sound _ := ends_readSlot location index sound
  writeSlot location index _ value sound has _ :=
    ends_writeSlot settings deep location index value sound has
  array gives items _ sound := ends_evalArray gives deep items sound
  call gives keeps name arguments _ sound :=
    ends_evalCall gives settings keeps name arguments sound

/-! ## Runs -/

/-- Binding a name to what an entry of a state is loaded as keeps a machine
sound. -/
theorem Sound.load {globals : Bindings} {store : Store}
    (sound : (Machine.mk (.ofGlobals globals) store 0 0 #[]).Sound deepest) (name : String)
    {value : StateValue} (shallow : value.nesting ≤ deepest) :
    (Machine.mk (.ofGlobals (globals.insert name (store.load 1 value).1))
      (store.load 1 value).2 0 0 #[]).Sound deepest := by
  obtain ⟨labelled, grows, fresh⟩ := sound.labelled.load 1 value (by omega)
  refine ⟨labelled, fun {found} binds => ?_⟩
  have binds : ((Scopes.ofGlobals globals).write name (store.load 1 value).1).Binds found := binds
  rcases Scopes.binds_write binds with rfl | binds
  · exact fresh.has
  · exact (sound.has_of_binds binds).grow grows

/-- The machine that a run starts in is sound, with no label above the nesting of
the state. -/
theorem sound_ofState {initial : State} (deep : initial.nesting ≤ deepest) :
    (ofState initial).Sound deepest := by
  show (Machine.mk (.ofGlobals (loadGlobals initial).1) (loadGlobals initial).2 0 0 #[]).Sound
    deepest
  unfold loadGlobals
  rw [Std.ExtTreeMap.foldl_eq_foldl_toList]
  apply List.foldlRecOn (motive := fun loaded : Bindings × Store =>
    (Machine.mk (.ofGlobals loaded.1) loaded.2 0 0 #[]).Sound deepest)
  · refine ⟨labelled_empty deepest, ?_⟩
    rintro value (⟨name, found⟩ | ⟨frame, member, _⟩)
    · simp [Scopes.ofGlobals] at found
    · cases member
  · intro loaded sound entry member
    exact sound.load entry.1 (Nat.le_trans (State.nesting_le_of_mem member) deep)

end Machine

namespace Program

variable (program : Program) (initial : State) (limits : Limits) (random : RandomSource)

/-- The machines that runs of a program against a state come to, with the values
that evaluation holds there.  A node is evaluated in a machine that was reached,
and may be cut off by a budget or for lack of fuel, so the machines in which the
nodes inside it begin are reached too.  A value that is held may be copied for a
slot. -/
inductive Reaches : Machine → List Value → Prop where
  | start : Reaches (Machine.ofState initial) []
  | evaluate {α : Type} {action : Run α} {machine : Machine} {held : List Value}
      (budget : Option Nat) :
      Reaches machine held →
      Evaluation ((program.settings limits random).withBudget budget) action →
      Reaches (action.final machine) held
  | hold {machine after : Machine} {held : List Value} {value : Value} (budget : Option Nat)
      (fuel : Nat) (expr : Expr) :
      Reaches machine held →
      evalExpr ((program.settings limits random).withBudget budget) fuel expr machine =
        .ok value after →
      Reaches after (value :: held)
  | copy {machine : Machine} {held : List Value} {value : Value} (level : Nat) :
      Reaches machine held → value ∈ held → Reaches ((Run.copyAt level value).final machine) held

variable {program initial limits random}

theorem Reaches.sound {deepest : Nat} (deep : maxArrayNesting ≤ deepest)
    (loaded : initial.nesting ≤ deepest) {machine : Machine} {held : List Value}
    (reaches : program.Reaches initial limits random machine held) :
    machine.Sound deepest ∧ ∀ value ∈ held, machine.store.Has value := by
  induction reaches with
  | start => exact ⟨Machine.sound_ofState loaded, nofun⟩
  | evaluate budget _ evaluation inductionHypothesis =>
      obtain ⟨sound, has⟩ := inductionHypothesis
      obtain ⟨sound, grows, _⟩ :=
        (Machine.soundnessContract _ deep).keeps_of_evaluation evaluation sound
      exact ⟨sound, fun value member => (has value member).grow grows⟩
  | hold budget fuel expr _ success inductionHypothesis =>
      obtain ⟨sound, has⟩ := inductionHypothesis
      have meets := (Machine.soundnessContract
        ((program.settings limits random).withBudget budget) deep).meets_atFuel fuel
      obtain ⟨sound, grows, result⟩ := meets.expr expr sound
      have isFinal : ((Evaluator.atFuel _ fuel).expr expr).final _ = _ := final_of_ok success
      rw [isFinal] at sound grows
      refine ⟨sound, List.forall_mem_cons.mpr ⟨result success, fun other member => ?_⟩⟩
      exact (has other member).grow grows
  | copy level _ member inductionHypothesis =>
      obtain ⟨sound, has⟩ := inductionHypothesis
      obtain ⟨sound, grows, _⟩ := Machine.ends_copyAt deep level _ sound
      exact ⟨sound, fun other member => (has other member).grow grows⟩

/-- Wherever a run is cut off, its machine is reached. -/
theorem reaches_execution (budget : Option Nat) (fuel : Nat) :
    program.Reaches initial limits random
      ((program.execution limits random budget fuel).final (Machine.ofState initial)) [] :=
  .evaluate budget .start (.block fuel program.body)

variable (program initial limits random)

/-- The arrays of a run form a forest with correct labels at all times: in every
machine that is reached, among them those in which the run ends or is cut off,
every held array is labelled one deeper than its holder, is held by one slot
only and is not reachable from its own slots, and no label exceeds both the
limit of nesting and the nesting of the initial state. -/
theorem arrays_form_forest :
    (∀ budget fuel, program.Reaches initial limits random
      ((program.execution limits random budget fuel).final (Machine.ofState initial)) []) ∧
    ∀ machine held, program.Reaches initial limits random machine held →
      machine.store.Forest (max maxArrayNesting initial.nesting) := by
  refine ⟨reaches_execution, fun machine held reaches => ?_⟩
  have sound := (reaches.sound (Nat.le_max_left _ _) (Nat.le_max_right _ _)).1
  exact sound.labelled.forest

/-- Stores an array that holds another one into itself. -/
def storeIntoItself : Program where
  features := FeatureSet.all
  body := [.assign "a" (.array [.array [.integer 1], .integer 2]),
    .store (.name "a") (.integer 1) (.name "a")]

theorem arrays_form_forest_storeIntoItself :
    let final := (storeIntoItself.execution Limits.default (fun _ => 0) none 8).final
      (Machine.ofState ∅)
    final.store.Holds 2 1 4 ∧ final.store.Holds 4 0 3 ∧ final.store.Forest 256 := by
  refine ⟨?_, ?_, ?_⟩
  · unfold Store.Holds
    decide +kernel
  · unfold Store.Holds
    decide +kernel
  · obtain ⟨runs, forest⟩ := arrays_form_forest storeIntoItself ∅ Limits.default fun _ => 0
    exact forest _ _ (runs none 8)

end Program

end Scriptlet
