import Scriptlet.Proofs.Parser.Shape
import Scriptlet.Proofs.Run.Returns

/-!
Contract: where the functions of a run come from.

Owns:
- machines in which every function is bound to the name that a declaration inside
  some node gives it, and in which arrays hold data;
- every evaluation of a part of that node keeps to them, and gives data;
- no declaration of a compiled program takes the name of returned values, with
  whatever features it was compiled.

The result of a call is read from a name without a look at what it is.  It is data
because no function is ever bound to that name.
-/

namespace Scriptlet

open Run

/-- Whether a value is data, or a function that is declared under a name inside a
node. -/
def Value.DeclaredIn (root : Node) (name : String) : Value → Prop
  | .function declaration => declaration.name = name ∧
      (Node.statement (.declare declaration.name declaration.parameters
        declaration.body)).Within root
  | _ => True

theorem Value.IsData.declaredIn {value : Value} (isData : value.IsData) (root : Node)
    (name : String) : value.DeclaredIn root name := by
  cases value with
  | function declaration => exact isData.elim
  | integer | array => trivial

/-- A machine whose functions are declared inside a node, each under the name that
it is bound to, and whose arrays hold data. -/
structure Machine.DeclaredIn (root : Node) (machine : Machine) : Prop where
  names : machine.scopes.BindsOnly (Value.DeclaredIn root)
  data : machine.store.HoldsData

namespace Machine

variable {root : Node} {machine : Machine}

theorem DeclaredIn.write (declared : machine.DeclaredIn root) {name : String} {value : Value}
    (isDeclared : value.DeclaredIn root name) : (machine.write name value).DeclaredIn root :=
  ⟨declared.names.write isDeclared, declared.data⟩

theorem DeclaredIn.enter (declared : machine.DeclaredIn root) (name : String)
    (declaration : FunctionDeclaration) {values : List Value}
    (isData : ∀ value ∈ values, value.IsData) :
    (machine.enter name declaration values).DeclaredIn root := by
  refine ⟨declared.names.push.writeAll fun binding member => ?_, declared.data⟩
  exact (isData _ (List.of_mem_zip member).2).declaredIn root _

/-- A run starts without functions. -/
theorem declaredIn_ofState (root : Node) (initial : State) : (ofState initial).DeclaredIn root := by
  obtain ⟨globalsData, storeData⟩ := isData_loadGlobals initial
  refine ⟨List.forall_mem_singleton.mpr fun name value found => ?_, storeData⟩
  exact (globalsData found).declaredIn root name

end Machine

/-- Evaluation of the parts of a node that declares no function under the name of
returned values. -/
def keepingFunctionsApart (settings : Settings) (root : Node)
    (apart : ∀ parameters body,
      ¬ (Node.statement (.declare returnName parameters body)).Within root) :
    Discipline settings where
  Admits node := node.Within root
  Inv := Machine.DeclaredIn root
  Good _ value := value.IsData
  ExprStep _ _ := True
  ExecStep _ flow after := ∀ value, flow = .returned value → after.DeclaredIn root
  Halts _ _ _ := True
  admits_part isPart within := .head isPart within
  integer _ _ := trivial
  stable _ isData := isData
  refl _ := trivial
  trans _ _ := trivial
  proceed _ := nofun
  exprThen _ next := next
  execThen _ next := next
  exprHalts _ _ := trivial
  execHalts _ _ := trivial
  fail _ _ := trivial
  outOfFuel _ := trivial
  tick declared := by
    refine Conduct.ends_of_changes (changes_tick settings) (haltsOrdinarily_tick settings) ?_
      fun _ _ => trivial
    rintro _ _ _ rfl
    exact ⟨⟨declared.names, declared.data⟩, trivial, trivial⟩
  readName name before declared := by
    refine Conduct.ends_of_changes (changes_readName settings name)
      (haltsOrdinarily_readName settings name) ?_ fun _ _ => trivial
    intro value after found changed
    have isData := isData_of_readName found
    rw [changed]
    exact ⟨⟨declared.names, declared.data⟩, trivial, isData⟩
  readSlot index _ declared _ := declared.data.read _ index
  writeSlot location index _ _ declared _ isData := by
    refine Conduct.ends_of_changes (changes_writeSlot settings location index _)
      (haltsOrdinarily_writeSlot settings location index _) ?_ fun _ _ => trivial
    intro _ after written _
    obtain ⟨copy, store, copied, rfl⟩ := exists_copy_of_writeSlot written
    obtain ⟨data, copyData⟩ := Store.copyingData.copyInRoom declared.data isData copied
    exact ⟨⟨declared.names, data.write _ _ copyData⟩, trivial, trivial⟩
  Filling _ _ slots _ := slots.HoldData
  startFilling _ := Slots.holdData_empty
  keepFilling _ slotsData := slotsData
  fill declared slotsData isData := by
    refine Conduct.ends_of_changes (changes_copyAt 2 _) (haltsOrdinarily_copyAt 2 _) ?_
      fun _ _ => trivial
    intro _ after copied _
    obtain ⟨store, copies, rfl⟩ := exists_store_of_copyAt copied
    obtain ⟨data, copyData⟩ := Store.copyingData.copyInRoom declared.data isData copies
    exact ⟨⟨declared.names, data⟩, trivial, slotsData.insert _ copyData⟩
  makeArray _ declared _ slotsData :=
    ⟨⟨declared.names, declared.data.allocate 1 slotsData⟩, trivial, trivial⟩
  assign {name _ _ _} _ declared isData :=
    ⟨nofun, declared.write (isData.declaredIn root name)⟩
  declare within declared := ⟨nofun, declared.write ⟨rfl, within⟩⟩
  giveBack declared isData _ _ := declared.write (isData.declaredIn root returnName)
  declared declared bound := (declared.names.read bound).2
  enter declared _ isData := declared.enter _ _ isData
  enterHalts _ _ := trivial
  leave {name _ _ before ended flow} _ step endedDeclared := by
    have declared : ended.DeclaredIn root := by
      cases flow with
      | proceed => exact endedDeclared rfl
      | returned value => exact step value rfl
    have isData : ((ended.scopes.read returnName).getD (.integer 0)).IsData := by
      cases found : ended.scopes.read returnName with
      | none => trivial
      | some value =>
          cases value with
          | integer | array => trivial
          | function declaration =>
              obtain ⟨isName, within⟩ := declared.names.read found
              rw [isName] at within
              exact (apart _ _ within).elim
    apply ensures_get
    simp only
    split
    · trivial
    · next scopes popped => exact ⟨⟨declared.names.pop popped, declared.data⟩, trivial, isData⟩

namespace Program

variable {features : FeatureSet} {source : String} {program : Program}

/-- Declarations need functions, and with functions the name of returned values is
a keyword. -/
theorem returnName_not_declared (compiled : compile features source = .ok program)
    (parameters : List String) (body : Block) :
    ¬ (Node.statement (.declare returnName parameters body)).Within (.block program.body) := by
  intro within
  obtain ⟨allowed, _, _⟩ := wellFormed_of_parse (parse_of_compile compiled) _ within
  have mentions : (Node.block program.body).Mentions returnName := ⟨_, within, .inl rfl⟩
  exact not_mentions_returnName compiled (allowed _ (List.mem_singleton_self _)) mentions

end Program

end Scriptlet
