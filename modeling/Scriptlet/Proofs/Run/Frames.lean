import Scriptlet.Proofs.Run.Discipline
import Scriptlet.Proofs.Scopes.Coherence

/-!
Contract: what evaluation does to frames and to the set of global names.

Owns:
- scopes with the same frames and global names, and scopes with the same frames
  of the callers;
- evaluating an expression keeps all frames and the global names, and executing
  keeps the frames of the callers, and the global names unless no call is active;
- a call finds its own frame when it is left.

Statements may bind names in the innermost frame, and outside of calls may make
new global names.  A call gives its body a frame of its own, so nothing of that
is left when the call is.
-/

namespace Scriptlet

open Run

/-! ## Scopes that keep names -/

namespace Scopes

/-- Whether scopes come to have the same frames and the same global names. -/
structure KeepsNames (before after : Scopes) : Prop where
  frames : after.frames = before.frames
  globals : ∀ name, name ∈ after.globals ↔ name ∈ before.globals

/-- Whether scopes come to have as many frames, the same ones below the innermost,
and, while a call is active, the same global names. -/
structure KeepsCallers (before after : Scopes) : Prop where
  depth : after.depth = before.depth
  callers : after.frames.tail = before.frames.tail
  globals : before.depth ≠ 0 → ∀ name, name ∈ after.globals ↔ name ∈ before.globals

variable {first second third : Scopes}

theorem KeepsNames.refl (scopes : Scopes) : scopes.KeepsNames scopes :=
  ⟨rfl, fun _ => .rfl⟩

theorem KeepsNames.trans (keeps : first.KeepsNames second) (next : second.KeepsNames third) :
    first.KeepsNames third :=
  ⟨next.frames.trans keeps.frames, fun name => (next.globals name).trans (keeps.globals name)⟩

theorem KeepsNames.keepsCallers (keeps : first.KeepsNames second) : first.KeepsCallers second :=
  ⟨congrArg List.length keeps.frames, congrArg List.tail keeps.frames, fun _ => keeps.globals⟩

theorem KeepsCallers.refl (scopes : Scopes) : scopes.KeepsCallers scopes :=
  (KeepsNames.refl scopes).keepsCallers

theorem KeepsCallers.trans (keeps : first.KeepsCallers second)
    (next : second.KeepsCallers third) : first.KeepsCallers third where
  depth := next.depth.trans keeps.depth
  callers := next.callers.trans keeps.callers
  globals active name :=
    (next.globals (keeps.depth ▸ active) name).trans (keeps.globals active name)

/-- A name is bound globally if it is already, or if no frame is there to bind it
in. -/
theorem keepsCallers_write (scopes : Scopes) (name : String) (value : Value) :
    scopes.KeepsCallers (scopes.write name value) := by
  refine ⟨depth_write scopes name value, ?_, ?_⟩
  · obtain ⟨globals, frames⟩ := scopes
    cases frames with
    | nil => rfl
    | cons frame outer =>
        simp only [write]
        split <;> rfl
  · intro active other
    obtain ⟨globals, frames⟩ := scopes
    cases frames with
    | nil => exact absurd rfl active
    | cons frame outer =>
        simp only [write]
        split
        · next isGlobal =>
            rw [mem_insert_bindings]
            refine or_iff_right_of_imp ?_
            rintro rfl
            exact isGlobal
        · rfl

theorem keepsCallers_writeAll (scopes : Scopes) (bindings : List (String × Value)) :
    scopes.KeepsCallers (scopes.writeAll bindings) := by
  induction bindings generalizing scopes with
  | nil => exact .refl scopes
  | cons binding rest inductionHypothesis =>
      exact (keepsCallers_write scopes binding.1 binding.2).trans (inductionHypothesis _)

/-- A frame that was opened is on top of those of the callers, whatever was done
inside it. -/
theorem KeepsCallers.exists_own {scopes ended : Scopes} (keeps : scopes.push.KeepsCallers ended) :
    ∃ own, ended.frames = own :: scopes.frames := by
  obtain ⟨globals, frames⟩ := ended
  cases frames with
  | nil => exact absurd keeps.depth.symm (Nat.succ_ne_zero _)
  | cons own outer =>
      have callers : outer = scopes.frames := keeps.callers
      exact ⟨own, congrArg (own :: ·) callers⟩

/-- A frame that was opened can be closed, and then the frames and the global
names are what they were. -/
theorem KeepsCallers.pop {scopes ended : Scopes} (keeps : scopes.push.KeepsCallers ended) :
    ended.pop? = some ⟨ended.globals, scopes.frames⟩ ∧
      scopes.KeepsNames ⟨ended.globals, scopes.frames⟩ := by
  obtain ⟨own, isOwn⟩ := keeps.exists_own
  refine ⟨?_, rfl, keeps.globals (Nat.succ_ne_zero _)⟩
  rw [pop?, isOwn]

end Scopes

/-! ## Calls -/

namespace Run

/-- A call that is entered opens a frame and binds the parameters, and remembers how
many calls were active. -/
theorem eq_enter_of_enterCall {settings : Settings} {name : String}
    {declaration : FunctionDeclaration} {values : List Value} {depth : Nat}
    {given entered : Machine}
    (enters : enterCall settings name declaration values given = .ok depth entered) :
    depth = given.scopes.depth ∧ entered = given.enter name declaration values := by
  have ends : Ensures (enterCall settings name declaration values) given
      (fun depth after =>
        depth = given.scopes.depth ∧ after = given.enter name declaration values)
      fun _ _ => True := by
    show Ensures (if settings.limits.maxCallDepth ≤ given.scopes.depth then _ else _) given _ _
    split
    · trivial
    · exact ⟨rfl, rfl⟩
  exact ends.of_ok enters

/-- A call whose body kept the frames below its own leaves that frame. -/
theorem leaveCall_of_keepsCallers {scopes : Scopes} {ended : Machine} (name : String)
    (depth : Nat) (keeps : scopes.push.KeepsCallers ended.scopes) :
    leaveCall name depth ended =
      .ok ((ended.scopes.read returnName).getD (.integer 0)) { ended with
        scopes := ⟨ended.scopes.globals, scopes.frames⟩
        calls := ended.calls.push (.leaving name depth) } := by
  have popped := keeps.pop.1
  rw [leaveCall, get_bind_apply]
  simp only [popped]
  rfl

end Run

/-! ## The discipline -/

namespace Machine

/-- The scopes of a machine that has entered a call keep what its callers
have. -/
theorem keepsCallers_enter (machine : Machine) (name : String)
    (declaration : FunctionDeclaration) (values : List Value) :
    machine.scopes.push.KeepsCallers (machine.enter name declaration values).scopes :=
  Scopes.keepsCallers_writeAll _ _

end Machine

/-- Evaluation of any node in any machine, as far as frames and the set of global
names go. -/
def keepingFrames (settings : Settings) : Discipline settings where
  Admits _ := True
  Inv _ := True
  Good _ _ := True
  ExprStep before after := before.scopes.KeepsNames after.scopes
  ExecStep before _ after := before.scopes.KeepsCallers after.scopes
  Halts _ halt _ := halt.Ordinary
  admits_part _ _ := trivial
  integer _ _ := trivial
  stable _ _ := trivial
  refl machine := .refl machine.scopes
  trans := .trans
  proceed machine := .refl machine.scopes
  exprThen step next := step.keepsCallers.trans next
  execThen := .trans
  exprHalts _ halts := halts
  execHalts _ halts := halts
  fail _ ordinary := ordinary
  outOfFuel _ := trivial
  tick _ := by
    refine Conduct.ends_of_changes (changes_tick settings) (haltsOrdinarily_tick settings) ?_
      fun ordinary _ => ordinary
    rintro _ _ _ rfl
    exact ⟨trivial, .refl _, trivial⟩
  readName name _ _ := by
    refine Conduct.ends_of_changes (changes_readName settings name)
      (haltsOrdinarily_readName settings name) ?_ fun ordinary _ => ordinary
    intro _ after _ changed
    rw [changed]
    exact ⟨trivial, .refl _, trivial⟩
  readSlot _ _ _ _ := trivial
  writeSlot location index _ value _ _ _ := by
    refine Conduct.ends_of_changes (changes_writeSlot settings location index value)
      (haltsOrdinarily_writeSlot settings location index value) ?_ fun ordinary _ => ordinary
    intro _ after _ changed
    rw [changed]
    exact ⟨trivial, .refl _, trivial⟩
  Filling _ _ _ _ := True
  startFilling _ := trivial
  keepFilling _ _ := trivial
  fill _ _ _ := by
    refine Conduct.ends_of_changes (changes_copyAt 2 _) (haltsOrdinarily_copyAt 2 _) ?_
      fun ordinary _ => ordinary
    intro _ after _ changed
    rw [changed]
    exact ⟨trivial, .refl _, trivial⟩
  makeArray _ _ step _ := ⟨trivial, step, trivial⟩
  assign _ _ _ := ⟨Scopes.keepsCallers_write _ _ _, trivial⟩
  declare _ _ := ⟨Scopes.keepsCallers_write _ _ _, trivial⟩
  giveBack _ _ := Scopes.keepsCallers_write _ _ _
  declared _ _ := trivial
  enter _ _ _ := trivial
  enterHalts _ halts := halts
  leave {name declaration values before ended _} _ step _ := by
    have keeps := (before.keepsCallers_enter name declaration values).trans step
    rw [Ensures, leaveCall_of_keepsCallers name _ keeps]
    exact ⟨trivial, keeps.pop.2, trivial⟩

section

variable {settings : Settings} {fuel : Nat} {before after : Machine}

/-- Evaluating an expression keeps all frames and the global names. -/
theorem keepsNames_of_evalExpr {expr : Expr} {value : Value}
    (evaluated : evalExpr settings fuel expr before = .ok value after) :
    before.scopes.KeepsNames after.scopes :=
  (((keepingFrames settings).meets_atFuel fuel).expr trivial trivial |>.of_ok evaluated).2.1

/-- Executing keeps the frames below the innermost. -/
theorem keepsCallers_of_execute {node : Node} {flow : Flow} (isExecuted : node.IsExecuted)
    (executed : (Evaluator.atFuel settings fuel).execute node before = .ok flow after) :
    before.scopes.KeepsCallers after.scopes :=
  (((keepingFrames settings).meets_atFuel fuel).execute node isExecuted trivial trivial
    |>.of_ok executed).1

/-- No execution fails by a fault of evaluation itself. -/
theorem ordinary_of_execute {node : Node} {halt : Halt} (isExecuted : node.IsExecuted)
    (halted : (Evaluator.atFuel settings fuel).execute node before = .error halt after) :
    halt.Ordinary :=
  ((keepingFrames settings).meets_atFuel fuel).execute node isExecuted trivial trivial
    |>.of_error halted

end

end Scriptlet
