import Scriptlet.Run.Store

/-!
Contract: where names are bound during a run.

Names are bound globally or in the frame of an active call.  A name that is
bound globally is always written globally, also from inside a call and also when
it names a parameter; any other write goes to the innermost frame, or to the
globals when no call is active.  A read searches all active frames, innermost
first, and then the globals.
-/

namespace Scriptlet

/-- Values by name. -/
abbrev Bindings := Std.ExtTreeMap String Value

/-- The global bindings, and those of the active calls, innermost first. -/
structure Scopes where
  globals : Bindings
  frames : List Bindings

namespace Scopes

/-- Global bindings, with no call active. -/
def ofGlobals (globals : Bindings) : Scopes :=
  ⟨globals, []⟩

/-- Number of active calls. -/
def depth (scopes : Scopes) : Nat :=
  scopes.frames.length

/-- What the innermost of some frames that binds a name binds it to. -/
def readFrames (name : String) : List Bindings → Option Value
  | [] => none
  | frame :: outer =>
      match frame[name]? with
      | some value => some value
      | none => readFrames name outer

/-- What a name is bound to. -/
def read (scopes : Scopes) (name : String) : Option Value :=
  match readFrames name scopes.frames with
  | some value => some value
  | none => scopes.globals[name]?

/-- Binds a name. -/
def write (scopes : Scopes) (name : String) (value : Value) : Scopes :=
  match scopes with
  | ⟨globals, []⟩ => ⟨globals.insert name value, []⟩
  | ⟨globals, frame :: outer⟩ =>
      if name ∈ globals then
        ⟨globals.insert name value, frame :: outer⟩
      else
        ⟨globals, frame.insert name value :: outer⟩

/-- Binds names in order. -/
def writeAll (scopes : Scopes) (bindings : List (String × Value)) : Scopes :=
  bindings.foldl (fun scopes binding => scopes.write binding.1 binding.2) scopes

/-- Opens the frame of a call. -/
def push (scopes : Scopes) : Scopes :=
  { scopes with frames := ∅ :: scopes.frames }

/-- Closes the innermost frame, if there is one. -/
def pop? (scopes : Scopes) : Option Scopes :=
  match scopes.frames with
  | [] => none
  | _ :: outer => some { scopes with frames := outer }

@[simp] theorem depth_ofGlobals (globals : Bindings) : (ofGlobals globals).depth = 0 := rfl

@[simp] theorem depth_push (scopes : Scopes) : scopes.push.depth = scopes.depth + 1 := rfl

@[simp] theorem pop?_push (scopes : Scopes) : scopes.push.pop? = some scopes := rfl

/-- Binding a name opens and closes no frame. -/
@[simp] theorem depth_write (scopes : Scopes) (name : String) (value : Value) :
    (scopes.write name value).depth = scopes.depth := by
  obtain ⟨globals, frames⟩ := scopes
  cases frames with
  | nil => rfl
  | cons frame outer =>
      simp only [write, depth]
      split <;> rfl

@[simp] theorem depth_writeAll (scopes : Scopes) (bindings : List (String × Value)) :
    (scopes.writeAll bindings).depth = scopes.depth := by
  induction bindings generalizing scopes with
  | nil => rfl
  | cons binding rest inductionHypothesis =>
      simp only [writeAll, List.foldl_cons]
      exact (inductionHypothesis _).trans (depth_write scopes binding.1 binding.2)

end Scopes

end Scriptlet
