import Scriptlet.Run.Scopes

/-!
Contract: reading and writing names agree on where a name is bound.

Owns:
- the scopes that any sequence of operations makes of some globals;
- no name is bound both globally and in a frame, whatever was done before;
- so a write is what the next read gives, and the order in which frames and
  globals are searched does not matter.

Writing looks at the globals first, and reading at the frames.  A name becomes
global only while no frame is open, and comes into a frame only while it is not
global.
-/

namespace Scriptlet

namespace Scopes

/-! ## Operations -/

/-- What can be done to scopes. -/
inductive Operation where
  | write (name : String) (value : Value)
  | push
  /-- Closes the innermost frame, or does nothing when no frame is open. -/
  | pop

/-- The scopes after an operation. -/
def apply (scopes : Scopes) : Operation → Scopes
  | .write name value => scopes.write name value
  | .push => scopes.push
  | .pop => scopes.pop?.getD scopes

/-- The scopes after some operations in order. -/
def applyAll (scopes : Scopes) (operations : List Operation) : Scopes :=
  operations.foldl apply scopes

/-- What a name is bound to, when the globals are searched before the frames. -/
def readGlobalsFirst (scopes : Scopes) (name : String) : Option Value :=
  match scopes.globals[name]? with
  | some value => some value
  | none => readFrames name scopes.frames

/-! ## Reading -/

theorem getElem?_insert_bindings (bindings : Bindings) (name other : String) (value : Value) :
    (bindings.insert name value)[other]? =
      if name = other then some value else bindings[other]? := by
  rw [Std.ExtTreeMap.getElem?_insert]
  simp only [Std.LawfulEqCmp.compare_eq_iff_eq]

theorem mem_insert_bindings {bindings : Bindings} {name other : String} {value : Value} :
    other ∈ bindings.insert name value ↔ name = other ∨ other ∈ bindings := by
  rw [Std.ExtTreeMap.mem_insert, Std.LawfulEqCmp.compare_eq_iff_eq]

theorem readFrames_eq_none_iff {name : String} {frames : List Bindings} :
    readFrames name frames = none ↔ ∀ frame ∈ frames, name ∉ frame := by
  induction frames with
  | nil => simp [readFrames]
  | cons frame outer inductionHypothesis =>
      rw [List.forall_mem_cons, ← inductionHypothesis, readFrames]
      by_cases bound : name ∈ frame
      · simp [bound]
      · simp [bound]

theorem read_of_readFrames_eq_none {scopes : Scopes} {name : String}
    (absent : readFrames name scopes.frames = none) :
    scopes.read name = scopes.globals[name]? := by
  rw [read, absent]

/-- Writing a name does not change what other names are bound to. -/
theorem read_write_of_ne (scopes : Scopes) {name other : String} (different : other ≠ name)
    (value : Value) : (scopes.write name value).read other = scopes.read other := by
  have inserted : ∀ bindings : Bindings,
      (bindings.insert name value)[other]? = bindings[other]? := by
    intro bindings
    rw [getElem?_insert_bindings, if_neg different.symm]
  obtain ⟨globals, frames⟩ := scopes
  cases frames with
  | nil => simp only [write, read, readFrames, inserted]
  | cons frame outer =>
      simp only [write]
      split
      · simp only [read, inserted]
      · simp only [read, readFrames, inserted]

/-! ## Coherence -/

/-- Scopes in which no name is bound both globally and in a frame. -/
def Coherent (scopes : Scopes) : Prop :=
  ∀ name ∈ scopes.globals, ∀ frame ∈ scopes.frames, name ∉ frame

theorem coherent_ofGlobals (globals : Bindings) : (ofGlobals globals).Coherent :=
  fun _ _ _ member => by cases member

theorem Coherent.write {scopes : Scopes} (coherent : scopes.Coherent) (name : String)
    (value : Value) : (scopes.write name value).Coherent := by
  obtain ⟨globals, frames⟩ := scopes
  cases frames with
  | nil => exact fun _ _ _ member => by cases member
  | cons frame outer =>
      simp only [Scopes.write]
      split
      · next isGlobal =>
          -- The name was a key of the globals, so they have no key more.
          intro other bound inner member
          have wasBound : other ∈ globals := by
            rcases mem_insert_bindings.mp bound with rfl | bound
            · exact isGlobal
            · exact bound
          exact coherent other wasBound inner member
      · next notGlobal =>
          intro other bound inner member
          rcases List.mem_cons.mp member with rfl | member
          · intro inserted
            rcases mem_insert_bindings.mp inserted with rfl | inFrame
            · exact notGlobal bound
            · exact coherent other bound frame List.mem_cons_self inFrame
          · exact coherent other bound inner (List.mem_cons_of_mem _ member)

theorem Coherent.push {scopes : Scopes} (coherent : scopes.Coherent) : scopes.push.Coherent := by
  intro name bound frame member
  rcases List.mem_cons.mp member with rfl | member
  · exact Std.ExtTreeMap.not_mem_empty
  · exact coherent name bound frame member

theorem Coherent.pop {scopes outer : Scopes} (coherent : scopes.Coherent)
    (popped : scopes.pop? = some outer) : outer.Coherent := by
  unfold pop? at popped
  split at popped
  · cases popped
  · next frame frames isFrames =>
      cases popped
      intro name bound inner member
      apply coherent name bound inner
      rw [isFrames]
      exact List.mem_cons_of_mem _ member

theorem Coherent.apply {scopes : Scopes} (coherent : scopes.Coherent) (operation : Operation) :
    (scopes.apply operation).Coherent := by
  cases operation with
  | write name value => exact coherent.write name value
  | push => exact coherent.push
  | pop =>
      show (scopes.pop?.getD scopes).Coherent
      cases popped : scopes.pop? with
      | none => exact coherent
      | some outer => exact coherent.pop popped

theorem Coherent.applyAll {scopes : Scopes} (coherent : scopes.Coherent)
    (operations : List Operation) : (scopes.applyAll operations).Coherent := by
  induction operations generalizing scopes with
  | nil => exact coherent
  | cons operation rest inductionHypothesis =>
      exact inductionHypothesis (coherent.apply operation)

/-- In coherent scopes a write is what the next read gives. -/
theorem Coherent.read_write {scopes : Scopes} (coherent : scopes.Coherent) (name : String)
    (value : Value) : (scopes.write name value).read name = some value := by
  obtain ⟨globals, frames⟩ := scopes
  cases frames with
  | nil => simp [Scopes.write, read, readFrames]
  | cons frame outer =>
      simp only [Scopes.write]
      split
      · next isGlobal =>
          have absent : readFrames name (frame :: outer) = none :=
            readFrames_eq_none_iff.mpr (coherent name isGlobal)
          rw [read_of_readFrames_eq_none absent]
          exact Std.ExtTreeMap.getElem?_insert_self
      · simp [read, readFrames]

/-- In coherent scopes at most one of the globals and the frames binds a name. -/
theorem Coherent.readGlobalsFirst_eq {scopes : Scopes} (coherent : scopes.Coherent)
    (name : String) : scopes.readGlobalsFirst name = scopes.read name := by
  unfold readGlobalsFirst
  by_cases isGlobal : name ∈ scopes.globals
  · have absent := readFrames_eq_none_iff.mpr (coherent name isGlobal)
    rw [read_of_readFrames_eq_none absent, Std.ExtTreeMap.getElem?_eq_some_getElem isGlobal]
  · rw [read, Std.ExtTreeMap.getElem?_eq_none isGlobal]
    cases readFrames name scopes.frames <;> rfl

/-- Whatever was written, opened and closed before: no name is bound both
globally and in a frame, a written name reads as what was written and all others
as they did, and searching the globals first gives the same for every name. -/
theorem reads_agree_after_operations (globals : Bindings) (operations : List Operation) :
    let scopes := (ofGlobals globals).applyAll operations
    (∀ name ∈ scopes.globals, ∀ frame ∈ scopes.frames, name ∉ frame) ∧
    (∀ name value, (scopes.write name value).read name = some value ∧
      ∀ other, other ≠ name → (scopes.write name value).read other = scopes.read other) ∧
    ∀ name, scopes.readGlobalsFirst name = scopes.read name := by
  intro scopes
  have coherent : scopes.Coherent := (coherent_ofGlobals globals).applyAll operations
  refine ⟨coherent, fun name value => ⟨coherent.read_write name value, ?_⟩,
    coherent.readGlobalsFirst_eq⟩
  intro other different
  exact read_write_of_ne scopes different value

/-- A name that two frames bind differently: a write from a third frame is what
is read, and the outer bindings are not global. -/
theorem reads_agree_after_nested_writes :
    let scopes := (ofGlobals ((∅ : Bindings).insert "a" (.integer 4))).applyAll
      [.push, .write "x" (.integer 1), .write "a" (.integer 5), .push, .write "x" (.integer 2)]
    "a" ∈ scopes.globals ∧ scopes.frames.length = 2 ∧
    (∀ frame ∈ scopes.frames, "a" ∉ frame) ∧
    (scopes.write "x" (.integer 3)).read "x" = some (.integer 3) ∧
    (scopes.write "x" (.integer 3)).read "a" = some (.integer 5) := by
  intro scopes
  obtain ⟨disjoint, written, _⟩ := reads_agree_after_operations
    ((∅ : Bindings).insert "a" (.integer 4))
    [.push, .write "x" (.integer 1), .write "a" (.integer 5), .push, .write "x" (.integer 2)]
  have isGlobal : "a" ∈ scopes.globals := by decide +kernel
  obtain ⟨same, others⟩ := written "x" (.integer 3)
  have read : scopes.read "a" = some (.integer 5) := by decide +kernel
  exact ⟨isGlobal, by decide +kernel, disjoint "a" isGlobal, same,
    (others "a" (by decide)).trans read⟩

end Scopes

end Scriptlet
