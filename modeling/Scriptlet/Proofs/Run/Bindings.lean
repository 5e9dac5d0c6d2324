import Scriptlet.Run.Scopes

/-!
Contract: the values that the names of a run are bound to.

Owns:
- which values scopes bind, globally or in the frame of an active call, and how
  writing, opening and closing frames change them;
- what holds of all names and the values they are bound to.
-/

namespace Scriptlet

namespace Scopes

/-- Whether some name is bound to a value. -/
def Binds (scopes : Scopes) (value : Value) : Prop :=
  (∃ name : String, scopes.globals[name]? = some value) ∨
    ∃ frame ∈ scopes.frames, ∃ name : String, frame[name]? = some value

theorem eq_or_found_of_insert {bindings : Bindings} {name other : String} {value found : Value}
    (isFound : (bindings.insert name value)[other]? = some found) :
    found = value ∨ bindings[other]? = some found := by
  rw [Std.ExtTreeMap.getElem?_insert] at isFound
  split at isFound
  · exact .inl (Option.some.inj isFound).symm
  · exact .inr isFound

/-- What a name stands for is bound. -/
theorem binds_of_read {scopes : Scopes} {name : String} {value : Value}
    (found : scopes.read name = some value) : scopes.Binds value := by
  have inFrames : ∀ frames : List Bindings, readFrames name frames = some value →
      ∃ frame ∈ frames, frame[name]? = some value := by
    intro frames isFound
    induction frames with
    | nil => cases isFound
    | cons frame outer inductionHypothesis =>
        unfold readFrames at isFound
        split at isFound
        · next bound isBound =>
            cases isFound
            exact ⟨frame, List.mem_cons_self, isBound⟩
        · obtain ⟨other, member, isBound⟩ := inductionHypothesis isFound
          exact ⟨other, List.mem_cons_of_mem _ member, isBound⟩
  unfold read at found
  split at found
  · next bound isBound =>
      cases found
      obtain ⟨frame, member, isFound⟩ := inFrames scopes.frames isBound
      exact .inr ⟨frame, member, name, isFound⟩
  · exact .inl ⟨name, found⟩

/-- A write binds the written value and what was bound before. -/
theorem binds_write {scopes : Scopes} {name : String} {value found : Value}
    (binds : (scopes.write name value).Binds found) : found = value ∨ scopes.Binds found := by
  obtain ⟨globals, frames⟩ := scopes
  have global : ∀ {other : String}, (globals.insert name value)[other]? = some found →
      found = value ∨ (Scopes.mk globals frames).Binds found := by
    intro other isFound
    rcases eq_or_found_of_insert isFound with isValue | isFound
    · exact .inl isValue
    · exact .inr (.inl ⟨other, isFound⟩)
  cases frames with
  | nil =>
      rcases binds with ⟨other, isFound⟩ | ⟨frame, member, _⟩
      · exact global isFound
      · cases member
  | cons frame outer =>
      simp only [write] at binds
      split at binds
      · rcases binds with ⟨other, isFound⟩ | inFrame
        · exact global isFound
        · exact .inr (.inr inFrame)
      · rcases binds with isGlobal | ⟨changed, member, other, isFound⟩
        · exact .inr (.inl isGlobal)
        · rcases List.mem_cons.mp member with rfl | member
          · rcases eq_or_found_of_insert isFound with isValue | isFound
            · exact .inl isValue
            · exact .inr (.inr ⟨frame, List.mem_cons_self, other, isFound⟩)
          · exact .inr (.inr ⟨changed, List.mem_cons_of_mem _ member, other, isFound⟩)

theorem binds_writeAll {scopes : Scopes} {bindings : List (String × Value)} {found : Value}
    (binds : (scopes.writeAll bindings).Binds found) :
    (∃ name, (name, found) ∈ bindings) ∨ scopes.Binds found := by
  induction bindings generalizing scopes with
  | nil => exact .inr binds
  | cons binding rest inductionHypothesis =>
      rcases inductionHypothesis binds with ⟨name, member⟩ | binds
      · exact .inl ⟨name, List.mem_cons_of_mem _ member⟩
      · rcases binds_write binds with rfl | binds
        · exact .inl ⟨binding.1, List.mem_cons_self⟩
        · exact .inr binds

/-- An opened frame binds nothing. -/
theorem binds_push {scopes : Scopes} {found : Value} (binds : scopes.push.Binds found) :
    scopes.Binds found := by
  rcases binds with isGlobal | ⟨frame, member, name, isFound⟩
  · exact .inl isGlobal
  · rcases List.mem_cons.mp member with rfl | member
    · simp at isFound
    · exact .inr ⟨frame, member, name, isFound⟩

/-- What is bound after a frame was closed was bound before. -/
theorem binds_of_pop? {scopes outer : Scopes} {found : Value}
    (popped : scopes.pop? = some outer) (binds : outer.Binds found) : scopes.Binds found := by
  unfold pop? at popped
  split at popped
  · cases popped
  · next frame frames isFrames =>
      cases popped
      rcases binds with isGlobal | ⟨inner, member, isFound⟩
      · exact .inl isGlobal
      · refine .inr ⟨inner, ?_, isFound⟩
        rw [isFrames]
        exact List.mem_cons_of_mem _ member

/-! ## What holds of all bindings -/

/-- Whether something holds of every name and every value that it is bound to,
globally or in a frame. -/
def BindsOnly (scopes : Scopes) (Holds : String → Value → Prop) : Prop :=
  ∀ bindings ∈ scopes.globals :: scopes.frames, ∀ ⦃name : String⦄ ⦃value : Value⦄,
    bindings[name]? = some value → Holds name value

variable {scopes : Scopes} {Holds : String → Value → Prop}

theorem BindsOnly.read (binds : scopes.BindsOnly Holds) {name : String} {value : Value}
    (found : scopes.read name = some value) : Holds name value := by
  have inFrames : ∀ frames : List Bindings, (∀ frame ∈ frames, frame ∈ scopes.frames) →
      readFrames name frames = some value → Holds name value := by
    intro frames member isFound
    induction frames with
    | nil => cases isFound
    | cons frame outer inductionHypothesis =>
        rw [List.forall_mem_cons] at member
        unfold readFrames at isFound
        split at isFound
        · next bound isBound =>
            cases isFound
            exact binds frame (List.mem_cons_of_mem _ member.1) isBound
        · exact inductionHypothesis member.2 isFound
  unfold Scopes.read at found
  split at found
  · next bound isBound =>
      cases found
      exact inFrames scopes.frames (fun _ member => member) isBound
  · exact binds scopes.globals List.mem_cons_self found

theorem BindsOnly.write (binds : scopes.BindsOnly Holds) {name : String} {value : Value}
    (holds : Holds name value) : (scopes.write name value).BindsOnly Holds := by
  have inserted : ∀ bindings ∈ scopes.globals :: scopes.frames, ∀ ⦃other : String⦄
      ⦃found : Value⦄, (bindings.insert name value)[other]? = some found →
      Holds other found := by
    intro bindings member other found isFound
    rw [Std.ExtTreeMap.getElem?_insert] at isFound
    split at isFound
    · next same =>
        cases isFound
        rwa [← Std.LawfulEqCmp.eq_of_compare same]
    · exact binds bindings member isFound
  obtain ⟨globals, frames⟩ := scopes
  cases frames with
  | nil => exact List.forall_mem_singleton.mpr (inserted globals List.mem_cons_self)
  | cons frame outer =>
      simp only [Scopes.write]
      split
      · refine List.forall_mem_cons.mpr ⟨inserted globals List.mem_cons_self, ?_⟩
        exact fun bindings member => binds bindings (List.mem_cons_of_mem _ member)
      · refine List.forall_mem_cons.mpr ⟨binds globals List.mem_cons_self, ?_⟩
        refine List.forall_mem_cons.mpr ⟨inserted frame (by simp), fun bindings member => ?_⟩
        exact binds bindings (List.mem_cons_of_mem _ (List.mem_cons_of_mem _ member))

theorem BindsOnly.writeAll {bindings : List (String × Value)} (binds : scopes.BindsOnly Holds)
    (holds : ∀ binding ∈ bindings, Holds binding.1 binding.2) :
    (scopes.writeAll bindings).BindsOnly Holds := by
  induction bindings generalizing scopes with
  | nil => exact binds
  | cons binding rest inductionHypothesis =>
      rw [List.forall_mem_cons] at holds
      exact inductionHypothesis (binds.write holds.1) holds.2

theorem BindsOnly.push (binds : scopes.BindsOnly Holds) : scopes.push.BindsOnly Holds := by
  refine List.forall_mem_cons.mpr ⟨binds _ List.mem_cons_self, ?_⟩
  refine List.forall_mem_cons.mpr ⟨fun _ _ found => by simp at found, ?_⟩
  exact fun bindings member => binds bindings (List.mem_cons_of_mem _ member)

theorem BindsOnly.pop {outer : Scopes} (binds : scopes.BindsOnly Holds)
    (popped : scopes.pop? = some outer) : outer.BindsOnly Holds := by
  obtain ⟨globals, frames⟩ := scopes
  cases frames with
  | nil => cases popped
  | cons frame rest =>
      cases popped
      refine List.forall_mem_cons.mpr ⟨binds globals List.mem_cons_self, ?_⟩
      exact fun bindings member =>
        binds bindings (List.mem_cons_of_mem _ (List.mem_cons_of_mem _ member))

end Scopes

end Scriptlet
