import Scriptlet.Parse.Program

/-!
Contract: compiled programs, their canonical text, and reading that text back.

A program is the tree of a source text with the features it was compiled under.
Running it never changes it.
-/

namespace Scriptlet

/-- A compiled program. -/
structure Program where
  features : FeatureSet
  body : Block
deriving DecidableEq

namespace Program

/-- Compiles a source text under a feature set. -/
def compile (features : FeatureSet) (source : String) : Except ParseError Program :=
  (parse features source).map fun body => ⟨features, body⟩

/-- Canonical source text. -/
def render (program : Program) : String :=
  program.body.toSource

/-- Whether compiling the canonical text gives the program back, or how that
fails: parentheses that only the canonical text has can exceed the nesting
limit. -/
def roundTrip (program : Program) : Except ParseError Bool :=
  (compile program.features program.render).map fun again => decide (again = program)

end Program

end Scriptlet
