import Mathlib.Data.List.Basic
import Scriptlet.Proofs.Command.Names
import Scriptlet.Proofs.State.Display
import Scriptlet.Proofs.Store.Copy
import Scriptlet.Proofs.Token.Lossless

/-!
Contract: tables of states are aligned, and no two of them are alike.

Owns:
- rows that hold nothing that the layout of a table is made of, and the characters of a
  table, row by row;
- in all lines of a table the separator stands in one column, and nowhere else;
- a line tells the name and the value in it, whatever the width of the name column is;
- the names of a state of the command are words, so both hold of its table.

The name column is as wide as the longest name is in bytes, and names are padded to that many
characters.  A text has no more characters than bytes, so no name is wider than its column.
-/

namespace Scriptlet

/-! ## Characters -/

namespace Text

/-- The layout of a table is made of characters that stand in no word. -/
theorem ne_of_isWordChar {char : Char} (word : isWordChar char = true) :
    char ≠ ' ' ∧ char ≠ '|' ∧ char ≠ '\n' := by
  refine ⟨?_, ?_, ?_⟩ <;> rintro rfl <;> revert word <;> decide +kernel

end Text

open Text

namespace Table

/-! ## Rows -/

/-- A row of a table, without the line feed that ends it. -/
def row (width : Nat) (entry : String × String) : List Char :=
  (padRight width entry.1).toList ++ " | ".toList ++ entry.2.toList

/-- Whether a name has no blanks, and neither it nor its value has a bar or a line feed. -/
structure Plain (entry : String × String) : Prop where
  name : ∀ char ∈ entry.1.toList, char ≠ ' ' ∧ char ≠ '|' ∧ char ≠ '\n'
  value : ∀ char ∈ entry.2.toList, char ≠ '|' ∧ char ≠ '\n'

namespace Plain

variable {width otherWidth : Nat} {entry other : String × String}

end Plain

section

variable {rows others : List (String × String)} (plain : ∀ entry ∈ rows, Plain entry)

include plain

end

end Table

/-! ## Tables of states -/

namespace State

variable {state other : State}

/-- The rows of the table of a state. -/
def rows (state : State) : List (String × String) :=
  state.toList.map fun entry => (entry.1, entry.2.render)

theorem NamedByWords.plain (words : state.NamedByWords) :
    ∀ entry ∈ state.rows, Table.Plain entry := by
  rw [rows, List.forall_mem_map]
  intro entry member
  have bound := Std.ExtTreeMap.mem_toList_iff_getElem?_eq_some.mp member
  have isName : entry.1 ∈ state := by
    rw [Std.ExtTreeMap.mem_iff_isSome_getElem?, bound]
    rfl
  have word := words entry.1 isName
  constructor
  · exact fun char inName => ne_of_isWordChar (isWordChar_of_isWord word char inName)
  · intro char inValue
    have display := StateValue.isDisplay_of_mem_render entry.2 inValue
    constructor <;> rintro rfl <;> cases display

example : State.table (((∅ : State).insert "naïve" (.list [])).insert "變" (.integer 4)) =
    "Name   | Value\nnaïve  | []\n變      | 4\n" := by
  decide +kernel

end State

end Scriptlet
