import Scriptlet.State

/-!
Contract: the table of a final state.

Two columns, names and values, one line a name in the order of the state under a
header.  The name column is as wide as the longest name is in bytes, and at
least as wide as its heading; names are padded to that many characters.
-/

namespace Scriptlet

namespace Table

/-- Pads a text with spaces on the right to a number of characters. -/
def padRight (width : Nat) (text : String) : String :=
  text ++ String.ofList (List.replicate (width - text.length) ' ')

/-- One line of the table. -/
def line (width : Nat) (name value : String) : String :=
  padRight width name ++ " | " ++ value ++ "\n"

/-- Width of the name column. -/
def nameWidth (names : List String) : Nat :=
  (names.map String.utf8ByteSize).foldl max "Name".utf8ByteSize

/-- The table of some names and values. -/
def ofRows (rows : List (String × String)) : String :=
  let width := nameWidth (rows.map Prod.fst)
  line width "Name" "Value" ++ String.join (rows.map fun (name, value) => line width name value)

end Table

namespace State

/-- The table of a state. -/
def table (state : State) : String :=
  Table.ofRows (state.toList.map fun (name, value) => (name, value.render))

end State

end Scriptlet
