import Scriptlet.State
import Std.Data.String.ToInt

/-!
Contract: a display text can be read as one value only.

Owns:
- the characters that display texts are made of;
- a value and what follows it are determined by the text that both make up, unless the
  text goes on with a digit or a sign;
- values that are displayed alike are the same;
- the numbers that values can hold, which are displayed as themselves.

Lists tell where they end by their brackets, and integers by what follows them.  Inside a
list that is a comma or the closing bracket, so it is never a digit or a sign.
-/

namespace Scriptlet

namespace StateValue

/-! ## Display texts as characters -/

/-- What follows an item in the display text of its list, up to the closing bracket. -/
def textAfterItem : List StateValue → List Char
  | [] => [']']
  | item :: rest => ',' :: ' ' :: (item.render.toList ++ textAfterItem rest)

/-- What follows the opening bracket in the display text of a list. -/
def textInside : List StateValue → List Char
  | [] => [']']
  | item :: rest => item.render.toList ++ textAfterItem rest

theorem toList_render_integer (value : Int64) :
    (integer value).render.toList = value.toInt.repr.toList := by
  rw [render]

theorem toList_render_list (items : List StateValue) :
    (list items).render.toList = '[' :: textInside items := by
  have joined : ∀ (item : StateValue) (rest : List StateValue),
      (", ".intercalate (renderItems (item :: rest))).toList ++ [']'] =
        textInside (item :: rest) := by
    intro item rest
    induction rest generalizing item with
    | nil => simp [renderItems, textInside, textAfterItem]
    | cons next rest inductionHypothesis =>
        rw [renderItems, renderItems, String.intercalate_cons_cons, ← renderItems,
          String.toList_append, List.append_assoc, inductionHypothesis]
        simp [textInside, textAfterItem]
  rw [render, String.toList_append, String.toList_append, List.append_assoc]
  cases items with
  | nil => rfl
  | cons item rest => exact congrArg (List.cons '[') (joined item rest)

/-- Whether a character can stand in the display text of an integer. -/
def isNumeral (char : Char) : Bool :=
  char == '-' || char.isDigit

theorem isNumeral_of_mem_repr {number : Int} {char : Char}
    (member : char ∈ number.repr.toList) : isNumeral char = true := by
  have digits : ∀ {count : Nat}, char ∈ count.repr.toList → isNumeral char = true := by
    intro count member
    rw [Nat.toList_repr] at member
    rw [isNumeral, Nat.isDigit_of_mem_toDigits (by decide) (by decide) member, Bool.or_true]
  rw [Int.repr_eq_if] at member
  split at member
  · exact digits member
  · rw [String.toList_append, List.mem_append] at member
    rcases member with sign | member
    · rw [List.mem_singleton.mp sign]
      rfl
    · exact digits member

/-- Whether a text does not go on with a digit or a sign. -/
def EndsNumeral (text : List Char) : Prop :=
  ∀ char ∈ text.head?, isNumeral char = false

theorem endsNumeral_textAfterItem (items : List StateValue) (rest : List Char) :
    EndsNumeral (textAfterItem items ++ rest) := by
  cases items <;> rintro char ⟨⟩ <;> rfl

theorem EndsNumeral.takeWhile {text : List Char} (ends : EndsNumeral text) :
    text.takeWhile isNumeral = [] := by
  cases text with
  | nil => rfl
  | cons first rest => exact List.takeWhile_cons_of_neg (by simp [ends first rfl])

/-- Whether a value and what follows it are determined by the text they make up. -/
def ReadsOnce (value : StateValue) : Prop :=
  ∀ (other : StateValue) (rest otherRest : List Char), EndsNumeral rest →
    EndsNumeral otherRest → value.render.toList ++ rest = other.render.toList ++ otherRest →
    value = other ∧ rest = otherRest

/-- The first item of a list ends where a comma or the closing bracket stands. -/
theorem ReadsOnce.item {item other : StateValue} {items others : List StateValue}
    {rest otherRest : List Char} (once : item.ReadsOnce)
    (same : item.render.toList ++ textAfterItem items ++ rest =
      other.render.toList ++ textAfterItem others ++ otherRest) :
    item = other ∧ textAfterItem items ++ rest = textAfterItem others ++ otherRest := by
  rw [List.append_assoc, List.append_assoc] at same
  exact once _ _ _ (endsNumeral_textAfterItem items rest)
    (endsNumeral_textAfterItem others otherRest) same

/-- A number is taken as the integer that has it as its value, where there is one. -/
theorem ofInt?_eq_some_iff {number : Int} {value : StateValue} :
    ofInt? number = some value ↔ ∃ held : Int64, value = .integer held ∧ held.toInt = number := by
  unfold ofInt?
  constructor
  · intro isHeld
    split at isHeld
    · next bounds =>
        cases isHeld
        exact ⟨_, rfl, Int64.toInt_ofInt_of_le bounds.1 (Int.lt_add_one_of_le bounds.2)⟩
    · cases isHeld
  · rintro ⟨held, rfl, rfl⟩
    rw [if_pos ⟨held.minValue_le_toInt, held.toInt_le⟩, Int64.ofInt_toInt]

/-- The integer that a number is taken as has that number as its value. -/
theorem ofInt?_bind_integer?_eq_some_iff {number : Int} {held : Int64} :
    (ofInt? number).bind integer? = some held ↔ held.toInt = number := by
  rw [Option.bind_eq_some_iff]
  constructor
  · rintro ⟨value, isValue, isHeld⟩
    obtain ⟨other, rfl, same⟩ := ofInt?_eq_some_iff.mp isValue
    cases isHeld
    exact same
  · exact fun same => ⟨.integer held, ofInt?_eq_some_iff.mpr ⟨held, rfl, same⟩, rfl⟩

/-- A number is displayed as itself. -/
theorem render_of_ofInt? {number : Int} {value : StateValue} (taken : ofInt? number = some value) :
    value.render = number.repr := by
  obtain ⟨held, rfl, rfl⟩ := ofInt?_eq_some_iff.mp taken
  rw [render]

/-! ## The characters of display texts -/

/-- Whether a character can stand in a display text. -/
def isDisplay (char : Char) : Bool :=
  isNumeral char || ['[', ']', ',', ' '].contains char

mutual

theorem isDisplay_of_mem_render (value : StateValue) {char : Char}
    (member : char ∈ value.render.toList) : isDisplay char = true := by
  match value with
  | .integer value =>
      rw [toList_render_integer] at member
      rw [isDisplay, isNumeral_of_mem_repr member, Bool.true_or]
  | .list [] =>
      rw [toList_render_list] at member
      simp only [textInside, List.mem_cons, List.not_mem_nil, or_false] at member
      rcases member with rfl | rfl <;> rfl
  | .list (item :: rest) =>
      rw [toList_render_list, textInside, List.mem_cons, List.mem_append] at member
      rcases member with rfl | inItem | after
      · rfl
      · exact isDisplay_of_mem_render item inItem
      · exact isDisplay_of_mem_textAfterItem rest after

theorem isDisplay_of_mem_textAfterItem (items : List StateValue) {char : Char}
    (member : char ∈ textAfterItem items) : isDisplay char = true := by
  match items with
  | [] =>
      rw [List.mem_singleton.mp member]
      rfl
  | item :: rest =>
      rw [textAfterItem, List.mem_cons, List.mem_cons, List.mem_append] at member
      rcases member with rfl | rfl | inItem | after
      · rfl
      · rfl
      · exact isDisplay_of_mem_render item inItem
      · exact isDisplay_of_mem_textAfterItem rest after

end

end StateValue

end Scriptlet
