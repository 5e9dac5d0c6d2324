/-!
Contract: classes of characters given as ascending ranges of code points.

Owns the range search and the law that it finds exactly the covered code
points.  Because the ranges ascend, the search stops at the first range that
starts above the code point.
-/

namespace Scriptlet.Text

/-- A closed range of code points, first and last. -/
abbrev CodeRange := Nat × Nat

namespace CodeRange

/-- Whether one of some ascending ranges covers a code point. -/
def covers : List CodeRange → Nat → Bool
  | [], _ => false
  | (first, last) :: rest, code =>
      decide (first ≤ code) && (decide (code ≤ last) || covers rest code)

/-- Ranges in order, each one non-empty and each one above those before it. -/
def Ascending : List CodeRange → Prop
  | [] => True
  | [(first, last)] => first ≤ last
  | (first, last) :: (nextFirst, nextLast) :: rest =>
      first ≤ last ∧ last < nextFirst ∧ Ascending ((nextFirst, nextLast) :: rest)

instance decidableAscending : (ranges : List CodeRange) → Decidable (Ascending ranges)
  | [] => isTrue trivial
  | [(first, last)] => inferInstanceAs (Decidable (first ≤ last))
  | (first, last) :: (nextFirst, nextLast) :: rest =>
      have := decidableAscending ((nextFirst, nextLast) :: rest)
      inferInstanceAs (Decidable (first ≤ last ∧ last < nextFirst ∧ _))

theorem Ascending.tail {range : CodeRange} {rest : List CodeRange}
    (ascending : Ascending (range :: rest)) : Ascending rest := by
  match range, rest, ascending with
  | _, [], _ => trivial
  | (_, _), (_, _) :: _, ascending => exact ascending.2.2

/-- Every later range starts above the start of the first one. -/
theorem Ascending.first_lt {first last : Nat} {rest : List CodeRange}
    (ascending : Ascending ((first, last) :: rest)) :
    ∀ range ∈ rest, first < range.1 := by
  induction rest generalizing first last with
  | nil => simp
  | cons next rest inductionHypothesis =>
      obtain ⟨nextFirst, nextLast⟩ := next
      obtain ⟨nonempty, gap, later⟩ := ascending
      intro range member
      rcases List.mem_cons.mp member with rfl | member
      · exact Nat.lt_of_le_of_lt nonempty gap
      · exact Nat.lt_trans (Nat.lt_of_le_of_lt nonempty gap)
          (inductionHypothesis later range member)

/-- The search finds a code point exactly when some range covers it. -/
theorem covers_iff {ranges : List CodeRange} (ascending : Ascending ranges) (code : Nat) :
    covers ranges code = true ↔ ∃ range ∈ ranges, range.1 ≤ code ∧ code ≤ range.2 := by
  induction ranges with
  | nil => simp [covers]
  | cons range rest inductionHypothesis =>
      obtain ⟨first, last⟩ := range
      have later := inductionHypothesis ascending.tail
      simp only [covers, Bool.and_eq_true, Bool.or_eq_true, decide_eq_true_eq, later]
      constructor
      · rintro ⟨atLeast, atMost | ⟨range, member, covered⟩⟩
        · exact ⟨(first, last), List.mem_cons_self, atLeast, atMost⟩
        · exact ⟨range, List.mem_cons_of_mem _ member, covered⟩
      · rintro ⟨range, member, atLeast, atMost⟩
        rcases List.mem_cons.mp member with rfl | member
        · exact ⟨atLeast, Or.inl atMost⟩
        · exact ⟨Nat.le_of_lt
            (Nat.lt_of_lt_of_le (ascending.first_lt range member) atLeast),
            Or.inr ⟨range, member, atLeast, atMost⟩⟩

end CodeRange

end Scriptlet.Text
