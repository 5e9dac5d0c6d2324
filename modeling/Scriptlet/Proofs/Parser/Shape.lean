import Scriptlet.Proofs.Canonical.Scan
import Scriptlet.Proofs.Parser.Names

/-!
Contract: what every node of a derived tree looks like under a feature set.

Owns:
- the features that a node needs, the shape that it has and the names that it
  spells, as one condition on the node itself;
- that a condition holds everywhere in a tree, from the parts of its nodes;
- the condition everywhere in the trees that readable tokens derive.

Does not own: how high and how deeply nested a tree can be, which the grammar
leaves open.
-/

namespace Scriptlet

/-- Whether an expression can be indexed. -/
def Expr.isPlace : Expr → Bool
  | .name _ | .call .. | .index .. => true
  | _ => false

/-- Whether a statement can stand in the header of a loop. -/
def Statement.isHeaderPart : Statement → Bool
  | .assign .. | .store .. | .skip => true
  | _ => false

/-- Whether a text starts with an identifier, which is also the first token that it
is cut into. -/
def StartsWithIdentifier (features : FeatureSet) (text : String) : Prop :=
  ∃ name : String, name.toList <+: text.toList ∧
    (scanAll features (Cursor.start text)).kinds.head? = some (.identifier name)

namespace Node

/-- The features without which a node does not exist. -/
def needs : Node → List Feature
  | .expr (.array _) | .expr (.index ..) | .statement (.store ..) => [.array]
  | .expr (.call ..) | .statement (.declare ..) | .statement (.giveBack _) => [.function]
  | .statement (.loop ..) => [.loop]
  | .statement (.choose (_ :: _ :: _) _) => [.conditional, .elseIf]
  | .statement (.choose ..) => [.conditional]
  | _ => []

/-- Whether a node has the shape of a parsed one, its parts left aside.  The
statement that does nothing stands in no block, so it is left to headers. -/
def Shaped (features : FeatureSet) : Node → Prop
  | .expr (.integer value) => 0 ≤ value.toInt
  | .expr (.index base _) => base.isPlace = true
  | .statement (.store base _ _) => base.isPlace = true
  | .statement (.evaluate evaluated) => StartsWithIdentifier features evaluated.render
  | .statement (.choose branches _) => branches ≠ []
  | .statement (.loop initial _ step _) =>
      initial.isHeaderPart = true ∧ step.isHeaderPart = true
  | .block statements => .skip ∉ statements
  | _ => True

/-- Whether a node is as the grammar makes it under a feature set, its parts left
aside. -/
structure WellFormed (features : FeatureSet) (node : Node) : Prop where
  allowed : ∀ feature ∈ node.needs, feature ∈ features
  shaped : node.Shaped features
  named : ∀ name, node.Spells name → (TokenKind.identifier name).Readable features

/-- Whether a condition holds of a node and of all nodes inside it. -/
def Everywhere (Holds : Node → Prop) (node : Node) : Prop :=
  ∀ inside : Node, inside.Within node → Holds inside

theorem Everywhere.of_parts {Holds : Node → Prop} {node : Node} (holds : Holds node)
    (parts : ∀ part : Node, part.Part node → part.Everywhere Holds) :
    node.Everywhere Holds := by
  intro inside within
  rcases within.cases_tail with rfl | ⟨part, within, isPart⟩
  · exact holds
  · exact parts part isPart inside within

theorem Everywhere.part {Holds : Node → Prop} {node part : Node}
    (everywhere : node.Everywhere Holds) (isPart : part.Part node) : part.Everywhere Holds :=
  fun inside within => everywhere inside (within.tail isPart)

end Node

variable {features : FeatureSet}

/-! ## Expressions -/

namespace Expr

theorem head?_of_append_cons {tokens more : List TokenKind} {kind : TokenKind} {name : String}
    (head : (tokens ++ kind :: more).head? = some (.identifier name))
    (other : kind ≠ .identifier name) : tokens.head? = some (.identifier name) := by
  cases tokens with
  | nil => exact absurd (Option.some.inj head) other
  | cons first rest => exact head

/-- A text whose first canonical token is an identifier starts with it. -/
theorem isPrefix_render {expr : Expr} {name : String}
    (head : expr.tokens.head? = some (.identifier name)) :
    name.toList <+: expr.render.toList := by
  cases expr with
  | integer | array => simp [tokens] at head
  | unary operator => cases operator <;> simp [tokens] at head
  | name =>
      obtain rfl : _ = name := by simpa [tokens] using head
      exact List.prefix_refl _
  | call =>
      obtain rfl : _ = name := by simpa [tokens] using head
      simp [render]
  | index base =>
      rw [tokens] at head
      have starts := isPrefix_render (head?_of_append_cons head (by simp))
      simp only [render, String.toList_append, List.append_assoc]
      exact starts.trans (List.prefix_append _ _)
  | binary operator left =>
      cases free : left.needsParensLeft operator with
      | true => simp [tokens, parenthesizeTokens, free] at head
      | false =>
          simp only [tokens, parenthesizeTokens, free, Bool.false_eq_true, if_false] at head
          have starts :=
            isPrefix_render (head?_of_append_cons head (operator.token_ne_identifier name))
          simp only [render, parenthesize, free, Bool.false_eq_true, if_false,
            String.toList_append, List.append_assoc]
          exact starts.trans (List.prefix_append _ _)

end Expr

namespace ExprForm

/-- The expressions of a form. -/
def exprs : ExprForm → List Expr
  | .expression _ expr | .operand expr | .place expr => [expr]
  | .list exprs | .items exprs => exprs

theorem Derives.isPlace {tokens : List TokenKind} {expr : Expr}
    (derived : Derives features tokens (.place expr)) : expr.isPlace = true := by
  cases derived <;> rfl

/-- The canonical text of an expression that starts with an identifier does so
too. -/
theorem Derives.startsWithIdentifier {tokens : List TokenKind} {level : Nat} {expr : Expr}
    {name : String} (derived : Derives features tokens (.expression level expr))
    (readable : ∀ kind ∈ tokens, kind.Readable features)
    (head : tokens.head? = some (.identifier name)) :
    StartsWithIdentifier features expr.render := by
  obtain ⟨_, _, starts⟩ := derived.keepsIdentifier name head
  have reads := (derived.readsCanonically readable).before (show StartsApart [] from rfl) reads_nil
  have kinds : (scanAll features (Cursor.start expr.render)).kinds =
      expr.tokens ++ [.endOfInput] := by
    rw [List.append_nil] at reads
    exact (reads 0).2
  refine ⟨name, Expr.isPrefix_render starts, ?_⟩
  rw [kinds]
  exact head?_append_of_head? starts _

/-- Every node of an expression that readable tokens derive is well formed. -/
theorem Derives.wellFormed {tokens : List TokenKind} {form : ExprForm}
    (derived : Derives features tokens form)
    (readable : ∀ kind ∈ tokens, kind.Readable features) :
    ∀ expr ∈ form.exprs, (Node.expr expr).Everywhere (Node.WellFormed features) := by
  induction derived with
  | ofOperand _ operand => exact operand readable
  | ofTighter _ _ tighter => exact tighter readable
  | ofPlace _ place => exact place readable
  | parentheses _ inner =>
      simp only [List.forall_mem_append, List.forall_mem_cons] at readable
      exact inner readable.2.1
  | binary operator _ _ left right =>
      simp only [List.forall_mem_append, List.forall_mem_cons] at readable
      refine List.forall_mem_singleton.mpr (.of_parts ⟨nofun, trivial, nofun⟩ ?_)
      intro part isPart
      cases isPart with
      | left => exact left readable.1 _ (List.mem_singleton_self _)
      | right => exact right readable.2.2 _ (List.mem_singleton_self _)
  | negation _ under | sign _ _ under =>
      rw [List.forall_mem_cons] at readable
      refine List.forall_mem_singleton.mpr (.of_parts ⟨nofun, trivial, nofun⟩ ?_)
      intro part isPart
      cases isPart with
      | operand => exact under readable.2 _ (List.mem_singleton_self _)
  | integer value =>
      obtain ⟨number, small, rfl⟩ := readable _ (List.mem_singleton_self _)
      refine List.forall_mem_singleton.mpr (.of_parts ⟨nofun, ?_, nofun⟩ nofun)
      change 0 ≤ (Int64.ofNat number).toInt
      rw [Int64.toInt_ofNat_of_lt small]
      exact Int.natCast_nonneg number
  | array allowed _ inner =>
      simp only [List.forall_mem_append, List.forall_mem_cons] at readable
      refine List.forall_mem_singleton.mpr
        (.of_parts ⟨List.forall_mem_singleton.mpr allowed, trivial, nofun⟩ ?_)
      intro part isPart
      cases isPart with
      | item member => exact inner readable.2.1 _ member
  | name name =>
      rw [List.forall_mem_singleton] at readable
      refine List.forall_mem_singleton.mpr (.of_parts ⟨nofun, trivial, ?_⟩ nofun)
      rintro _ rfl
      exact readable
  | call name allowed _ inner =>
      simp only [List.forall_mem_append, List.forall_mem_cons] at readable
      refine List.forall_mem_singleton.mpr
        (.of_parts ⟨List.forall_mem_singleton.mpr allowed, trivial, ?_⟩ ?_)
      · rintro _ rfl
        exact readable.1
      · intro part isPart
        cases isPart with
        | argument _ member => exact inner readable.2.2.1 _ member
  | index allowed place _ base offset =>
      simp only [List.forall_mem_append, List.forall_mem_cons] at readable
      refine List.forall_mem_singleton.mpr
        (.of_parts ⟨List.forall_mem_singleton.mpr allowed, place.isPlace, nofun⟩ ?_)
      intro part isPart
      cases isPart with
      | base => exact base readable.1 _ (List.mem_singleton_self _)
      | offset => exact offset readable.2.2.1 _ (List.mem_singleton_self _)
  | empty => exact nofun
  | nonempty _ found => exact found readable
  | one _ first => exact first readable
  | more _ _ first rest =>
      simp only [List.forall_mem_append, List.forall_mem_cons] at readable
      exact List.forall_mem_cons.mpr
        ⟨first readable.1 _ (List.mem_singleton_self _), rest readable.2.2⟩

end ExprForm

/-! ## Statements -/

namespace StatementForm

/-- The nodes of a form.  Branches of a chain are no nodes, their conditions and
blocks are. -/
def nodes : StatementForm → List Node
  | .assignment tree | .headerPart tree | .bare tree | .statement tree => [.statement tree]
  | .headerCondition condition => condition.toList.map .expr
  | .elseIfs branches =>
      branches.flatMap fun branch => [.expr branch.condition, .block branch.body]
  | .otherwise tree | .statements tree | .block tree => [.block tree]

theorem Derives.isHeaderPart {tokens : List TokenKind} {part : Statement}
    (derived : Derives features tokens (.headerPart part)) : part.isHeaderPart = true := by
  cases derived with
  | noPart => rfl
  | somePart assigned => cases assigned <;> rfl

theorem Derives.ne_skip {tokens : List TokenKind} {statement : Statement}
    (derived : Derives features tokens (.statement statement)) : statement ≠ .skip := by
  cases derived with
  | ofBare bare _ =>
      cases bare with
      | ofAssignment assigned => cases assigned <;> exact nofun
      | _ => exact nofun

/-- A chain of conditions needs the feature of further branches if it has any. -/
theorem Derives.needs_choose {tokens : List TokenKind} {branches : List Branch}
    (derived : Derives features tokens (.elseIfs branches))
    (allowed : Feature.conditional ∈ features) (first : Branch) (otherwise : Block) :
    ∀ feature ∈ (Node.statement (.choose (first :: branches) otherwise)).needs,
      feature ∈ features := by
  cases derived with
  | noElseIf => exact List.forall_mem_singleton.mpr allowed
  | elseIf furtherAllowed =>
      exact List.forall_mem_cons.mpr ⟨allowed, List.forall_mem_singleton.mpr furtherAllowed⟩

/-- Every node of a statement that readable tokens derive is well formed. -/
theorem Derives.wellFormed {tokens : List TokenKind} {form : StatementForm}
    (derived : Derives features tokens form)
    (readable : ∀ kind ∈ tokens, kind.Readable features) :
    ∀ node ∈ form.nodes, node.Everywhere (Node.WellFormed features) := by
  induction derived with
  | assign name second =>
      simp only [List.forall_mem_cons] at readable
      refine List.forall_mem_singleton.mpr (.of_parts ⟨nofun, trivial, ?_⟩ ?_)
      · rintro _ rfl
        exact readable.1
      · intro part isPart
        cases isPart with
        | assigned => exact second.wellFormed readable.2.2 _ (List.mem_singleton_self _)
  | store first second =>
      simp only [List.forall_mem_append, List.forall_mem_cons] at readable
      have target := first.wellFormed readable.1 _ (List.mem_singleton_self _)
      have ⟨allowed, shaped, _⟩ := target _ .refl
      refine List.forall_mem_singleton.mpr (.of_parts ⟨allowed, shaped, nofun⟩ ?_)
      intro part isPart
      cases isPart with
      | storeBase => exact target.part (.base _ _)
      | storeOffset => exact target.part (.offset _ _)
      | stored => exact second.wellFormed readable.2.2 _ (List.mem_singleton_self _)
  | noPart => exact List.forall_mem_singleton.mpr (.of_parts ⟨nofun, trivial, nofun⟩ nofun)
  | somePart _ part => exact part readable
  | noCondition => exact nofun
  | someCondition found =>
      exact List.forall_mem_singleton.mpr (found.wellFormed readable _ (List.mem_singleton_self _))
  | noElseIf => exact nofun
  | elseIf _ test _ _ guarded rest =>
      simp only [List.forall_mem_append, List.forall_mem_cons] at readable
      refine List.forall_mem_cons.mpr ⟨?_, List.forall_mem_cons.mpr ⟨?_, ?_⟩⟩
      · exact test.wellFormed readable.2.1 _ (List.mem_singleton_self _)
      · exact guarded readable.2.2.1 _ (List.mem_singleton_self _)
      · exact rest readable.2.2.2
  | noOtherwise | noStatement =>
      refine List.forall_mem_singleton.mpr (.of_parts ⟨nofun, List.not_mem_nil, nofun⟩ ?_)
      intro part isPart
      cases isPart with
      | statement member => cases member
  | someOtherwise _ found =>
      rw [List.forall_mem_cons] at readable
      exact found readable.2
  | ofAssignment _ assigned => exact assigned readable
  | evaluate evaluated head =>
      refine List.forall_mem_singleton.mpr
        (.of_parts ⟨nofun, evaluated.startsWithIdentifier readable head, nofun⟩ ?_)
      intro part isPart
      cases isPart with
      | evaluated => exact evaluated.wellFormed readable _ (List.mem_singleton_self _)
  | choose allowed test _ further _ guarded rest last =>
      simp only [List.forall_mem_append, List.forall_mem_cons] at readable
      have chained := rest readable.2.2.2.1
      refine List.forall_mem_singleton.mpr
        (.of_parts ⟨further.needs_choose allowed _ _, List.cons_ne_nil _ _, nofun⟩ ?_)
      intro part isPart
      cases isPart with
      | condition member =>
          rcases List.mem_cons.mp member with rfl | member
          · exact test.wellFormed readable.2.1 _ (List.mem_singleton_self _)
          · exact chained _ (List.mem_flatMap.mpr ⟨_, member, List.mem_cons_self⟩)
      | guarded member =>
          rcases List.mem_cons.mp member with rfl | member
          · exact guarded readable.2.2.1 _ (List.mem_singleton_self _)
          · exact chained _ (List.mem_flatMap.mpr
              ⟨_, member, List.mem_cons_of_mem _ (List.mem_singleton_self _)⟩)
      | otherwise => exact last readable.2.2.2.2 _ (List.mem_singleton_self _)
  | loop allowed first _ last _ initial test step body =>
      simp only [List.forall_mem_append, List.forall_mem_cons] at readable
      refine List.forall_mem_singleton.mpr (.of_parts
        ⟨List.forall_mem_singleton.mpr allowed, ⟨first.isHeaderPart, last.isHeaderPart⟩, nofun⟩ ?_)
      intro part isPart
      cases isPart with
      | initial => exact initial readable.2.1 _ (List.mem_singleton_self _)
      | turns =>
          refine .of_parts ⟨nofun, trivial, nofun⟩ ?_
          intro part isPart
          cases isPart with
          | turnCondition => exact test readable.2.2.2.1 _ (List.mem_singleton_self _)
          | turnBody => exact body readable.2.2.2.2.2.2 _ (List.mem_singleton_self _)
          | turnStep => exact step readable.2.2.2.2.2.1 _ (List.mem_singleton_self _)
  | declare name parameters allowed _ body =>
      simp only [List.forall_mem_append, List.forall_mem_cons] at readable
      refine List.forall_mem_singleton.mpr
        (.of_parts ⟨List.forall_mem_singleton.mpr allowed, trivial, ?_⟩ ?_)
      · rintro spelled (rfl | member)
        · exact readable.2.1
        · exact readable.2.2.2.1 _ (identifier_mem_nameTokens member)
      · intro part isPart
        cases isPart with
        | declared => exact body readable.2.2.2.2.2 _ (List.mem_singleton_self _)
  | giveBack allowed returned =>
      rw [List.forall_mem_cons] at readable
      refine List.forall_mem_singleton.mpr
        (.of_parts ⟨List.forall_mem_singleton.mpr allowed, trivial, nofun⟩ ?_)
      intro part isPart
      cases isPart with
      | returned => exact returned.wellFormed readable.2 _ (List.mem_singleton_self _)
  | ofBare _ _ bare =>
      rw [List.forall_mem_append] at readable
      exact bare readable.1
  | nextStatement found _ first rest =>
      rw [List.forall_mem_append] at readable
      have others := rest readable.2 _ (List.mem_singleton_self _)
      have ⟨_, noSkip, _⟩ := others _ .refl
      refine List.forall_mem_singleton.mpr
        (.of_parts ⟨nofun, List.not_mem_cons_of_ne_of_not_mem found.ne_skip.symm noSkip, nofun⟩ ?_)
      intro part isPart
      cases isPart with
      | statement member =>
          rcases List.mem_cons.mp member with rfl | member
          · exact first readable.1 _ (List.mem_singleton_self _)
          · exact others.part (.statement member)
  | braces _ _ _ inner =>
      simp only [List.forall_mem_append, List.forall_mem_cons] at readable
      exact inner readable.2.2.1

end StatementForm

/-- Every node of an accepted program is well formed. -/
theorem wellFormed_of_parse {source : String} {body : Block}
    (parsed : parse features source = .ok body) :
    (Node.block body).Everywhere (Node.WellFormed features) := by
  obtain ⟨⟨opening, tokens, _, derived, kinds⟩, _⟩ := derivedFrom_of_parse parsed
  have readable : ∀ kind ∈ tokens, kind.Readable features := by
    intro kind member
    apply readable_of_mem_scanAll
    rw [kinds]
    exact List.mem_append_right _ (List.mem_append_left _ member)
  exact derived.wellFormed readable _ (List.mem_singleton_self _)

end Scriptlet
