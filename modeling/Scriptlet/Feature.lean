/-!
Contract: the optional capabilities of the language, and sets of them.

Owns:
- the six features, with their names in declaration order;
- sets of features with membership, union, difference and inclusion;
- the display text of a set.

A program is compiled under one fixed set.  Scanning uses it to decide which
keywords and brackets exist, parsing uses it to decide which forms are legal,
and running consults it only for the `rand` variable.
-/

namespace Scriptlet

/-- One optional capability of the language. -/
inductive Feature where
  | conditional
  | elseIf
  | array
  | randomVariable
  | loop
  | function
deriving DecidableEq, Repr

namespace Feature

/-- Every feature, in declaration order. -/
def all : List Feature :=
  [.conditional, .elseIf, .array, .randomVariable, .loop, .function]

@[simp] theorem mem_all (feature : Feature) : feature ∈ all := by
  cases feature <;> decide

/-- The name a feature is written with. -/
def name : Feature → String
  | .conditional => "CONDITIONAL"
  | .elseIf => "ELSE_IF"
  | .array => "ARRAY"
  | .randomVariable => "RANDOM_VAR"
  | .loop => "LOOP"
  | .function => "FUNCTION"

/-- The feature with the given name; names are case-sensitive. -/
def ofName? (name : String) : Option Feature :=
  all.find? fun feature => feature.name == name

@[simp] theorem ofName?_name (feature : Feature) :
    ofName? feature.name = some feature := by
  cases feature <;> decide

end Feature

/-- A set of features, one flag per feature. -/
structure FeatureSet where
  conditional : Bool
  elseIf : Bool
  array : Bool
  randomVariable : Bool
  loop : Bool
  function : Bool
deriving DecidableEq, Repr

namespace FeatureSet

/-- Whether a set has a feature. -/
def has (features : FeatureSet) : Feature → Bool
  | .conditional => features.conditional
  | .elseIf => features.elseIf
  | .array => features.array
  | .randomVariable => features.randomVariable
  | .loop => features.loop
  | .function => features.function

/-- The set of the features that satisfy a test. -/
def ofTest (test : Feature → Bool) : FeatureSet where
  conditional := test .conditional
  elseIf := test .elseIf
  array := test .array
  randomVariable := test .randomVariable
  loop := test .loop
  function := test .function

@[simp] theorem has_ofTest (test : Feature → Bool) (feature : Feature) :
    (ofTest test).has feature = test feature := by
  cases feature <;> rfl

/-- Sets with the same features are equal. -/
@[ext] theorem ext_has {left right : FeatureSet}
    (sameFeatures : ∀ feature, left.has feature = right.has feature) :
    left = right := by
  cases left
  cases right
  simp only [mk.injEq]
  exact ⟨sameFeatures .conditional, sameFeatures .elseIf, sameFeatures .array,
    sameFeatures .randomVariable, sameFeatures .loop, sameFeatures .function⟩

instance : Membership Feature FeatureSet where
  mem features feature := features.has feature = true

instance (feature : Feature) (features : FeatureSet) :
    Decidable (feature ∈ features) :=
  inferInstanceAs (Decidable (features.has feature = true))

theorem mem_def {feature : Feature} {features : FeatureSet} :
    feature ∈ features ↔ features.has feature = true :=
  Iff.rfl

/-- The empty set: assignment and integer arithmetic only. -/
def none : FeatureSet := ofTest fun _ => false

/-- The set of every feature. -/
def all : FeatureSet := ofTest fun _ => true

instance : EmptyCollection FeatureSet := ⟨none⟩

instance : Union FeatureSet where
  union left right := ofTest fun feature => left.has feature || right.has feature

instance : SDiff FeatureSet where
  sdiff left right := ofTest fun feature => left.has feature && !right.has feature

instance : Singleton Feature FeatureSet where
  singleton member := ofTest fun feature => feature == member

instance : HasSubset FeatureSet where
  Subset left right := ∀ feature, feature ∈ left → feature ∈ right

@[simp] theorem not_mem_none (feature : Feature) : feature ∉ none := by
  simp [mem_def, none]

@[simp] theorem mem_fullSet (feature : Feature) : feature ∈ all := by
  simp [mem_def, all]

@[simp] theorem mem_union {feature : Feature} {left right : FeatureSet} :
    feature ∈ left ∪ right ↔ feature ∈ left ∨ feature ∈ right := by
  simp [mem_def, Union.union]

@[simp] theorem mem_sdiff {feature : Feature} {left right : FeatureSet} :
    feature ∈ left \ right ↔ feature ∈ left ∧ feature ∉ right := by
  simp [mem_def, SDiff.sdiff]

@[simp] theorem mem_singleton {feature member : Feature} :
    feature ∈ ({member} : FeatureSet) ↔ feature = member := by
  simp [mem_def, Singleton.singleton]

instance (left right : FeatureSet) : Decidable (left ⊆ right) :=
  decidable_of_iff (∀ feature ∈ Feature.all, feature ∈ left → feature ∈ right)
    ⟨fun included feature => included feature (Feature.mem_all feature),
      fun included feature _ => included feature⟩

/-- The set of the features in a list. -/
def ofList (features : List Feature) : FeatureSet :=
  ofTest features.contains

/-- The features of a set, in declaration order. -/
def toList (features : FeatureSet) : List Feature :=
  Feature.all.filter features.has

@[simp] theorem mem_toList {feature : Feature} {features : FeatureSet} :
    feature ∈ features.toList ↔ feature ∈ features := by
  simp [toList, mem_def]

@[simp] theorem ofList_toList (features : FeatureSet) :
    ofList features.toList = features := by
  apply ext_has
  intro feature
  by_cases member : feature ∈ features
  · have listed := mem_toList.mpr member
    simp [ofList, listed, mem_def.mp member]
  · have notListed : feature ∉ features.toList := fun listed => member (mem_toList.mp listed)
    rw [mem_def, Bool.not_eq_true] at member
    simp [ofList, notListed, member]

/-- Display text of a set: its names in declaration order. -/
def render (features : FeatureSet) : String :=
  "<FeatureSet " ++ ",".intercalate (features.toList.map Feature.name) ++ ">"

end FeatureSet

end Scriptlet
