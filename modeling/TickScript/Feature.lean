/-!
# Language features

A processor need not support the whole language. Four parts of it are optional; a script that uses a
part its processor lacks is refused where the part is first used.
-/

namespace TickScript

/-- The optional parts of the language: float literals, object literals and members, array literals
and elements, and functions of the script's own. -/
inductive Feature where
  | floats
  | objects
  | arrays
  | functions
deriving Repr, DecidableEq

namespace Feature

/-- All features in their published order. -/
def all : List Feature := [floats, objects, arrays, functions]

theorem mem_all (f : Feature) : f ∈ all := by cases f <;> decide

/-- The name by which a feature is asked for. -/
def name : Feature → String
  | floats => "fpu"
  | objects => "objects"
  | arrays => "memory"
  | functions => "functions"

/-- The feature of a name. -/
def ofName? (s : String) : Option Feature := all.find? fun f => f.name = s

/-- A feature is found again by its name. -/
theorem ofName?_name (f : Feature) : ofName? f.name = some f := by cases f <;> decide

end Feature

/-- A set of features. -/
structure FeatureSet where
  floats : Bool
  objects : Bool
  arrays : Bool
  functions : Bool
deriving Repr, DecidableEq

namespace FeatureSet

/-- The set without features. -/
def empty : FeatureSet := ⟨false, false, false, false⟩

/-- The set of all features. -/
def full : FeatureSet := ⟨true, true, true, true⟩

/-- Whether a feature is in the set. -/
def contains (s : FeatureSet) : Feature → Bool
  | .floats => s.floats
  | .objects => s.objects
  | .arrays => s.arrays
  | .functions => s.functions

/-- The set with one more feature. -/
def insert (s : FeatureSet) : Feature → FeatureSet
  | .floats => { s with floats := true }
  | .objects => { s with objects := true }
  | .arrays => { s with arrays := true }
  | .functions => { s with functions := true }

/-- The set of the listed features. -/
def ofList (fs : List Feature) : FeatureSet := fs.foldl insert empty

/-- The features of a set in their published order. -/
def toList (s : FeatureSet) : List Feature := Feature.all.filter s.contains

/-- A set that a feature was added to has this feature and those it had. -/
@[simp] theorem contains_insert (s : FeatureSet) (f g : Feature) :
    (s.insert f).contains g = (s.contains g || f == g) := by
  cases f <;> cases g <;> simp [insert, contains]

/-- The features that are listed are those of the set. -/
theorem mem_toList (s : FeatureSet) (f : Feature) : f ∈ s.toList ↔ s.contains f := by
  simp [toList, Feature.mem_all]

end FeatureSet

end TickScript
