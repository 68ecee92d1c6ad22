import TickScript.Feature
import TickScript.Builtin.Memory
import TickScript.Builtin.FloatingPoint

/-!
# Processors

A processor model says what a program may use of the language, which functions its host offers and
what its limits are. A model has a tier, which decides the first two, and a grade. Tier and grade
together decide the limits: a step up in either raises them by one level.
-/

namespace TickScript

/-- The tiers, by what a program may use. -/
inductive Tier where
  | basic
  | extended
  | full
deriving Repr, DecidableEq

/-- The grades within a tier. -/
inductive Grade where
  | low
  | middle
  | high
deriving Repr, DecidableEq

namespace Tier

/-- The number that the names of a tier's models start from. -/
def series : Tier → Nat
  | basic => 1000
  | extended => 2000
  | full => 3000

/-- The steps of a tier above the lowest. -/
def rank : Tier → Nat
  | basic => 0
  | extended => 1
  | full => 2

/-- What a program may use of the language. -/
def features : Tier → FeatureSet
  | basic => .empty
  | extended => .ofList [.arrays, .functions]
  | full => .full

/-- The modules that the host offers, in the order they are registered. -/
def modules {κ : Type} : Tier → List (Module κ)
  | basic => [.standard]
  | extended => [.standard, .memory]
  | full => [.standard, .memory, .floatingPoint]

/-- Whether more memory can be attached. -/
def isExtensible (t : Tier) : Bool := t ≠ basic

end Tier

namespace Grade

/-- What the grade adds to the number of a model. -/
def series : Grade → Nat
  | low => 30
  | middle => 50
  | high => 70

/-- The steps of a grade above the lowest. -/
def rank : Grade → Nat
  | low => 0
  | middle => 1
  | high => 2

end Grade

/-- A processor model. -/
structure Model where
  tier : Tier
  grade : Grade
deriving Repr, DecidableEq

namespace Model

/-- All models, tier by tier. -/
def all : List Model :=
  [⟨.basic, .low⟩, ⟨.basic, .middle⟩, ⟨.basic, .high⟩, ⟨.extended, .low⟩, ⟨.extended, .middle⟩,
    ⟨.extended, .high⟩, ⟨.full, .low⟩, ⟨.full, .middle⟩, ⟨.full, .high⟩]

/-- The name of a model. -/
def name (m : Model) : String := s!"bigton-{m.tier.series + m.grade.series}"

/-- The model with a name. -/
def ofName? (s : String) : Option Model := all.find? fun m => m.name == s

/-- The limits of the levels, from the lowest. -/
def limitsOfLevel : Nat → Limits
  | 0 => ⟨1000, 1024, 32, 4⟩
  | 1 => ⟨2000, 1536, 64, 6⟩
  | 2 => ⟨3000, 2048, 128, 8⟩
  | 3 => ⟨4000, 2560, 256, 12⟩
  | _ => ⟨5000, 3072, 512, 16⟩

/-- The limits of a model without attached memory. -/
def limits (m : Model) : Limits := limitsOfLevel (m.tier.rank + m.grade.rank)

end Model

/-- A processor: its model and the memory attached to it. -/
structure Processor where
  model : Model
  extraMemory : Nat
deriving Repr, DecidableEq

namespace Processor

/-- A processor without attached memory. -/
def ofModel (m : Model) : Processor := ⟨m, 0⟩

/-- Attaches memory, which has no effect on a processor that cannot be extended. -/
def attach (p : Processor) (bytes : Nat) : Processor :=
  if p.model.tier.isExtensible then { p with extraMemory := p.extraMemory + bytes } else p

/-- What a program may use of the language. -/
def features (p : Processor) : FeatureSet := p.model.tier.features

/-- The limits of the processor. -/
def limits (p : Processor) : Limits :=
  { p.model.limits with memory := p.model.limits.memory + p.extraMemory }

/-- The functions that the host offers: those of the processor's tier, and those of further modules,
which may replace them. -/
def registry {κ : Type} (p : Processor) (extensions : List (Module κ)) : Registry κ :=
  .ofModules (p.model.tier.modules ++ extensions)

end Processor

end TickScript
