import Mathlib.Data.List.Forall2

/-!
# When a computation succeeds

Reading and lowering are chains of computations that may fail. A chain gives a result exactly if each of
its links does (`bind_eq_ok`), and two chains are compared link by link (`Carries`).
-/

namespace TickScript

/-- Two steps in a row succeed when the first does, and the second on its result. -/
theorem bind_eq_ok {ε α β : Type} {x : Except ε α} {f : α → Except ε β} {b : β} :
    (x >>= f) = .ok b ↔ ∃ a, x = .ok a ∧ f a = .ok b := by
  cases x with
  | error e =>
    constructor
    · intro h
      exact nomatch h
    · rintro ⟨a, h, -⟩
      exact nomatch h
  | ok a =>
    constructor
    · intro h
      exact ⟨a, rfl, h⟩
    · rintro ⟨a', h, h'⟩
      cases h
      exact h'

theorem pure_eq_ok {ε α : Type} {a b : α} : (pure a : Except ε α) = .ok b ↔ a = b := by
  constructor
  · exact fun h => Except.ok.inj h
  · exact fun h => congrArg Except.ok h

/-- Where a step succeeds for every item, the results belong to the items in their order. -/
theorem mapM_ok_forall₂ {ε α β : Type} {f : α → Except ε β} {as : List α} {bs : List β}
    (h : as.mapM f = .ok bs) : List.Forall₂ (fun a b => f a = .ok b) as bs := by
  induction as generalizing bs with
  | nil =>
    cases h
    exact .nil
  | cons a as ih =>
    rw [List.mapM_cons] at h
    obtain ⟨b, hb, h⟩ := bind_eq_ok.1 h
    obtain ⟨bs', hbs, h⟩ := bind_eq_ok.1 h
    cases h
    exact .cons hb (ih hbs)

/-- If the first computation succeeds the second one does, and what they give is related. -/
def Carries {ε α β : Type} (R : α → β → Prop) (x : Except ε α) (y : Except ε β) : Prop :=
  ∀ a, x = .ok a → ∃ b, y = .ok b ∧ R a b

namespace Carries

variable {ε α α' β β' : Type} {R : α → α' → Prop} {S : β → β' → Prop} {x : Except ε α}
  {y : Except ε α'} {f : α → Except ε β} {g : α' → Except ε β'}

theorem refl (x : Except ε α) : Carries Eq x x := fun a h => ⟨a, h, rfl⟩

theorem pure {a : α} {b : α'} (h : R a b) :
    Carries R (Pure.pure a : Except ε α) (Pure.pure b : Except ε α') := by
  intro a' ha
  cases pure_eq_ok.1 ha
  exact ⟨b, rfl, h⟩

theorem error (e : ε) : Carries R (.error e) y := fun _ h => nomatch h

/-- Two steps that carry over in a row carry over. -/
theorem bind (h : Carries R x y) (hf : ∀ a b, R a b → Carries S (f a) (g b)) :
    Carries S (x >>= f) (y >>= g) := by
  intro c hc
  obtain ⟨a, ha, hc⟩ := bind_eq_ok.1 hc
  obtain ⟨b, hb, hab⟩ := h a ha
  obtain ⟨d, hd, hcd⟩ := hf a b hab c hc
  exact ⟨d, bind_eq_ok.2 ⟨b, hb, hd⟩, hcd⟩

/-- Links that give the same. -/
theorem bind_of_eq {y : Except ε α} {g : α → Except ε β'} (h : Carries Eq x y)
    (hf : ∀ a, Carries S (f a) (g a)) : Carries S (x >>= f) (y >>= g) := by
  apply h.bind
  rintro a _ rfl
  exact hf a

/-- A step that carries over for every item carries over. -/
theorem mapM {f g : α → Except ε β} (h : ∀ a, Carries Eq (f a) (g a)) (as : List α) :
    Carries Eq (as.mapM f) (as.mapM g) := by
  induction as with
  | nil => exact .refl _
  | cons a as ih =>
    rw [List.mapM_cons, List.mapM_cons]
    exact (h a).bind_of_eq fun b => ih.bind_of_eq fun bs => .refl _

/-- A first link that is carried does not decide what the second chain comes to, be it a failure. -/
theorem bind_eq {c : β} {z : Except ε β'} (h : Carries R x y) (hc : (x >>= f) = .ok c)
    (hf : ∀ a b, R a b → f a = .ok c → g b = z) : (y >>= g) = z := by
  obtain ⟨a, ha, hc⟩ := bind_eq_ok.1 hc
  obtain ⟨b, rfl, hab⟩ := h a ha
  exact hf a b hab hc

end Carries

end TickScript
