import TickScript.Proofs.Builtin.Conduct
import TickScript.Proofs.Heap.Handling
import TickScript.Proofs.Success
import TickScript.Proofs.Value.Operators

/-!
# Functions that keep no references

A function of the host is lent its arguments, and the values of the globals, which it may look up by name.
It is tidy when it only handles what it was lent: what it keeps of that in the heap it has copied, and in the
end it holds what it was lent and its result and nothing else (`Builtin.Tidy`). The functions of the library are tidy. Most of them only calculate: they
change nothing and give back numbers (`Builtin.Calculates`).
-/

namespace TickScript

variable {κ : Type}

/-- What is done with a heap, one thing after the other, keeps the books of all who hold references. -/
theorem Handles.reckons_path {s s' : Books} (h : Relation.ReflTransGen Handles s s') (ws : List Value) :
    Books.Reckons ⟨s.heap, s.roots ++ ws⟩ ⟨s'.heap, s'.roots ++ ws⟩ := by
  induction h with
  | refl => exact .refl _
  | tail _ hlast ih => exact ih.trans (hlast.reckons ws)

namespace Builtin

/-! ## Functions that only calculate -/

/-- The function changes nothing, and gives back numbers only. -/
def Calculates (b : Builtin κ) : Prop :=
  ∀ (args : List Value) (m : Machine) (c : κ), ∃ result, b.run args m c = m.reply result c ∧
    ∀ v, result = .ok v → v.isNumber

/-- A function that changes nothing calculates if its results are numbers. -/
theorem calculates_ofResult {called : String} {arity cost : UInt32}
    {result : Machine → List Value → Except Fault Value}
    (h : ∀ m args v, result m args = .ok v → v.isNumber) :
    (ofResult called arity cost result : Builtin κ).Calculates :=
  fun args m _ => ⟨result m args, rfl, h m args⟩

/-- What is picked of two numbers is a number. -/
theorem isNumber_pick {first : Float → Float → Bool} {m : Machine} {args : List Value} {v : Value}
    (h : pick first m args = .ok v) : v.isNumber := by
  unfold pick at h
  split at h <;> cases h <;> rfl

/-- The functions that every processor has calculate, but for those on texts. -/
theorem calculates_standard {b : Builtin κ} (h : b ∈ (Module.standard : Module κ).builtins) :
    b.Calculates ∨ b = print ∨ b = string ∨ b = concat := by
  simp only [Module.standard, List.mem_cons, List.not_mem_nil, or_false] at h
  rcases h with rfl | rfl | rfl | rfl | rfl | rfl | rfl | rfl | rfl
  · exact .inr (.inl rfl)
  · refine .inl (calculates_ofResult ?_)
    intro m args v hv
    split at hv <;> cases hv
  · exact .inr (.inr (.inl rfl))
  · exact .inr (.inr (.inr rfl))
  · refine .inl (calculates_ofResult ?_)
    intro m args v hv
    split at hv <;> cases hv <;> rfl
  · refine .inl (calculates_ofResult ?_)
    intro m args v hv
    split at hv <;> cases hv <;> rfl
  · exact .inl (calculates_ofResult fun _ _ _ => isNumber_pick)
  · exact .inl (calculates_ofResult fun _ _ _ => isNumber_pick)
  · refine .inl (calculates_ofResult ?_)
    intro m args v hv
    split at hv <;> cases hv <;> rfl

/-- The functions on arrays calculate, but for those that change one or make one. -/
theorem calculates_memory {b : Builtin κ} (h : b ∈ (Module.memory : Module κ).builtins) :
    b.Calculates ∨ b = push ∨ b = pop ∨ b = array := by
  simp only [Module.memory, List.mem_cons, List.not_mem_nil, or_false] at h
  rcases h with rfl | rfl | rfl | rfl | rfl
  · exact .inr (.inl rfl)
  · exact .inr (.inr (.inl rfl))
  · refine .inl (calculates_ofResult ?_)
    intro m args v hv
    split at hv <;> cases hv
    rfl
  · exact .inr (.inr (.inr rfl))
  · refine .inl (calculates_ofResult ?_)
    intro m args v hv
    cases hv
    rfl

theorem calculates_ofFloat (called : String) (cost : UInt32) (f : Float → Float) :
    (ofFloat called cost f : Builtin κ).Calculates := by
  refine calculates_ofResult ?_
  intro m args v hv
  split at hv
  · next w =>
    cases hw : toFloat m w with
    | error f =>
      rw [hw] at hv
      exact nomatch hv
    | ok x =>
      rw [hw] at hv
      cases hv
      rfl
  · cases hv

theorem calculates_ofFloats (called : String) (cost : UInt32) (f : Float → Float → Float) :
    (ofFloats called cost f : Builtin κ).Calculates := by
  refine calculates_ofResult ?_
  intro m args v hv
  split at hv
  · next w w' =>
    obtain ⟨x, -, hv⟩ := bind_eq_ok.1 hv
    obtain ⟨y, -, hv⟩ := bind_eq_ok.1 hv
    cases hv
    rfl
  · cases hv

theorem calculates_int : (int : Builtin κ).Calculates := by
  refine calculates_ofResult ?_
  intro m args v hv
  split at hv <;> cases hv <;> rfl

/-- The functions on floats calculate. -/
theorem calculates_floatingPoint {b : Builtin κ}
    (h : b ∈ (Module.floatingPoint : Module κ).builtins) : b.Calculates :=
  forall_floatingPoint calculates_ofFloat calculates_ofFloats calculates_int b h

/-! ## Functions that keep no references -/

/-- The references that a function gives back. -/
def given : Except Fault Value → List Value
  | .ok v => [v]
  | .error _ => []

/-- The function handles the references that it was lent, those of its arguments and those of the globals,
and in the end holds them and its result. -/
def Tidy (b : Builtin κ) : Prop :=
  ∀ (args : List Value) (m : Machine) (c : κ),
    Relation.ReflTransGen Handles ⟨m.heap, args ++ m.globals⟩
      ⟨(b.run args m c).heap, given (b.run args m c).result ++ (args ++ m.globals)⟩

/-- A function that changes nothing is tidy if its results are in no cells. -/
theorem tidy_reply {lent : List Value} (m : Machine) (c : κ) {result : Except Fault Value}
    (h : ∀ v, result = .ok v → v.cell? = none) :
    Relation.ReflTransGen Handles ⟨m.heap, lent⟩
      ⟨(m.reply result c).heap, given (m.reply result c).result ++ lent⟩ := by
  cases result with
  | error f => exact .refl
  | ok v => exact .single (.plain v (h v rfl))

/-- A function that changes nothing is tidy if its results are in no cells. -/
theorem tidy_ofResult {called : String} {arity cost : UInt32}
    {result : Machine → List Value → Except Fault Value}
    (h : ∀ m args v, result m args = .ok v → v.cell? = none) :
    (ofResult called arity cost result : Builtin κ).Tidy :=
  fun args m c => tidy_reply m c (h m args)

/-- A function that only calculates takes no reference and gives none back. -/
theorem Calculates.tidy {b : Builtin κ} (h : b.Calculates) : b.Tidy := by
  intro args m c
  obtain ⟨result, hreply, hnumber⟩ := h args m c
  rw [hreply]
  exact tidy_reply m c fun v hv => Value.cell?_of_isNumber (hnumber v hv)

theorem tidy_print : (print : Builtin κ).Tidy := by
  intro args m c
  unfold print
  dsimp only
  split
  · exact .single (.plain .null rfl)
  · exact .refl

/-- A new text is paid for, and a text that is one already is handed back with one more reference. -/
theorem tidy_string : (string : Builtin κ).Tidy := by
  intro args m c
  unfold string
  dsimp only
  split
  · exact .single (.copy List.mem_cons_self)
  · next v _ => exact .single (.build (.text (m.heap.shown displayDepth v)))
  · exact .refl

/-- The new text is paid for, and holds nothing of the two. -/
theorem tidy_concat : (concat : Builtin κ).Tidy := by
  intro args m c
  unfold concat
  dsimp only
  split
  · split
    · next s t _ _ => exact .single (.build (.text (s ++ t)))
    · exact .refl
  · exact .refl

/-- The functions that every processor has keep the accounts in order. -/
theorem tidy_standard {b : Builtin κ} (h : b ∈ (Module.standard : Module κ).builtins) : b.Tidy := by
  rcases calculates_standard h with hc | rfl | rfl | rfl
  · exact hc.tidy
  · exact tidy_print
  · exact tidy_string
  · exact tidy_concat

/-- What is pushed is copied first, since the argument is only lent. -/
theorem tidy_push : (push : Builtin κ).Tidy := by
  intro args m c
  unfold push
  dsimp only
  split
  · next r v =>
    split
    · exact .refl
    · have hcopy : Handles ⟨m.heap, [.array r, v] ++ m.globals⟩
          ⟨m.heap.retain v, v :: ([.array r, v] ++ m.globals)⟩ := .copy (by simp)
      have hpush : Handles ⟨m.heap.retain v, v :: ([.array r, v] ++ m.globals)⟩
          ⟨(m.heap.retain v).pushItem r v, [.array r, v] ++ m.globals⟩ := .push List.mem_cons_self
      exact ((Relation.ReflTransGen.single hcopy).tail hpush).tail (.plain .null rfl)
  · exact .refl
  · exact .refl

/-- The value leaves the array with the reference that the array held. -/
theorem tidy_pop : (pop : Builtin κ).Tidy := by
  intro args m c
  unfold pop
  dsimp only
  split
  · next r =>
    cases hp : m.heap.popItem r with
    | mk popped heap =>
      cases popped with
      | some v => exact .single (.pop List.mem_cons_self hp)
      | none =>
        cases Books.popItem_eq_none hp
        exact .single (.plain .null rfl)
  · exact .refl
  · exact .refl

/-- A value is copied for each item of an array. -/
theorem handles_retainAll {h : Heap} {vs : List Value} {v : Value} (hv : v ∈ vs) (n : Nat) :
    Relation.ReflTransGen Handles ⟨h, vs⟩
      ⟨h.retainAll (List.replicate n v), List.replicate n v ++ vs⟩ := by
  induction n with
  | zero => exact .refl
  | succ n ih =>
    rw [List.replicate_succ', Heap.retainAll, List.foldl_append]
    have hcopy := Handles.copy (h := h.retainAll (List.replicate n v))
      (List.mem_append_right (List.replicate n v) hv)
    rw [← List.replicate_succ', List.replicate_succ]
    exact ih.tail hcopy

/-- A new array holds a reference for each of its elements. -/
theorem tidy_array : (array : Builtin κ).Tidy := by
  intro args m c
  unfold array
  dsimp only
  split
  · next n v =>
    split
    · exact .refl
    · exact (handles_retainAll (by simp) _).tail (.array _)
  · exact .refl
  · exact .refl

/-- The functions on arrays and on memory keep the accounts in order. -/
theorem tidy_memory {b : Builtin κ} (h : b ∈ (Module.memory : Module κ).builtins) : b.Tidy := by
  rcases calculates_memory h with hc | rfl | rfl | rfl
  · exact hc.tidy
  · exact tidy_push
  · exact tidy_pop
  · exact tidy_array

/-- The functions on floats keep the accounts in order. -/
theorem tidy_floatingPoint {b : Builtin κ} (h : b ∈ (Module.floatingPoint : Module κ).builtins) :
    b.Tidy :=
  (calculates_floatingPoint h).tidy

end Builtin

end TickScript
