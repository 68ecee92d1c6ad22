import Mathlib.Data.List.Basic
import TickScript.Builtin.Memory
import TickScript.Builtin.FloatingPoint

/-!
# The conduct of the host's functions

What a program may rely on when it calls its host is a promise of each function that the host
offers. A promise kept by every function of every module is kept by every function of a registry,
whatever the order in which the modules were registered. The functions of the library keep the
promises stated here.
-/

namespace TickScript

variable {κ : Type}

namespace Registry

/-- What is registered is what was registered before, or the function that was added. -/
theorem mem_insert {r : Registry κ} {b x : Builtin κ} (h : x ∈ (r.insert b).builtins) :
    x = b ∨ x ∈ r.builtins := by
  unfold insert at h
  split at h
  · exact (List.mem_or_eq_of_mem_set h).symm
  · rw [List.mem_append, List.mem_singleton] at h
    exact h.symm

/-- The same for several functions that are added. -/
theorem mem_foldl_insert {bs : List (Builtin κ)} {r : Registry κ} {x : Builtin κ}
    (h : x ∈ (bs.foldl insert r).builtins) : x ∈ bs ∨ x ∈ r.builtins := by
  induction bs generalizing r with
  | nil => exact .inr h
  | cons b bs ih =>
    rcases ih h with hx | hx
    · exact .inl (List.mem_cons_of_mem b hx)
    · rcases mem_insert hx with rfl | hx
      · exact .inl List.mem_cons_self
      · exact .inr hx

/-- The same for the functions of several modules. -/
theorem mem_foldl_addModule {modules : List (Module κ)} {r : Registry κ} {x : Builtin κ}
    (h : x ∈ (modules.foldl addModule r).builtins) :
    (∃ module ∈ modules, x ∈ module.builtins) ∨ x ∈ r.builtins := by
  induction modules generalizing r with
  | nil => exact .inr h
  | cons first modules ih =>
    rcases ih h with ⟨m, hm, hx⟩ | hx
    · exact .inl ⟨m, List.mem_cons_of_mem first hm, hx⟩
    · rcases mem_foldl_insert hx with hx | hx
      · exact .inl ⟨first, List.mem_cons_self, hx⟩
      · exact .inr hx

/-- Every function of a registry belongs to one of the modules it was made of. -/
theorem mem_ofModules {modules : List (Module κ)} {x : Builtin κ}
    (h : x ∈ (ofModules modules).builtins) : ∃ module ∈ modules, x ∈ module.builtins := by
  rcases mem_foldl_addModule h with hx | hx
  · exact hx
  · exact nomatch hx

/-- What holds of every function of the library, and of those of all other modules, holds of every function
of the registry. -/
theorem forall_ofModules {P : Builtin κ → Prop} {modules : List (Module κ)}
    (standard : ∀ b ∈ (Module.standard : Module κ).builtins, P b)
    (memory : ∀ b ∈ (Module.memory : Module κ).builtins, P b)
    (floatingPoint : ∀ b ∈ (Module.floatingPoint : Module κ).builtins, P b)
    (hmodules : ∀ module ∈ modules,
      module ∈ [Module.standard, Module.memory, Module.floatingPoint] ∨ ∀ b ∈ module.builtins, P b) :
    ∀ b ∈ (ofModules modules).builtins, P b := by
  intro b hb
  obtain ⟨module, hm, hb⟩ := mem_ofModules hb
  rcases hmodules module hm with hlib | hall
  · simp only [List.mem_cons, List.not_mem_nil, or_false] at hlib
    rcases hlib with rfl | rfl | rfl
    · exact standard b hb
    · exact memory b hb
    · exact floatingPoint b hb
  · exact hall b hb

/-- The function that a program means is at the number, and has the name that the program knows it by. -/
theorem meant?_eq_some {r : Registry κ} {image : Image} {id : UInt32} {b : Builtin κ} :
    r.meant? image id = some b ↔
      r.builtins[id.toNat]? = some b ∧ image.builtinName? id = some b.name := by
  unfold meant?
  cases r.builtins[id.toNat]? with
  | none => exact ⟨(fun h => nomatch h), (fun h => nomatch h.1)⟩
  | some b' =>
    dsimp only
    constructor
    · intro h
      split at h
      · next hname =>
        cases h
        exact ⟨rfl, hname⟩
      · cases h
    · rintro ⟨⟨⟩, hname⟩
      rw [if_pos hname]

/-- A function that a program means is one of the registry. -/
theorem mem_of_meant? {r : Registry κ} {image : Image} {id : UInt32} {b : Builtin κ}
    (h : r.meant? image id = some b) : b ∈ r.builtins :=
  List.mem_of_getElem? (meant?_eq_some.1 h).1

/-- A call of a function that the program means is served by this function. -/
theorem dispatch_of_meant {r : Registry κ} {m : Machine} {id : UInt32} {b : Builtin κ}
    (h : r.meant? m.image id = some b) (c : κ) (args : List Value) :
    r.dispatch m c id args = b.serve m c args := by
  unfold dispatch
  rw [h]

/-- A function that the program does not mean is not called, and the program fails. -/
theorem dispatch_of_not_meant {r : Registry κ} {m : Machine} {id : UInt32}
    (h : r.meant? m.image id = none) (c : κ) (args : List Value) :
    r.dispatch m c id args =
      (.error (m.faultOf .badBuiltin none), { m with heap := m.heap.release args }, c) := by
  unfold dispatch
  rw [h]

end Registry

/-! ## What a function looks at -/

/-- A machine without a program: so much memory, a heap, and a log. -/
def Machine.vacant (memory : Nat) (heap : Heap) (log : List String) : Machine :=
  { Machine.start ⟨[], [], ⟨[], [], [], []⟩⟩ [] ⟨0, memory, 0, 0⟩ with heap, log }

/-- The machine with another budget, and another count of what is spent of it. -/
def Machine.budgeted (m : Machine) (instructions spent : Nat) : Machine :=
  { m with limits := { m.limits with instructions }, spent }

/-- The fault, as a failure of this machine where it now stands. -/
def Machine.blame (m : Machine) (f : Fault) : Fault := m.faultOf f.cause f.detail

namespace Builtin

/-- The function looks neither at how many instructions a tick has nor at how many are spent. -/
def IgnoresBudget (b : Builtin κ) : Prop :=
  ∀ (args : List Value) (m : Machine) (c : κ) (instructions spent : Nat),
    b.run args (m.budgeted instructions spent) c = b.run args m c

/-- The function neither reads nor removes the lines it finds in the log. How many there are when it
is called depends on where the tick before ended, hence on the budget of instructions. -/
def AddsLines (b : Builtin κ) : Prop :=
  ∀ (args : List Value) (m : Machine) (c : κ),
    b.run args m c = { b.run args { m with log := [] } c with
      log := m.log ++ (b.run args { m with log := [] } c).log }

/-- The function only adds to the log. -/
def KeepsLines (b : Builtin κ) : Prop :=
  ∀ (args : List Value) (m : Machine) (c : κ), m.log <+: (b.run args m c).log

/-- What only adds lines to the log removes none. -/
theorem AddsLines.keepsLines {b : Builtin κ} (h : b.AddsLines) : b.KeepsLines := by
  intro args m c
  rw [h args m c]
  exact List.prefix_append _ _

/-- When the function refuses a call, the fault is one of the machine where it stands, with the calls that
are active. -/
def Blames (b : Builtin κ) : Prop :=
  ∀ (args : List Value) (m : Machine) (c : κ) (f : Fault),
    (b.run args m c).result = .error f → f = m.blame f

/-- Two changes of an error are one. -/
theorem mapError_mapError {ε ε' ε'' α : Type} (f : ε → ε') (g : ε' → ε'') (result : Except ε α) :
    (result.mapError f).mapError g = result.mapError (g ∘ f) := by
  cases result <;> rfl

/-- The function looks at nothing of a machine but its memory and its heap. Where it refuses a call, the
machine fails where it stands, and what it says comes after the lines of the log. -/
def Discreet (b : Builtin κ) : Prop :=
  ∀ (args : List Value) (m : Machine) (c : κ),
    let reply := b.run args (.vacant m.limits.memory m.heap []) c
    b.run args m c = { reply with result := reply.result.mapError m.blame, log := m.log ++ reply.log }

/-- Nothing of a machine but the limit of its memory, its heap and its log decides what the function comes to,
other than the place of a failure. -/
def Detached (b : Builtin κ) : Prop :=
  ∀ (args : List Value) (m : Machine) (c : κ),
    let reply := b.run args m c
    let apart := b.run args (.vacant m.limits.memory m.heap m.log) c
    reply.result.mapError (fun f => (f.cause, f.detail)) =
        apart.result.mapError (fun f => (f.cause, f.detail)) ∧
      reply.heap = apart.heap ∧ reply.log = apart.log ∧ reply.context = apart.context

namespace Discreet

variable {b : Builtin κ}

/-- The budget is nothing that a discreet function looks at. -/
theorem ignoresBudget (h : b.Discreet) : b.IgnoresBudget := by
  intro args m c instructions spent
  rw [h args m c, h args (m.budgeted instructions spent) c]
  rfl

/-- Nor are the lines of the log. -/
theorem addsLines (h : b.Discreet) : b.AddsLines := by
  intro args m c
  rw [h args m c, h args { m with log := [] } c]
  rfl

/-- When a discreet function refuses a call, the machine fails where it stands. -/
theorem blames (h : b.Discreet) : b.Blames := by
  intro args m c f hf
  rw [h args m c] at hf
  generalize b.run args (.vacant m.limits.memory m.heap []) c = reply at hf
  obtain ⟨result, heap, log, context⟩ := reply
  cases result with
  | error f' =>
    cases hf
    rfl
  | ok v => exact nomatch hf

/-- A discreet function needs no machine for what it comes to, except for the place of a failure. -/
theorem detached (h : b.Discreet) : b.Detached := by
  intro args m c
  have hvacant := h args (.vacant m.limits.memory m.heap m.log) c
  rw [h args m c, hvacant]
  refine ⟨?_, rfl, rfl, rfl⟩
  have hsame (n : Machine) : (fun f => (f.cause, f.detail)) ∘ n.blame = fun f => (f.cause, f.detail) := rfl
  dsimp only
  rw [mapError_mapError, mapError_mapError, hsame, hsame]
  rfl

end Discreet

/-- A function that says nothing adds nothing to the log. -/
theorem reply_silent (result : Except Fault Value) (heap : Heap) (log : List String) (c : κ) :
    (⟨result, heap, log, c⟩ : Reply κ) = ⟨result, heap, log ++ [], c⟩ := by
  rw [List.append_nil]

/-- A function that changes nothing is discreet if its result is. -/
theorem discreet_ofResult {called : String} {arity cost : UInt32}
    {result : Machine → List Value → Except Fault Value}
    (h : ∀ m args, result m args =
      (result (.vacant m.limits.memory m.heap []) args).mapError m.blame) :
    (ofResult called arity cost result : Builtin κ).Discreet := by
  intro args m c
  simp only [ofResult, Machine.reply, h m args]
  exact reply_silent _ _ _ _

theorem discreet_print : (print : Builtin κ).Discreet := by
  intro args m c
  unfold print
  dsimp only
  split
  · rfl
  · exact reply_silent _ _ _ _

theorem discreet_string : (string : Builtin κ).Discreet := by
  intro args m c
  unfold string
  dsimp only
  split <;> exact reply_silent _ _ _ _

theorem discreet_concat : (concat : Builtin κ).Discreet := by
  intro args m c
  unfold concat
  dsimp only
  split
  · split <;> exact reply_silent _ _ _ _
  · exact reply_silent _ _ _ _

/-- Whether the first of two numbers is taken is a question of the numbers only. -/
theorem pick_discreet (first : Float → Float → Bool) (m : Machine) (args : List Value) :
    pick first m args =
      (pick first (.vacant m.limits.memory m.heap []) args).mapError m.blame := by
  unfold pick
  split <;> rfl

/-- The functions that every processor has are discreet. -/
theorem discreet_standard {b : Builtin κ} (h : b ∈ (Module.standard : Module κ).builtins) :
    b.Discreet := by
  simp only [Module.standard, List.mem_cons, List.not_mem_nil, or_false] at h
  rcases h with rfl | rfl | rfl | rfl | rfl | rfl | rfl | rfl | rfl
  · exact discreet_print
  · exact discreet_ofResult fun m args => by split <;> rfl
  · exact discreet_string
  · exact discreet_concat
  · exact discreet_ofResult fun m args => by split <;> rfl
  · exact discreet_ofResult fun m args => by split <;> rfl
  · exact discreet_ofResult (pick_discreet _)
  · exact discreet_ofResult (pick_discreet _)
  · exact discreet_ofResult fun m args => by split <;> rfl

theorem discreet_push : (push : Builtin κ).Discreet := by
  intro args m c
  unfold push
  dsimp only
  split
  · have hsize : (Machine.vacant m.limits.memory m.heap []).limits.arraySize = m.limits.arraySize := rfl
    have hheap : (Machine.vacant m.limits.memory m.heap []).heap = m.heap := rfl
    rw [hsize, hheap]
    split <;> exact reply_silent _ _ _ _
  · exact reply_silent _ _ _ _
  · exact reply_silent _ _ _ _

theorem discreet_pop : (pop : Builtin κ).Discreet := by
  intro args m c
  unfold pop
  dsimp only
  split <;> exact reply_silent _ _ _ _

theorem discreet_array : (array : Builtin κ).Discreet := by
  intro args m c
  unfold array
  dsimp only
  split
  · have hsize : (Machine.vacant m.limits.memory m.heap []).limits.arraySize = m.limits.arraySize := rfl
    rw [hsize]
    split <;> exact reply_silent _ _ _ _
  · exact reply_silent _ _ _ _
  · exact reply_silent _ _ _ _

/-- The functions on arrays and on memory are discreet. -/
theorem discreet_memory {b : Builtin κ} (h : b ∈ (Module.memory : Module κ).builtins) : b.Discreet := by
  simp only [Module.memory, List.mem_cons, List.not_mem_nil, or_false] at h
  rcases h with rfl | rfl | rfl | rfl | rfl
  · exact discreet_push
  · exact discreet_pop
  · exact discreet_ofResult fun m args => by split <;> rfl
  · exact discreet_array
  · exact discreet_ofResult fun m args => rfl

/-- The functions on floats are made of functions on one float or two, but for the one that cuts a float
down to an integer. -/
theorem forall_floatingPoint {P : Builtin κ → Prop} (one : ∀ name cost f, P (ofFloat name cost f))
    (two : ∀ name cost f, P (ofFloats name cost f)) (cut : P int) :
    ∀ b ∈ (Module.floatingPoint : Module κ).builtins, P b := by
  simp only [Module.floatingPoint, List.forall_mem_cons, one, two, cut, List.not_mem_nil,
    false_implies, implies_true, and_self]

/-- The functions on floats are discreet. -/
theorem discreet_floatingPoint {b : Builtin κ}
    (h : b ∈ (Module.floatingPoint : Module κ).builtins) : b.Discreet := by
  refine forall_floatingPoint (fun _ _ f => ?_) (fun _ _ f => ?_) ?_ b h
  · refine discreet_ofResult fun m args => ?_
    split
    · next v => cases v <;> rfl
    · rfl
  · refine discreet_ofResult fun m args => ?_
    split
    · next v w => cases v <;> cases w <;> rfl
    · rfl
  · exact discreet_ofResult fun m args => by split <;> rfl

end Builtin

/-- The functions of the library look at nothing but memory and heap. -/
theorem discreet_ofModules {modules : List (Module κ)}
    (hmodules : ∀ module ∈ modules, module ∈ [Module.standard, Module.memory, Module.floatingPoint])
    {b : Builtin κ} (hb : b ∈ (Registry.ofModules modules).builtins) : b.Discreet :=
  Registry.forall_ofModules (fun _ => Builtin.discreet_standard) (fun _ => Builtin.discreet_memory)
    (fun _ => Builtin.discreet_floatingPoint) (fun module hm => .inl (hmodules module hm)) b hb

/-! ## Functions that answer every call in order -/

/-- Given as many arguments as it takes, the function returns a value or refuses the call for a cause
that is not internal. -/
def Builtin.Answers (b : Builtin κ) : Prop :=
  ∀ (args : List Value) (m : Machine) (c : κ) (f : Fault), args.length = b.arity.toNat →
    (b.run args m c).result = .error f → f.cause.isInternal = false

namespace Builtin

/-- A function of one argument need only answer on each value. -/
theorem answers_of_one {b : Builtin κ} (ha : b.arity = 1)
    (h : ∀ v m c f, (b.run [v] m c).result = .error f → f.cause.isInternal = false) : b.Answers := by
  intro args m c f hl hf
  rw [ha] at hl
  obtain ⟨v, rfl⟩ := List.length_eq_one_iff.1 hl
  exact h v m c f hf

/-- A function of two arguments need only answer on each pair of values. -/
theorem answers_of_two {b : Builtin κ} (ha : b.arity = 2)
    (h : ∀ v w m c f, (b.run [v, w] m c).result = .error f → f.cause.isInternal = false) :
    b.Answers := by
  intro args m c f hl hf
  rw [ha] at hl
  obtain ⟨v, w, rfl⟩ := List.length_eq_two.1 hl
  exact h v w m c f hf

theorem answers_print : (print : Builtin κ).Answers :=
  answers_of_one rfl fun _ _ _ _ h => nomatch h

theorem answers_error : (error : Builtin κ).Answers := by
  refine answers_of_one rfl ?_
  intro v m c f h
  cases h
  rfl

theorem answers_string : (string : Builtin κ).Answers := by
  refine answers_of_one rfl ?_
  intro v m c f h
  cases v <;> exact nomatch h

theorem answers_concat : (concat : Builtin κ).Answers := by
  refine answers_of_two rfl ?_
  intro v w m c f h
  simp only [concat] at h
  split at h
  · exact nomatch h
  · cases h
    rfl

theorem answers_length : (length : Builtin κ).Answers := by
  refine answers_of_one rfl ?_
  intro v m c f h
  cases v <;> cases h <;> rfl

theorem answers_abs : (abs : Builtin κ).Answers := by
  refine answers_of_one rfl ?_
  intro v m c f h
  cases v <;> cases h <;> rfl

/-- Taking one of two numbers answers, whatever decides which. -/
theorem answers_pick {called : String} {cost : UInt32} (first : Float → Float → Bool) :
    (ofResult called 2 cost (pick first) : Builtin κ).Answers := by
  refine answers_of_two rfl ?_
  intro v w m c f h
  simp only [ofResult, pick] at h
  split at h
  · cases h
  · cases h
  · cases h
    rfl
  · next hn => exact absurd rfl (hn v w)

theorem answers_clamp : (clamp : Builtin κ).Answers := by
  intro args m c f hl h
  obtain ⟨u, v, w, rfl⟩ := List.length_eq_three.1 hl
  simp only [clamp, ofResult] at h
  split at h
  · cases h
  · cases h
  · cases h
    rfl
  · next hn => exact absurd rfl (hn u v w)

/-- The functions that every processor has answer. -/
theorem answers_standard {b : Builtin κ} (h : b ∈ (Module.standard : Module κ).builtins) :
    b.Answers := by
  simp only [Module.standard, List.mem_cons, List.not_mem_nil, or_false] at h
  rcases h with rfl | rfl | rfl | rfl | rfl | rfl | rfl | rfl | rfl
  · exact answers_print
  · exact answers_error
  · exact answers_string
  · exact answers_concat
  · exact answers_length
  · exact answers_abs
  · exact answers_pick _
  · exact answers_pick _
  · exact answers_clamp

theorem answers_push : (push : Builtin κ).Answers := by
  refine answers_of_two rfl ?_
  intro v w m c f h
  simp only [push] at h
  split at h
  · split at h <;> cases h
    rfl
  · cases h
    rfl
  · next hn => exact absurd rfl (hn v w)

theorem answers_pop : (pop : Builtin κ).Answers := by
  refine answers_of_one rfl ?_
  intro v m c f h
  cases v <;> cases h <;> rfl

theorem answers_size : (size : Builtin κ).Answers := by
  refine answers_of_one rfl ?_
  intro v m c f h
  cases v <;> cases h <;> rfl

theorem answers_array : (array : Builtin κ).Answers := by
  refine answers_of_two rfl ?_
  intro v w m c f h
  simp only [array] at h
  split at h
  · split at h <;> cases h
    rfl
  · cases h
    rfl
  · next hn => exact absurd rfl (hn v w)

/-- The functions on arrays and on memory answer. -/
theorem answers_memory {b : Builtin κ} (h : b ∈ (Module.memory : Module κ).builtins) :
    b.Answers := by
  simp only [Module.memory, List.mem_cons, List.not_mem_nil, or_false] at h
  rcases h with rfl | rfl | rfl | rfl | rfl
  · exact answers_push
  · exact answers_pop
  · exact answers_size
  · exact answers_array
  · intro args m c f hl h
    exact nomatch h

/-- A value that is no number is refused for a cause that scripts can bring about. -/
theorem isInternal_toFloat {m : Machine} {v : Value} {f : Fault} (h : toFloat m v = .error f) :
    f.cause.isInternal = false := by
  cases v <;> cases h <;> rfl

/-- A function of one float answers, whatever it works out. -/
theorem answers_ofFloat (called : String) (cost : UInt32) (g : Float → Float) :
    (ofFloat called cost g : Builtin κ).Answers := by
  refine answers_of_one rfl ?_
  intro v m c f h
  simp only [ofFloat, ofResult] at h
  cases hv : toFloat m v with
  | error f' =>
    rw [hv] at h
    cases h
    exact isInternal_toFloat hv
  | ok x =>
    rw [hv] at h
    exact nomatch h

/-- So does a function of two floats. -/
theorem answers_ofFloats (called : String) (cost : UInt32) (g : Float → Float → Float) :
    (ofFloats called cost g : Builtin κ).Answers := by
  refine answers_of_two rfl ?_
  intro v w m c f h
  simp only [ofFloats, ofResult] at h
  cases hv : toFloat m v with
  | error f' =>
    rw [hv] at h
    cases h
    exact isInternal_toFloat hv
  | ok x =>
    cases hw : toFloat m w with
    | error f' =>
      rw [hv, hw] at h
      cases h
      exact isInternal_toFloat hw
    | ok y =>
      rw [hv, hw] at h
      exact nomatch h

theorem answers_int : (int : Builtin κ).Answers := by
  refine answers_of_one rfl ?_
  intro v m c f h
  cases v <;> cases h <;> rfl

/-- The functions on floats answer. -/
theorem answers_floatingPoint {b : Builtin κ}
    (h : b ∈ (Module.floatingPoint : Module κ).builtins) : b.Answers :=
  forall_floatingPoint answers_ofFloat answers_ofFloats answers_int b h

end Builtin

end TickScript
