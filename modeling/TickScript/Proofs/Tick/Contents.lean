import TickScript.Proofs.Machine.Contents
import TickScript.Proofs.Machine.Memory
import TickScript.Proofs.Tick.Accounts
import TickScript.Proofs.Tick.Bounds

/-!
# What values and cells are like in every run

The functions of the library make nothing that a program could not make itself (`Builtin.Respects`). So a
norm that a program allows is kept to in all its turns (`Unfolds.kept`), and other functions of the host may
be called too if they suit the norm (`Builtin.Suits`).

Before a step the memory in use is within its limit, and a call takes none. So the limit holds whenever a
function of the host starts (`Machine.used_of_request`).
-/

namespace TickScript

variable {κ : Type}

/-! ## Functions of the library -/

namespace Builtin

/-- What the function gives back and leaves in the heap keeps to a norm if everything did before. -/
def Suits (b : Builtin κ) (n : Norm) (image : Image) (shapes : List (List String)) (limits : Limits) :
    Prop :=
  ∀ (args : List Value) (m : Machine) (c : κ), n.Throughout image shapes limits args m →
    n.Holds ⟨(b.run args m c).heap, given (b.run args m c).result⟩

/-- What the function gives back and leaves in the heap keeps to every norm that the program allows. -/
def Respects (b : Builtin κ) : Prop :=
  ∀ (n : Norm) (image : Image) (shapes : List (List String)) (limits : Limits),
    n.Allows image shapes limits → b.Suits n image shapes limits

/-- What a builtin gives is one value, or none where it is refused. -/
theorem given_forall {p : Value → Prop} {result : Except Fault Value} :
    (∀ v ∈ given result, p v) ↔ ∀ v, result = .ok v → p v := by
  cases result with
  | error f => simp [given]
  | ok v => simp [given]

/-- A builtin that only calculates respects every norm. -/
theorem Calculates.respects {b : Builtin κ} (h : b.Calculates) : b.Respects := by
  intro n image shapes limits ha args m c hm
  obtain ⟨result, hreply, hnumber⟩ := h args m c
  rw [hreply]
  refine hm.heap.of_roots ?_
  exact given_forall.2 fun v hv => .inr (ha.number (hnumber v hv))

theorem respects_print : (print : Builtin κ).Respects := by
  intro n image shapes limits ha args m c hm
  unfold print
  dsimp only
  split
  · exact hm.heap.of_roots fun v hv => .inr (List.mem_singleton.1 hv ▸ ha.null)
  · exact hm.heap

theorem respects_string : (string : Builtin κ).Respects := by
  intro n image shapes limits ha args m c hm
  unfold string
  dsimp only
  split
  · refine (hm.heap.retain _).of_roots fun v hv => .inr ?_
    exact List.mem_singleton.1 hv ▸ hm.lent _ List.mem_cons_self
  · refine (hm.heap.alloc (ha.text 0 _).2 (List.forall_mem_nil _)).of_roots fun v hv => .inr ?_
    exact List.mem_singleton.1 hv ▸ (ha.text _ _).1
  · exact hm.heap

theorem respects_concat : (concat : Builtin κ).Respects := by
  intro n image shapes limits ha args m c hm
  unfold concat
  dsimp only
  split
  · split
    · refine (hm.heap.alloc (ha.text 0 _).2 (List.forall_mem_nil _)).of_roots fun v hv => .inr ?_
      exact List.mem_singleton.1 hv ▸ (ha.text _ _).1
    · exact hm.heap
  · exact hm.heap

/-- All builtins of the standard module respect every norm. -/
theorem respects_standard {b : Builtin κ} (h : b ∈ (Module.standard : Module κ).builtins) :
    b.Respects := by
  rcases calculates_standard h with hc | rfl | rfl | rfl
  · exact hc.respects
  · exact respects_print
  · exact respects_string
  · exact respects_concat

/-- Counting a reference changes nothing that cells hold. -/
theorem body?_retain (h : Heap) (v : Value) (r : Ref) : (h.retain v).body? r = h.body? r := by
  unfold Heap.retain
  split
  · next r' _ =>
    have hsame (c : Cell) :
        (if c.ref == r' then { c with count := c.count + 1 } else c).ref = c.ref ∧
          (if c.ref == r' then { c with count := c.count + 1 } else c).body = c.body := by
      split <;> exact ⟨rfl, rfl⟩
    simp only [Heap.body?, Heap.cell?, Heap.retainCell, Heap.modify, List.find?_map, Function.comp_def,
      hsame, Option.map_map]
  · rfl

/-- Pushing adds a value that it was given. -/
theorem respects_push : (push : Builtin κ).Respects := by
  intro n image shapes limits ha args m c hm
  unfold push
  dsimp only
  split
  · next r v =>
    split
    · exact hm.heap
    · next hroom =>
      have hv : n.value v := hm.lent v (by simp)
      have hretained := hm.heap.retain v
      have hnull : ∀ w ∈ given (.ok .null), w ∈ [] ∨ n.value w := given_forall.2 fun w hw => by
        cases hw
        exact .inr ha.null
      refine Norm.Holds.of_roots ?_ hnull
      unfold Heap.pushItem
      split
      · next capacity items hb =>
        have hitems : m.heap.items r = items := by
          unfold Heap.items
          rw [← body?_retain m.heap v, hb]
        have hlength : items.length < limits.arraySize := by
          rw [hitems, hm.program.2.2] at hroom
          exact Nat.lt_of_not_le hroom
        refine hretained.setBody (ha.push capacity items v (hretained.body hb) hlength) ?_
        intro w hw
        rcases List.mem_append.1 hw with hw | hw
        · exact hretained.held (Heap.mem_held hb hw)
        · exact List.mem_singleton.1 hw ▸ hv
      · exact hretained
  · exact hm.heap
  · exact hm.heap

/-- Popping gives a value that was in the array. -/
theorem respects_pop : (pop : Builtin κ).Respects := by
  intro n image shapes limits ha args m c hm
  unfold pop
  dsimp only
  split
  · next r =>
    have hnull : n.Holds ⟨m.heap, [.null]⟩ :=
      hm.heap.of_roots fun w hw => .inr (List.mem_singleton.1 hw ▸ ha.null)
    unfold Heap.popItem
    split
    · next capacity items hb =>
      split
      · next v hlast =>
        have hmem : v ∈ items := List.mem_of_getLast? hlast
        have hv : n.value v := hm.heap.held (Heap.mem_held hb hmem)
        refine Norm.Holds.of_roots (hm.heap.setBody (ha.pop capacity items (hm.heap.body hb)) ?_) ?_
        · intro w hw
          exact hm.heap.held (Heap.mem_held hb (List.mem_of_mem_dropLast hw))
        · intro w hw
          exact .inr (List.mem_singleton.1 hw ▸ hv)
      · exact hnull
    · exact hnull
  · exact hm.heap
  · exact hm.heap

/-- An array has as many elements as the limit allows, and these are values it was given. -/
theorem respects_array : (array : Builtin κ).Respects := by
  intro n image shapes limits ha args m c hm
  unfold array
  dsimp only
  split
  · next k v =>
    split
    · exact hm.heap
    · next hroom =>
      have hlength : (List.replicate k.toInt.toNat v).length ≤ limits.arraySize := by
        simp only [Bool.or_eq_true, decide_eq_true_eq, not_or, hm.program.2.2] at hroom
        rw [List.length_replicate]
        exact Nat.le_of_not_lt hroom.2
      have hitems : ∀ w ∈ List.replicate k.toInt.toNat v, n.value w := by
        intro w hw
        rw [List.eq_of_mem_replicate hw]
        exact hm.lent v (by simp)
      refine Norm.Holds.of_roots ((hm.heap.retainAll _).alloc (ha.arrayBody _ hlength) hitems) ?_
      intro w hw
      exact .inr (List.mem_singleton.1 hw ▸ ha.array _)
  · exact hm.heap
  · exact hm.heap

/-- All builtins of the memory module respect every norm. -/
theorem respects_memory {b : Builtin κ} (h : b ∈ (Module.memory : Module κ).builtins) : b.Respects := by
  rcases calculates_memory h with hc | rfl | rfl | rfl
  · exact hc.respects
  · exact respects_push
  · exact respects_pop
  · exact respects_array

theorem respects_floatingPoint {b : Builtin κ}
    (h : b ∈ (Module.floatingPoint : Module κ).builtins) : b.Respects :=
  (calculates_floatingPoint h).respects

end Builtin

/-- The builtins of the library keep the books and respect every norm. -/
theorem library_ofModules {modules : List (Module κ)}
    (hmodules : ∀ module ∈ modules, module ∈ [Module.standard, Module.memory, Module.floatingPoint])
    {b : Builtin κ} (hb : b ∈ (Registry.ofModules modules).builtins) : b.Tidy ∧ b.Respects := by
  have hall : ∀ b ∈ (Registry.ofModules modules).builtins, b.Tidy ∧ b.Respects :=
    Registry.forall_ofModules
      (fun _ hb => ⟨Builtin.tidy_standard hb, Builtin.respects_standard hb⟩)
      (fun _ hb => ⟨Builtin.tidy_memory hb, Builtin.respects_memory hb⟩)
      (fun _ hb => ⟨Builtin.tidy_floatingPoint hb, Builtin.respects_floatingPoint hb⟩)
      (fun module hm => .inl (hmodules module hm))
  exact hall b hb

/-! ## Turns -/

section Turns

variable {n : Norm} {image : Image} {shapes : List (List String)} {limits : Limits}

/-- Where the answer of a builtin meets the norm, so does all that the machine holds with it. -/
theorem Norm.Throughout.settle {m : Machine} {served : Except Fault Value} {ws : List Value}
    (h : n.Throughout image shapes limits (Builtin.given served ++ ws) m) :
    n.Throughout image shapes limits ws (m.settle served).2 := by
  obtain ⟨hgiven, hws⟩ := List.forall_mem_append.1 h.lent
  cases served with
  | ok v =>
    have hm : n.Throughout image shapes limits ws m :=
      ⟨h.program, h.operands, h.locals, h.globals, hws, h.heap⟩
    exact hm.pushResult (hgiven v List.mem_cons_self)
  | error f =>
    simp only [Machine.settle]
    split <;> exact ⟨h.program, h.operands, h.locals, h.globals, hws, h.heap⟩

/-- A builtin that suits the norm leaves a machine that meets it. -/
theorem Norm.Throughout.answer {r : Registry κ}
    (hr : ∀ b ∈ r.builtins, b.Suits n image shapes limits) {m : Machine} {args ws : List Value}
    (h : n.Throughout image shapes limits (args ++ ws) m) (c : κ) (id : UInt32) :
    n.Throughout image shapes limits ws (r.answer m c id args).2.1 := by
  obtain ⟨hargs, hws⟩ := List.forall_mem_append.1 h.lent
  suffices hserved : n.Throughout image shapes limits
      (Builtin.given (r.dispatch m c id args).1 ++ ws) (r.dispatch m c id args).2.1 from hserved.settle
  cases hb : r.meant? m.image id with
  | none =>
    unfold Registry.dispatch
    rw [hb]
    exact ⟨h.program, h.operands, h.locals, h.globals, hws, h.heap.release args⟩
  | some b =>
    have hrun := hr b (Registry.mem_of_meant? hb) args m c
      ⟨h.program, h.operands, h.locals, h.globals, hargs, h.heap⟩
    rw [Registry.dispatch_of_meant hb]
    unfold Builtin.serve
    generalize b.run args m c = reply at hrun ⊢
    obtain ⟨result, heap, log, context⟩ := reply
    have hheap : n.Holds ⟨heap.release args, []⟩ :=
      (hrun.of_roots (List.forall_mem_nil _)).release args
    have hlent : ∀ v ∈ Builtin.given result ++ ws, n.value v :=
      List.forall_mem_append.2 ⟨fun v hv => hrun.root hv, hws⟩
    exact ⟨h.program, h.operands, h.locals, h.globals, hlent, hheap⟩

/-- The books are exact, and everything keeps to the norm. -/
structure Norm.Kept (n : Norm) (image : Image) (shapes : List (List String)) (limits : Limits)
    (ws : List Value) (m : Machine) : Prop where
  exact : (m.books ws).Exact
  throughout : n.Throughout image shapes limits ws m

/-- A step keeps the norm, for the arguments it hands out as well. -/
theorem Norm.Kept.step (ha : n.Allows image shapes limits) {m m' : Machine} {status : Status}
    {ws : List Value} (h : n.Kept image shapes limits ws m) (hs : m.step = (m', status)) :
    n.Kept image shapes limits (status.args ++ ws) m' := by
  have hexact := h.exact.reckons m.reckons_step
  have hkeeps := Norm.keeps_step ha h.exact h.throughout
  rw [Norm.Keeps, hs] at hkeeps
  rw [hs] at hexact
  exact ⟨hexact, hkeeps⟩

/-- An answer to a request keeps the norm. -/
theorem Norm.Kept.answer {r : Registry κ} (hr : ∀ b ∈ r.builtins, b.Tidy ∧ b.Suits n image shapes limits) {m : Machine}
    {args ws : List Value} (h : n.Kept image shapes limits (args ++ ws) m) (c : κ) (id : UInt32) :
    n.Kept image shapes limits ws (r.answer m c id args).2.1 := by
  obtain ⟨hexact, hthroughout⟩ := h
  exact ⟨hexact.reckons (Registry.reckons_answer (fun b hb => (hr b hb).1) m c id args),
    hthroughout.answer (fun b hb => (hr b hb).2) c id⟩

/-- **A turn keeps to every norm that its program allows**, step by step and call by call. -/
theorem Unfolds.kept {r : Registry κ} (hr : ∀ b ∈ r.builtins, b.Tidy ∧ b.Suits n image shapes limits)
    (ha : n.Allows image shapes limits) {m m' : Machine} {c c' : κ} {made : List (Executed κ)}
    {outcome : Outcome} {ws : List Value} (hu : Unfolds r.answer m c made outcome m' c')
    (h : n.Kept image shapes limits ws m) : n.Kept image shapes limits ws m' := by
  induction hu with
  | goes step _ ih => exact ih (h.step ha step)
  | @answered m m₁ m₂ m' c c₂ c' id args u made outcome step reply _ ih =>
    have hstep : n.Kept image shapes limits (args ++ ws) m₁ := h.step ha step
    have hanswer := hstep.answer hr c id
    rw [reply] at hanswer
    exact ih hanswer
  | @refused m m₁ m' c c' id args f step reply =>
    have hstep : n.Kept image shapes limits (args ++ ws) m₁ := h.step ha step
    have hanswer := hstep.answer hr c id
    rw [reply] at hanswer
    exact hanswer
  | @ends m m' c status outcome step last =>
    have hstep := h.step ha step
    have hnone : status.args = [] := by
      cases status with
      | request id args => exact nomatch last
      | _ => rfl
    rw [hnone] at hstep
    exact hstep

/-- A turn gives up nothing but the log. -/
theorem Registry.kept_runTick {r : Registry κ} (hr : ∀ b ∈ r.builtins, b.Tidy ∧ b.Suits n image shapes limits)
    (ha : n.Allows image shapes limits) {m : Machine} {ws : List Value}
    (h : n.Kept image shapes limits ws m) (c : κ) : n.Kept image shapes limits ws (r.runTick m c).2.1 := by
  have hstart : n.Kept image shapes limits ws m.startTick := by
    obtain ⟨hexact, hp, ho, hl, hg, hw, hh⟩ := h
    exact ⟨hexact, hp, ho, hl, hg, hw, hh⟩
  obtain ⟨hexact, hp, ho, hl, hg, hw, hh⟩ := (r.unfolds_drive m.startTick c).kept hr ha hstart
  rw [runTick_eq]
  exact ⟨hexact, hp, ho, hl, hg, hw, hh⟩

/-- A machine at its start keeps the norm. -/
theorem Norm.kept_start (ha : n.Allows image shapes limits) :
    n.Kept image shapes limits [] (.start image shapes limits) := by
  obtain ⟨entries, hmoves⟩ := exists_moves_start image shapes limits
  exact ⟨exact_empty.moves hmoves, Norm.throughout_start ha⟩

end Turns

/-! ## The memory in use at a call -/

namespace Machine

/-- A machine that asks its host has room for a step, and a call of the host is next. -/
theorem callBuiltin_of_request {m m' : Machine} {id : UInt32} {args : List Value}
    (h : m.step = (m', .request id args)) :
    m.Executes ∧ ∃ f frames rest, m.frames = f :: frames ∧ f.rest = .callBuiltin id :: rest ∧
      callBuiltin { m with spent := m.spent + 1, frames := { f with rest } :: frames } id =
        (m', .request id args) := by
  cases m.stepCase with
  | complete _ hs | faulted _ _ hs | unanswered _ hs | unpaid _ _ hs | overfull _ _ _ hs =>
    cases h.symm.trans hs
  | made hp hb hu hs =>
    refine ⟨m.executes_iff.2 ⟨hp, hb, hu⟩, ?_⟩
    have hx := hs.symm.trans h
    rcases comes_or_asks { m with spent := m.spent + 1 } with hc | ha
    · rw [hx] at hc
      cases hc
    · rw [hx] at ha
      cases ha with
      | intro hm hr hdeclared htaken =>
        refine ⟨_, _, _, hm, hr, ?_⟩
        simp only [callBuiltin, hdeclared, htaken]

/-- A call of the host leaves the heap as it was, within the limit. -/
theorem used_of_request {m m' : Machine} {id : UInt32} {args : List Value}
    (h : m.step = (m', .request id args)) : m'.heap.used ≤ m'.limits.memory := by
  obtain ⟨hlimits, -, -⟩ := spent_lt_step h (.inr ⟨id, args, rfl⟩)
  obtain ⟨hexecutes, f, frames, rest, -, -, hcall⟩ := callBuiltin_of_request h
  have hused := (grows_callBuiltin
    { m with spent := m.spent + 1, frames := { f with rest } :: frames } id).1
  rw [hcall] at hused
  rw [hlimits]
  exact hused.trans ((Nat.le_add_right _ _).trans (m.executes_iff.1 hexecutes).2.2)

end Machine

end TickScript
