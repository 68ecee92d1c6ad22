import TickScript.Proofs.Machine.Holdings

/-!
# What values and cells are like

Values move between stacks, variables and cells, and few instructions make new ones. So what every value
and every cell is like follows from what they are like when they are made, and when a cell changes. A norm
says what is asked of them (`Norm`), and is allowed by a program when everything that its instructions
make keeps to it (`Norm.Allows`). Then all that there is keeps to it after every step (`Norm.keeps_step`).
-/

namespace TickScript

/-! ## Norms -/

/-- What is asked of values, and of what cells hold. -/
structure Norm where
  value : Value → Prop
  body : Body → Prop

namespace Norm

/-- All values and all cells keep to the norm. -/
structure Holds (n : Norm) (s : Books) : Prop where
  bodies : ∀ c ∈ s.heap.cells, n.body c.body
  values : ∀ v ∈ s.all, n.value v

/-- What a program makes keeps to the norm, and so do the changes of objects and arrays. -/
structure Allows (n : Norm) (image : Image) (shapes : List (List String)) (limits : Limits) : Prop where
  null : n.value .null
  int : ∀ i, n.value (.int i)
  float : ∀ x, n.value (.float x)
  literal : ∀ id s, image.text? id = some s → n.value (.text none s)
  text : ∀ r s, n.value (.text (some r) s) ∧ n.body (.text s)
  tupleBody : ∀ items, (∀ v ∈ items, n.value v) → n.body (.tuple items)
  tuple : ∀ r items, (∀ v ∈ items, n.value v) → items.length ≤ limits.arraySize →
    Value.flatTotal items ≤ limits.tupleSize → n.value (.tuple r (Value.flatTotal items) items)
  objectBody : ∀ names ∈ shapes, ∀ values, values.length = names.length → n.body (.object names values)
  object : ∀ r, n.value (.object r)
  arrayBody : ∀ items, items.length ≤ limits.arraySize → n.body (.array items.length items)
  array : ∀ r, n.value (.array r)
  setMember : ∀ names values i v, n.body (.object names values) → n.body (.object names (values.set i v))
  setItem : ∀ capacity items i v, n.body (.array capacity items) → n.body (.array capacity (items.set i v))
  push : ∀ capacity items v, n.body (.array capacity items) → items.length < limits.arraySize →
    n.body (.array (if items.length < capacity then capacity else Heap.grownCapacity capacity)
      (items ++ [v]))
  pop : ∀ capacity items, n.body (.array capacity items) → n.body (.array capacity items.dropLast)

/-- Numbers keep to every norm that allows what a program makes. -/
theorem Allows.number {n : Norm} {image : Image} {shapes : List (List String)} {limits : Limits}
    (ha : n.Allows image shapes limits) {v : Value} (hv : v.isNumber) : n.value v := by
  cases v with
  | int i => exact ha.int i
  | float x => exact ha.float x
  | _ => exact nomatch hv

/-! ## The heap -/

namespace Holds

variable {n : Norm} {h : Heap} {vs ws : List Value}

/-- Roots may go and come, as long as those that come keep to the norm. -/
theorem of_roots (hn : n.Holds ⟨h, vs⟩) (hw : ∀ w ∈ ws, w ∈ vs ∨ n.value w) : n.Holds ⟨h, ws⟩ := by
  refine ⟨hn.bodies, fun v hv => ?_⟩
  rcases List.mem_append.1 hv with hv | hv
  · exact (hw v hv).elim (fun hv => hn.values v (List.mem_append_left _ hv)) id
  · exact hn.values v (List.mem_append_right _ hv)

/-- Values that are held from outside keep to the norm. -/
theorem root (hn : n.Holds ⟨h, vs⟩) {v : Value} (hv : v ∈ vs) : n.value v :=
  hn.values v (List.mem_append_left _ hv)

/-- So do those that cells hold. -/
theorem held (hn : n.Holds ⟨h, vs⟩) {v : Value} (hv : v ∈ h.held) : n.value v :=
  hn.values v (List.mem_append_right _ hv)

/-- A heap whose cells hold nothing that was not held before. -/
theorem of_cells {h' : Heap} (hn : n.Holds ⟨h, vs⟩)
    (hc : ∀ c ∈ h'.cells, ∃ d ∈ h.cells, d.body = c.body) : n.Holds ⟨h', vs⟩ := by
  have hheld : ∀ v ∈ h'.held, v ∈ h.held := by
    intro v hv
    obtain ⟨c, hmem, hvc⟩ := List.mem_flatMap.1 hv
    obtain ⟨d, hd, he⟩ := hc c hmem
    exact List.mem_flatMap.2 ⟨d, hd, he ▸ hvc⟩
  constructor
  · intro c hmem
    obtain ⟨d, hd, he⟩ := hc c hmem
    exact he ▸ hn.bodies d hd
  · intro v hv
    rcases List.mem_append.1 hv with hv | hv
    · exact hn.root hv
    · exact hn.held (hheld v hv)

/-- What is left when values are dropped keeps to the norm. -/
theorem release (hn : n.Holds ⟨h, vs⟩) (us : List Value) : n.Holds ⟨h.release us, vs⟩ := by
  refine hn.of_cells fun c hc => ?_
  obtain ⟨d, hd, -, hbody⟩ := Heap.exists_of_mem_release hc
  exact ⟨d, hd, hbody⟩

/-- A further reference changes no value. -/
theorem retain (hn : n.Holds ⟨h, vs⟩) (v : Value) : n.Holds ⟨h.retain v, vs⟩ := by
  unfold Heap.retain
  split
  · refine hn.of_cells fun c hc => ?_
    obtain ⟨d, hd, rfl⟩ := List.mem_map.1 hc
    refine ⟨d, hd, ?_⟩
    split <;> rfl
  · exact hn

/-- Nor do several. -/
theorem retainAll (hn : n.Holds ⟨h, vs⟩) (us : List Value) : n.Holds ⟨h.retainAll us, vs⟩ := by
  induction us generalizing h with
  | nil => exact hn
  | cons u us ih => exact ih (hn.retain u)

/-- A new cell keeps to the norm if its body and the values in it do. -/
theorem alloc {b : Body} (hn : n.Holds ⟨h, vs⟩) (hb : n.body b) (hheld : ∀ v ∈ b.held, n.value v) :
    n.Holds ⟨(h.alloc b).2, vs⟩ := by
  constructor
  · exact List.forall_mem_cons.2 ⟨hb, hn.bodies⟩
  · intro v hv
    simp only [Books.all, Heap.held, Heap.alloc, List.flatMap_cons, List.mem_append] at hv
    rcases hv with hv | hv | hv
    · exact hn.root hv
    · exact hheld v hv
    · exact hn.held hv

/-- A body that is found keeps to the norm. -/
theorem body {r : Ref} {b : Body} (hn : n.Holds ⟨h, vs⟩) (hb : h.body? r = some b) : n.body b := by
  obtain ⟨c, hc, rfl⟩ := Heap.body?_eq_some hb
  exact hn.bodies c (Heap.cell?_eq_some hc).1

/-- A changed body has to keep to the norm as well. -/
theorem setBody {r : Ref} {b : Body} (hn : n.Holds ⟨h, vs⟩) (hb : n.body b)
    (hheld : ∀ v ∈ b.held, n.value v) : n.Holds ⟨h.setBody r b, vs⟩ := by
  unfold Heap.setBody
  split
  · have hcell : ∀ c ∈ (h.modify r fun c => { c with body := b }).cells, c ∈ h.cells ∨ c.body = b := by
      intro c hc
      obtain ⟨d, hd, rfl⟩ := List.mem_map.1 hc
      split
      · exact .inr rfl
      · exact .inl hd
    constructor
    · exact fun c hc => (hcell c hc).elim (hn.bodies c) (fun he => he ▸ hb)
    · intro v hv
      rcases List.mem_append.1 hv with hv | hv
      · exact hn.root hv
      · obtain ⟨c, hc, hvc⟩ := List.mem_flatMap.1 hv
        rcases hcell c hc with hc | he
        · exact hn.held (List.mem_flatMap.2 ⟨c, hc, hvc⟩)
        · exact hheld v (he ▸ hvc)
  · exact hn

end Holds

variable {n : Norm} {image : Image} {shapes : List (List String)} {limits : Limits}

/-- An object keeps to the norm when a member is replaced by a value that does. -/
theorem holds_setMember? (ha : n.Allows image shapes limits) {h h' : Heap} {vs : List Value} {r : Ref}
    {called : String} {v : Value} (hn : n.Holds ⟨h, vs⟩) (hv : n.value v)
    (hs : h.setMember? r called v = some h') : n.Holds ⟨h', vs⟩ := by
  unfold Heap.setMember? at hs
  split at hs
  · next names values hb =>
    split at hs
    · split at hs
      · cases hs
        refine (hn.setBody (ha.setMember _ _ _ _ (hn.body hb)) ?_).release _
        intro w hw
        rcases List.mem_or_eq_of_mem_set hw with hw | rfl
        · exact hn.held (Heap.mem_held hb hw)
        · exact hv
      · cases hs
    · cases hs
  · cases hs

/-- So does an array when an item is replaced. -/
theorem holds_setItem? (ha : n.Allows image shapes limits) {h h' : Heap} {vs : List Value} {r : Ref}
    {i : Nat} {v : Value} (hn : n.Holds ⟨h, vs⟩) (hv : n.value v) (hs : h.setItem? r i v = some h') :
    n.Holds ⟨h', vs⟩ := by
  unfold Heap.setItem? at hs
  split at hs
  · next capacity items hb =>
    split at hs
    · cases hs
      refine (hn.setBody (ha.setItem _ _ _ _ (hn.body hb)) ?_).release _
      intro w hw
      rcases List.mem_or_eq_of_mem_set hw with hw | rfl
      · exact hn.held (Heap.mem_held hb hw)
      · exact hv
    · cases hs
  · cases hs

/-! ## The parts of a machine -/

/-- All that a machine of a program holds keeps to the norm, and so does what its host was lent. -/
structure Throughout (n : Norm) (image : Image) (shapes : List (List String)) (limits : Limits)
    (ws : List Value) (m : Machine) : Prop where
  program : m.image = image ∧ m.shapes = shapes ∧ m.limits = limits
  operands : ∀ v ∈ m.operands, n.value v
  locals : ∀ v ∈ m.locals, n.value v
  globals : ∀ v ∈ m.globals, n.value v
  lent : ∀ v ∈ ws, n.value v
  heap : n.Holds ⟨m.heap, []⟩

/-- What a step comes to keeps to the norm. -/
def Keeps (n : Norm) (image : Image) (shapes : List (List String)) (limits : Limits) (ws : List Value)
    (result : Machine × Status) : Prop :=
  n.Throughout image shapes limits (result.2.args ++ ws) result.1

section Steps

variable {m : Machine} {ws : List Value}

namespace Throughout

/-- Everything that is held keeps to the norm. -/
theorem holds (h : n.Throughout image shapes limits ws m) : n.Holds (m.books ws) := by
  refine h.heap.of_roots fun w hw => .inr ?_
  simp only [List.mem_append] at hw
  rcases hw with hw | hw | hw | hw
  · exact h.operands w hw
  · exact h.locals w hw
  · exact h.globals w hw
  · exact h.lent w hw

/-- A value that is pushed has to keep to the norm. -/
theorem push (h : n.Throughout image shapes limits ws m) {v : Value} (hv : n.value v) :
    n.Throughout image shapes limits ws (m.push v) :=
  ⟨h.program, List.forall_mem_cons.2 ⟨hv, h.operands⟩, h.locals, h.globals, h.lent, h.heap⟩

/-- So has a copy that is pushed. -/
theorem pushCopy (h : n.Throughout image shapes limits ws m) {v : Value} (hv : n.value v) :
    n.Throughout image shapes limits ws (m.pushCopy v) :=
  ⟨h.program, List.forall_mem_cons.2 ⟨hv, h.operands⟩, h.locals, h.globals, h.lent, h.heap.retain v⟩

/-- Operands that were there before, and a heap that gave references back. -/
theorem dropped (h : n.Throughout image shapes limits ws m) {rest : List Value}
    (hr : ∀ v ∈ rest, v ∈ m.operands) (vs : List Value) :
    n.Throughout image shapes limits ws (m.dropped rest vs) :=
  ⟨h.program, fun v hv => h.operands v (hr v hv), h.locals, h.globals, h.lent, h.heap.release vs⟩

/-- A value in the place of operands that it was made of. -/
theorem replaced (h : n.Throughout image shapes limits ws m) {v : Value} {rest : List Value}
    (hv : n.value v) (hr : ∀ w ∈ rest, w ∈ m.operands) (vs : List Value) :
    n.Throughout image shapes limits ws
      { m with operands := v :: rest, heap := (m.heap.retain v).release vs } :=
  ⟨h.program, List.forall_mem_cons.2 ⟨hv, fun w hw => h.operands w (hr w hw)⟩, h.locals, h.globals,
    h.lent, (h.heap.retain v).release vs⟩

/-- A value in the place of operands that its new cell has taken over. -/
theorem made (h : n.Throughout image shapes limits ws m) {v : Value} {rest : List Value} {heap : Heap}
    (hv : n.value v) (hr : ∀ w ∈ rest, w ∈ m.operands) (hh : n.Holds ⟨heap, []⟩) :
    n.Throughout image shapes limits ws { m with operands := v :: rest, heap } :=
  ⟨h.program, List.forall_mem_cons.2 ⟨hv, fun w hw => h.operands w (hr w hw)⟩, h.locals, h.globals,
    h.lent, hh⟩

/-- Dropping locals brings in no value. -/
theorem truncate (h : n.Throughout image shapes limits ws m) (base : Nat) :
    n.Throughout image shapes limits ws (m.truncate base) :=
  ⟨h.program, h.operands, fun v hv => h.locals v (List.mem_of_mem_drop hv), h.globals, h.lent,
    h.heap.release _⟩

/-- Frames hold no values. -/
theorem frames (h : n.Throughout image shapes limits ws m) (frames : List Frame) :
    n.Throughout image shapes limits ws { m with frames } :=
  ⟨h.program, h.operands, h.locals, h.globals, h.lent, h.heap⟩

/-- Nor do calls and places. -/
theorem returnToCaller (h : n.Throughout image shapes limits ws m) :
    n.Throughout image shapes limits ws m.returnToCaller := by
  unfold Machine.returnToCaller
  split
  · exact h
  · exact ⟨h.program, h.operands, h.locals, h.globals, h.lent, h.heap⟩

/-- A machine that fails holds what it held. -/
theorem stop (h : n.Throughout image shapes limits ws m) (cause : Cause) :
    n.Keeps image shapes limits ws (m.stop cause) :=
  ⟨h.program, h.operands, h.locals, h.globals, h.lent, h.heap⟩

/-- Dropping operands for a failure. -/
theorem refuse (h : n.Throughout image shapes limits ws m) {rest : List Value}
    (hr : ∀ v ∈ rest, v ∈ m.operands) {vs : List Value} {cause : Cause} :
    n.Keeps image shapes limits ws ((m.dropped rest vs).stop cause) :=
  (h.dropped hr vs).stop cause

/-- Leaving branches brings in no value. -/
theorem leaveBranches (h : n.Throughout image shapes limits ws m) (frames : List Frame) :
    n.Throughout image shapes limits ws (m.leaveBranches frames) := by
  induction frames generalizing m with
  | nil => exact h.frames []
  | cons f frames ih =>
    rw [Machine.leaveBranches]
    split
    · exact ih (h.truncate f.base)
    · exact h.frames _

/-- Nor does leaving a function. -/
theorem leaveFunction (h : n.Throughout image shapes limits ws m) (frames : List Frame) :
    n.Throughout image shapes limits ws (m.leaveFunction frames).1 := by
  induction frames generalizing m with
  | nil => exact h.frames []
  | cons f frames ih =>
    rw [Machine.leaveFunction]
    split
    · exact (h.truncate f.base).frames frames
    · exact (h.truncate f.base).frames frames
    · exact ih (h.truncate f.base)

end Throughout

/-! ## Frames and calls -/

/-- The end of a frame brings in null at most. -/
theorem keeps_endFrame (ha : n.Allows image shapes limits) (h : n.Throughout image shapes limits ws m) :
    n.Keeps image shapes limits ws m.endFrame := by
  unfold Machine.endFrame
  split
  · exact h.stop _
  · next f frames _ =>
    have htruncate := h.truncate f.base
    split
    · exact ⟨h.program, h.operands, h.locals, h.globals, h.lent, h.heap⟩
    · exact htruncate.frames _
    · exact htruncate.frames _
    · exact htruncate.frames _
    · exact (htruncate.frames frames).returnToCaller.push ha.null

/-- So does the next pass of a loop. -/
theorem keeps_continueLoop (ha : n.Allows image shapes limits)
    (h : n.Throughout image shapes limits ws m) : n.Keeps image shapes limits ws m.continueLoop := by
  have hleft := h.leaveBranches m.frames
  unfold Machine.continueLoop
  dsimp only
  split
  · exact keeps_endFrame ha hleft
  · exact hleft.stop _

theorem keeps_breakLoop (h : n.Throughout image shapes limits ws m) :
    n.Keeps image shapes limits ws m.breakLoop := by
  have hleft := h.leaveBranches m.frames
  unfold Machine.breakLoop
  dsimp only
  split
  · next f frames _ =>
    split
    · exact (hleft.truncate f.base).frames frames
    · exact hleft.stop _
  · exact hleft.stop _

/-- A value that is given back was an operand. -/
theorem keeps_giveBack (h : n.Throughout image shapes limits ws m) :
    n.Keeps image shapes limits ws m.giveBack := by
  unfold Machine.giveBack
  split
  · exact h.stop _
  · next v rest hm =>
    have hoperands := hm ▸ h.operands
    obtain ⟨hv, hrest⟩ := List.forall_mem_cons.1 hoperands
    have hpopped : n.Throughout image shapes limits ws { m with operands := rest } :=
      ⟨h.program, hrest, h.locals, h.globals, h.lent, h.heap⟩
    have hleft := hpopped.leaveFunction m.frames
    split
    · next m' hl =>
      rw [hl] at hleft
      exact hleft.returnToCaller.push hv
    · next m' hl =>
      rw [hl] at hleft
      exact hleft.refuse fun _ hw => hw

/-- The arguments of a call stay where they are. -/
theorem keeps_call (h : n.Throughout image shapes limits ws m) (id : UInt32) :
    n.Keeps image shapes limits ws (m.call id) := by
  unfold Machine.call
  split
  · exact h.stop _
  · split
    · exact h.stop _
    · split
      · exact h.stop _
      · exact ⟨h.program, h.operands, h.locals, h.globals, h.lent, h.heap⟩

/-- What is taken and what is left was among the operands. -/
theorem mem_of_takeOperands {k : Nat} {operands args rest : List Value}
    (h : Machine.takeOperands k operands = some (args, rest)) :
    (∀ v ∈ args, v ∈ operands) ∧ ∀ v ∈ rest, v ∈ operands := by
  have hp := Machine.perm_of_takeOperands h
  exact ⟨fun v hv => hp.mem_iff.2 (List.mem_append_left _ hv),
    fun v hv => hp.mem_iff.2 (List.mem_append_right _ hv)⟩

/-- The arguments of a call are lent to the host. -/
theorem keeps_callBuiltin (h : n.Throughout image shapes limits ws m) (id : UInt32) :
    n.Keeps image shapes limits ws (m.callBuiltin id) := by
  unfold Machine.callBuiltin
  split
  · exact h.stop _
  · split
    · exact h.stop _
    · next args rest ht =>
      obtain ⟨hargs, hrest⟩ := mem_of_takeOperands ht
      refine ⟨h.program, fun v hv => h.operands v (hrest v hv), h.locals, h.globals, ?_, h.heap⟩
      exact List.forall_mem_append.2 ⟨fun v hv => h.operands v (hargs v hv), h.lent⟩

/-! ## Values -/

/-- Operands that are within the memory are no more than an array could hold. -/
theorem length_le_arraySize {k : Nat} {args rest : List Value}
    (ht : Machine.takeOperands k m.operands = some (args, rest)) (hm : m.usedMemory ≤ m.limits.memory) :
    args.length ≤ m.limits.arraySize := by
  have hperm := (Machine.perm_of_takeOperands ht).length_eq
  rw [List.length_append] at hperm
  have hvalue : valueSize = 16 := rfl
  rw [Machine.usedMemory, hvalue] at hm
  rw [Limits.arraySize, Nat.le_div_iff_mul_le (by decide), hvalue]
  omega

/-- A new tuple is made of operands, and is within the limits that the norm allows for. -/
theorem keeps_makeTuple (ha : n.Allows image shapes limits) (h : n.Throughout image shapes limits ws m)
    (hm : m.usedMemory ≤ m.limits.memory) (k : Nat) :
    n.Keeps image shapes limits ws (m.makeTuple k) := by
  unfold Machine.makeTuple
  split
  · exact h.stop _
  · next items rest ht =>
    obtain ⟨hitems, hrest⟩ := mem_of_takeOperands ht
    have hvalues : ∀ v ∈ items, n.value v := fun v hv => h.operands v (hitems v hv)
    have hheap : n.Holds ⟨(m.heap.tuple items).2, []⟩ := h.heap.alloc (ha.tupleBody items hvalues) hvalues
    have hlength := length_le_arraySize ht hm
    dsimp only
    split
    · exact ⟨h.program, fun v hv => h.operands v (hrest v hv), h.locals, h.globals, h.lent,
        hheap.release _⟩
    · next hsize =>
      rw [h.program.2.2] at hsize hlength
      exact h.made (ha.tuple _ items hvalues hlength (Nat.le_of_not_lt hsize)) hrest hheap

/-- A new object has the names of its shape and operands as its values. -/
theorem keeps_makeObject (ha : n.Allows image shapes limits) (h : n.Throughout image shapes limits ws m)
    (shape : UInt32) : n.Keeps image shapes limits ws (m.makeObject shape) := by
  unfold Machine.makeObject
  split
  · exact h.stop _
  · next names hnames =>
    split
    · exact h.stop _
    · next values rest ht =>
      obtain ⟨hvalues, hrest⟩ := mem_of_takeOperands ht
      rw [h.program.2.1] at hnames
      have hlength : values.length = names.length := by
        unfold Machine.takeOperands at ht
        split at ht
        · next hle =>
          cases ht
          rw [List.length_reverse, List.length_take, Nat.min_eq_left hle]
        · cases ht
      refine h.made (ha.object _) hrest (h.heap.alloc ?_ fun v hv => h.operands v (hvalues v hv))
      exact ha.objectBody names (List.mem_of_getElem? hnames) values hlength

/-- A new array is made of operands, and is within the limits that the norm allows for. -/
theorem keeps_makeArray (ha : n.Allows image shapes limits) (h : n.Throughout image shapes limits ws m)
    (k : Nat) : n.Keeps image shapes limits ws (m.makeArray k) := by
  unfold Machine.makeArray
  split
  · exact h.stop _
  · next hsize =>
    split
    · exact h.stop _
    · next items rest ht =>
      obtain ⟨hitems, hrest⟩ := mem_of_takeOperands ht
      have hlength : items.length ≤ limits.arraySize := by
        rw [h.program.2.2] at hsize
        unfold Machine.takeOperands at ht
        split at ht
        · cases ht
          rw [List.length_reverse, List.length_take]
          omega
        · cases ht
      refine h.made (ha.array _) hrest (h.heap.alloc ?_ fun v hv => h.operands v (hitems v hv))
      exact ha.arrayBody items hlength

/-- What a tuple consists of, its cell holds. -/
theorem keeps_tupleMember (hx : (m.books ws).Exact) (h : n.Throughout image shapes limits ws m) (i : Nat) :
    n.Keeps image shapes limits ws (m.tupleMember i) := by
  unfold Machine.tupleMember
  split
  · exact h.stop _
  · next v rest hm =>
    have hrest : ∀ w ∈ rest, w ∈ m.operands := by simp +contextual [hm]
    split
    · next r flat items =>
      split
      · next part hpart =>
        refine h.replaced ?_ hrest _
        have hmem : .tuple r flat items ∈ (m.books ws).all := by
          refine List.mem_append_left _ (List.mem_append_left _ ?_)
          rw [hm]
          exact List.mem_cons_self
        exact h.heap.held (hx.mem_held_of_tuple hmem (List.mem_of_getElem? hpart))
      · exact h.refuse hrest
    · exact h.refuse hrest

/-- A member of an object was held by the object. -/
theorem keeps_objectMember (h : n.Throughout image shapes limits ws m) (id : UInt32) :
    n.Keeps image shapes limits ws (m.objectMember id) := by
  unfold Machine.objectMember
  split
  · exact h.stop _
  · split
    · exact h.stop _
    · next v rest hm =>
      have hrest : ∀ w ∈ rest, w ∈ m.operands := by simp +contextual [hm]
      split
      · split
        · next part hpart => exact h.replaced (h.heap.held (Books.mem_held_of_member? hpart)) hrest _
        · exact h.refuse hrest
      · exact h.refuse hrest

/-- An element of an array was held by the array. -/
theorem keeps_element (h : n.Throughout image shapes limits ws m) :
    n.Keeps image shapes limits ws m.element := by
  unfold Machine.element
  split
  · exact h.stop _
  · next i below hm =>
    split
    · exact h.refuse (List.forall_mem_nil _)
    · next v rest =>
      have hrest : ∀ w ∈ rest, w ∈ m.operands := by simp +contextual [hm]
      split
      · split
        · next part hpart =>
          obtain ⟨k, -, hk⟩ := Option.bind_eq_some_iff.1 hpart
          refine h.replaced (h.heap.held (Books.mem_held_of_items (List.mem_of_getElem? hk))) hrest _
        · exact h.refuse hrest
      · exact h.refuse hrest
  · next v rest _ hm => exact h.refuse (by simp +contextual [hm])

/-- What an operator works out is a number or a truth value. -/
theorem keeps_unary (ha : n.Allows image shapes limits) (h : n.Throughout image shapes limits ws m)
    (op : UnaryOp) : n.Keeps image shapes limits ws (m.unary op) := by
  unfold Machine.unary
  split
  · exact h.stop _
  · next v rest hm =>
    have hrest : ∀ w ∈ rest, w ∈ m.operands := by simp +contextual [hm]
    split
    · next result hr => exact h.replaced (ha.number (UnaryOp.isNumber_apply hr)) hrest _
    · exact h.refuse hrest

/-- What an operator works out is a number or a truth value, or one of its operands. -/
theorem keeps_binary (ha : n.Allows image shapes limits) (h : n.Throughout image shapes limits ws m)
    (op : BinaryOp) : n.Keeps image shapes limits ws (m.binary op) := by
  unfold Machine.binary
  split
  · exact h.stop _
  · exact h.refuse (List.forall_mem_nil _)
  · next right left rest hm =>
    have hrest : ∀ w ∈ rest, w ∈ m.operands := by simp +contextual [hm]
    split
    · next result hr =>
      refine h.replaced ?_ hrest _
      rcases BinaryOp.isNumber_or_eq hr with hnumber | rfl | rfl
      · exact ha.number hnumber
      · exact h.operands _ (by simp [hm])
      · exact h.operands _ (by simp [hm])
    · exact h.refuse hrest

/-! ## Variables -/

/-- The value of a global was held by the machine. -/
theorem keeps_loadGlobal (h : n.Throughout image shapes limits ws m) (slot : Nat) :
    n.Keeps image shapes limits ws (m.loadGlobal slot) := by
  unfold Machine.loadGlobal
  split
  · next v hv => exact h.pushCopy (h.globals v (List.mem_of_getElem? hv))
  · exact h.stop _

/-- So was the value of a local. -/
theorem keeps_loadLocal (h : n.Throughout image shapes limits ws m) (slot : Nat) :
    n.Keeps image shapes limits ws (m.loadLocal slot) := by
  unfold Machine.loadLocal
  split
  · next v hv =>
    split
    · exact h.pushCopy (h.locals v (List.mem_of_getElem? hv))
    · exact h.stop _
  · exact h.stop _

/-- What a global becomes was an operand. -/
theorem keeps_storeGlobal (h : n.Throughout image shapes limits ws m) (slot : Nat) :
    n.Keeps image shapes limits ws (m.storeGlobal slot) := by
  unfold Machine.storeGlobal
  split
  · exact h.stop _
  · next v rest hm =>
    obtain ⟨hv, hrest⟩ := List.forall_mem_cons.1 (hm ▸ h.operands)
    split
    · refine ⟨h.program, hrest, h.locals, ?_, h.lent, h.heap.release _⟩
      exact fun w hw => (List.mem_or_eq_of_mem_set hw).elim (h.globals w) (fun he => he ▸ hv)
    · exact h.refuse (by simp +contextual [hm])

theorem keeps_pushLocal (h : n.Throughout image shapes limits ws m) :
    n.Keeps image shapes limits ws m.pushLocal := by
  unfold Machine.pushLocal
  split
  · exact h.stop _
  · next v rest hm =>
    obtain ⟨hv, hrest⟩ := List.forall_mem_cons.1 (hm ▸ h.operands)
    exact ⟨h.program, hrest, List.forall_mem_cons.2 ⟨hv, h.locals⟩, h.globals, h.lent, h.heap⟩

theorem keeps_storeLocal (h : n.Throughout image shapes limits ws m) (slot : Nat) :
    n.Keeps image shapes limits ws (m.storeLocal slot) := by
  unfold Machine.storeLocal
  split
  · exact h.stop _
  · next v rest hm =>
    obtain ⟨hv, hrest⟩ := List.forall_mem_cons.1 (hm ▸ h.operands)
    have hbelow : ∀ w ∈ rest, w ∈ m.operands := by simp +contextual [hm]
    split
    · split
      · refine ⟨h.program, hrest, ?_, h.globals, h.lent, h.heap.release _⟩
        exact fun w hw => (List.mem_or_eq_of_mem_set hw).elim (h.locals w) (fun he => he ▸ hv)
      · exact h.refuse hbelow
    · exact h.refuse hbelow

/-- What a member becomes was an operand. -/
theorem keeps_storeMember (ha : n.Allows image shapes limits)
    (h : n.Throughout image shapes limits ws m) (id : UInt32) :
    n.Keeps image shapes limits ws (m.storeMember id) := by
  unfold Machine.storeMember
  split
  · exact h.stop _
  · next v below hm =>
    have hv : n.value v := h.operands v (by simp [hm])
    split
    · exact h.refuse (by simp +contextual [hm])
    · split
      · exact h.refuse (List.forall_mem_nil _)
      · next target rest =>
        have hrest : ∀ w ∈ rest, w ∈ m.operands := by simp +contextual [hm]
        split
        · split
          · next heap hs =>
            exact ⟨h.program, fun w hw => h.operands w (hrest w hw), h.locals, h.globals, h.lent,
              (holds_setMember? ha h.heap hv hs).release _⟩
          · exact h.refuse hrest
        · exact h.refuse hrest

/-- So was what an element becomes. -/
theorem keeps_storeElement (ha : n.Allows image shapes limits)
    (h : n.Throughout image shapes limits ws m) : n.Keeps image shapes limits ws m.storeElement := by
  unfold Machine.storeElement
  split
  · exact h.stop _
  · exact h.refuse (List.forall_mem_nil _)
  · next v i below hm =>
    have hv : n.value v := h.operands v (by simp [hm])
    split
    · exact h.refuse (List.forall_mem_nil _)
    · next target rest =>
      have hrest : ∀ w ∈ rest, w ∈ m.operands := by simp +contextual [hm]
      split
      · split
        · next heap hs =>
          obtain ⟨k, -, hk⟩ := Option.bind_eq_some_iff.1 hs
          exact ⟨h.program, fun w hw => h.operands w (hrest w hw), h.locals, h.globals, h.lent,
            (holds_setItem? ha h.heap hv hk).release _⟩
        · exact h.refuse hrest
      · exact h.refuse hrest
  · next v index rest _ hm => exact h.refuse (by simp +contextual [hm])

/-! ## Steps -/

theorem keeps_branch (h : n.Throughout image shapes limits ws m) (yes no : List Op) :
    n.Keeps image shapes limits ws (m.branch yes no) := by
  unfold Machine.branch
  split
  · exact h.stop _
  · next v rest hm =>
    have hrest : ∀ w ∈ rest, w ∈ m.operands := by simp +contextual [hm]
    have hdropped := h.dropped hrest [v]
    dsimp only
    generalize (if v.isTruthy = true then yes else no) = body
    split
    · exact hdropped
    · exact hdropped.frames _

/-- No instruction brings in a value that does not keep to the norm. -/
theorem keeps_exec (ha : n.Allows image shapes limits) (hx : (m.books ws).Exact)
    (h : n.Throughout image shapes limits ws m) (hm : m.usedMemory ≤ m.limits.memory) (op : Op) :
    n.Keeps image shapes limits ws (m.exec op) := by
  -- What is made anew has been checked against the limits, and all else moves values that are there.
  cases op with
  | line k => exact ⟨h.program, h.operands, h.locals, h.globals, h.lent, h.heap⟩
  | loop body | tick body => exact h.frames _
  | file id =>
    simp only [Machine.exec]
    split
    · exact ⟨h.program, h.operands, h.locals, h.globals, h.lent, h.heap⟩
    · exact h.stop _
  | discard =>
    simp only [Machine.exec]
    split
    · exact h.stop _
    · next v rest hm =>
      have hrest : ∀ w ∈ rest, w ∈ m.operands := by simp +contextual [hm]
      exact h.dropped hrest [v]
  | pushNull => exact h.push ha.null
  | pushInt k => exact h.push (ha.int k)
  | pushFloat bits => exact h.push (ha.float _)
  | pushText id =>
    simp only [Machine.exec]
    split
    · next s hs => exact h.push (ha.literal id s (h.program.1 ▸ hs))
    · exact h.stop _
  | makeTuple k => exact keeps_makeTuple ha h hm k.toNat
  | makeObject shape => exact keeps_makeObject ha h shape
  | makeArray k => exact keeps_makeArray ha h k.toNat
  | tupleMember i => exact keeps_tupleMember hx h i.toNat
  | objectMember id => exact keeps_objectMember h id
  | element => exact keeps_element h
  | loadGlobal slot => exact keeps_loadGlobal h slot.toNat
  | loadLocal slot => exact keeps_loadLocal h slot.toNat
  | unary op => exact keeps_unary ha h op
  | binary op => exact keeps_binary ha h op
  | storeGlobal slot => exact keeps_storeGlobal h slot.toNat
  | pushLocal => exact keeps_pushLocal h
  | storeLocal slot => exact keeps_storeLocal h slot.toNat
  | storeMember id => exact keeps_storeMember ha h id
  | storeElement => exact keeps_storeElement ha h
  | branch yes no => exact keeps_branch h yes no
  | continueLoop => exact keeps_continueLoop ha h
  | breakLoop => exact keeps_breakLoop h
  | call id => exact keeps_call h id
  | callBuiltin id => exact keeps_callBuiltin h id
  | giveBack => exact keeps_giveBack h

/-- Nor does anything else that runs next. -/
theorem keeps_execNext (ha : n.Allows image shapes limits) (hx : (m.books ws).Exact)
    (h : n.Throughout image shapes limits ws m) (hm : m.usedMemory ≤ m.limits.memory) :
    n.Keeps image shapes limits ws m.execNext := by
  cases m.nextCase with
  | nothing _ hn => exact hn ▸ h.stop _
  | leaves _ _ _ _ hn => exact hn ▸ keeps_endFrame ha h
  | runs f frames op rest _ _ hn =>
    rw [hn]
    exact keeps_exec (m := { m with frames := { f with rest } :: frames }) ha hx (h.frames _) hm op

/-- **A step keeps to every norm that its program allows**, as long as the books are exact. -/
theorem keeps_step (ha : n.Allows image shapes limits) (hx : (m.books ws).Exact)
    (h : n.Throughout image shapes limits ws m) : n.Keeps image shapes limits ws m.step := by
  cases m.stepCase with
  | complete _ hs | faulted _ _ hs | unpaid _ _ hs => exact hs ▸ h
  | unanswered _ hs | overfull _ _ _ hs => exact hs ▸ h.stop _
  | made _ _ hm hs =>
    have hspent : n.Throughout image shapes limits ws { m with spent := m.spent + 1 } :=
      ⟨h.program, h.operands, h.locals, h.globals, h.lent, h.heap⟩
    exact hs ▸ keeps_execNext ha hx hspent hm

/-- A result that the host hands over has to keep to the norm. -/
theorem Throughout.pushResult (h : n.Throughout image shapes limits ws m) {v : Value} (hv : n.value v) :
    n.Throughout image shapes limits ws (m.pushResult v).2 := by
  obtain ⟨-, hanswer⟩ | ⟨-, hanswer⟩ := m.pushResult_cases v <;> rw [hanswer]
  · exact ⟨h.program, List.forall_mem_cons.2 ⟨hv, h.operands⟩, h.locals, h.globals, h.lent, h.heap⟩
  · exact ⟨h.program, h.operands, h.locals, h.globals, h.lent, h.heap.release [v]⟩

/-- A machine that has not started holds null only. -/
theorem throughout_start (ha : n.Allows image shapes limits) :
    n.Throughout image shapes limits [] (.start image shapes limits) where
  program := ⟨rfl, rfl, rfl⟩
  operands := List.forall_mem_nil _
  locals := List.forall_mem_nil _
  globals := fun _ hv => List.eq_of_mem_replicate hv ▸ ha.null
  lent := List.forall_mem_nil _
  heap := ⟨List.forall_mem_nil _, List.forall_mem_nil _⟩

end Steps

end Norm

end TickScript
