import TickScript.Proofs.Machine.Halting
import TickScript.Proofs.Machine.Holdings

/-!
# Memory in use

The limits are looked at before a step and not while it is made, so a step may end with more memory in
use than there should be. It cannot be much more. Most instructions leave at most one value more on the
stacks than there were and make no cell; giving references back can only free memory. The others make one
cell of operands that were counted before, so that only the cell's own header and the value that refers to
it come on top. An object has the largest header.

The next step that could do anything finds too much memory in use and fails. Until the host intervenes,
nothing else happens to the program.
-/

namespace TickScript

/-! ## The heap -/

namespace Heap

@[simp] theorem used_retain (h : Heap) (v : Value) : (h.retain v).used = h.used := by
  unfold retain
  split <;> rfl

/-- Dropping values uses no more of the heap. -/
theorem used_release_le (h : Heap) (vs : List Value) : (h.release vs).used ≤ h.used := by
  fun_induction release h vs with
  | case1 h => exact Nat.le_refl _
  | case2 h v vs hv ih => exact ih
  | case3 h v vs r hv hc ih => exact ih
  | case4 h v vs r hv c hc hle ih => exact ih.trans (Nat.sub_le _ _)
  | case5 h v vs r hv c hc hlt ih => exact ih

/-- A body of the same charge uses as much. -/
theorem used_setBody_of_charge {h : Heap} {r : Ref} {old b : Body} (hr : h.body? r = some old)
    (hb : b.charge = old.charge) : (h.setBody r b).used = h.used := by
  unfold setBody
  rw [hr]
  dsimp only
  rw [hb]
  exact Nat.add_sub_cancel _ _

/-- Replacing a member uses no more of the heap. -/
theorem used_setMember?_le {h h' : Heap} {r : Ref} {name : String} {v : Value}
    (hs : h.setMember? r name v = some h') : h'.used ≤ h.used := by
  unfold setMember? at hs
  split at hs
  · next names values hr =>
    split at hs
    · next i _ =>
      split at hs
      · cases hs
        have hcharge : (Body.object names (values.set i v)).charge = (Body.object names values).charge := by
          simp [Body.charge]
        rw [← used_setBody_of_charge hr hcharge]
        exact used_release_le _ _
      · cases hs
    · cases hs
  · cases hs

/-- Nor does replacing an item. -/
theorem used_setItem?_le {h h' : Heap} {r : Ref} {i : Nat} {v : Value}
    (hs : h.setItem? r i v = some h') : h'.used ≤ h.used := by
  unfold setItem? at hs
  split at hs
  · next capacity items hr =>
    split at hs
    · cases hs
      rw [← used_setBody_of_charge (b := .array capacity (items.set i v)) hr rfl]
      exact used_release_le _ _
    · cases hs
  · cases hs

end Heap

namespace Machine

/-! ## Instructions that make no cell -/

/-- The number of values on the stacks and in the globals. -/
def slots (m : Machine) : Nat := m.operands.length + m.locals.length + m.globals.length

/-- The machine has at most so many values more, and no more on its heap. -/
def Grows (n : Nat) (m m' : Machine) : Prop :=
  m'.heap.used ≤ m.heap.used ∧ m'.slots ≤ m.slots + n

variable {m m' m'' : Machine} {n : Nat}

/-- So many values more take so much memory more. -/
theorem Grows.usedMemory_le (h : Grows n m m') : m'.usedMemory ≤ m.usedMemory + valueSize * n := by
  obtain ⟨hused, hslots⟩ := h
  replace hslots := Nat.mul_le_mul_left valueSize hslots
  rw [Nat.mul_add] at hslots
  show m'.heap.used + valueSize * m'.slots ≤ m.heap.used + valueSize * m.slots + valueSize * n
  omega

namespace Grows

theorem refl (m : Machine) : Grows 0 m m := ⟨Nat.le_refl _, Nat.le_refl _⟩

/-- What grows after what does not grow grows as much. -/
theorem trans (h : Grows 0 m m') (h' : Grows n m' m'') : Grows n m m'' :=
  ⟨h'.1.trans h.1, h'.2.trans (Nat.add_le_add_right h.2 n)⟩

theorem mono (h : Grows 0 m m') : Grows n m m' :=
  ⟨h.1, h.2.trans (Nat.add_le_add_left n.zero_le _)⟩

/-- Some operands are replaced by others, and references are given back. -/
theorem operands {operands : List Value} {heap : Heap} (hu : heap.used ≤ m.heap.used)
    (ho : operands.length ≤ m.operands.length + n) : Grows n m { m with operands, heap } := by
  refine ⟨hu, ?_⟩
  simp only [Machine.slots]
  omega

end Grows

/-- A value that is pushed is one more. -/
theorem grows_push (m : Machine) (v : Value) : Grows 1 m (m.push v) :=
  .operands (Nat.le_refl _) (Nat.le_refl _)

/-- So is a copy. -/
theorem grows_pushCopy (m : Machine) (v : Value) : Grows 1 m (m.pushCopy v) :=
  .operands (Nat.le_of_eq (Heap.used_retain _ _)) (Nat.le_refl _)

/-- Dropping operands makes nothing grow. -/
theorem grows_dropped {rest : List Value} (vs : List Value) (ho : rest.length ≤ m.operands.length) :
    Grows 0 m (m.dropped rest vs) :=
  .operands (Heap.used_release_le _ _) ho

/-- Nor does dropping values for a copy. -/
theorem used_replaced_le (h : Heap) (v : Value) (vs : List Value) :
    ((h.retain v).release vs).used ≤ h.used := by
  rw [← Heap.used_retain h v]
  exact Heap.used_release_le _ _

/-- A part that takes the place of the whole is one value for another. -/
theorem grows_replaceTop {v : Value} {rest : List Value} (hm : m.operands = v :: rest) (part : Value) :
    Grows 0 m (m.replaceTop v rest part) := by
  refine .operands (used_replaced_le _ _ _) ?_
  rw [hm]
  exact Nat.le_refl _

/-- Dropping locals makes nothing grow. -/
theorem grows_truncate (m : Machine) (base : Nat) : Grows 0 m (m.truncate base) := by
  refine ⟨Heap.used_release_le _ _, ?_⟩
  simp only [slots, truncate, List.length_drop]
  omega

/-- Calls and places take no memory. -/
theorem grows_returnToCaller (m : Machine) : Grows 0 m m.returnToCaller := by
  unfold returnToCaller
  split <;> exact .refl m

/-- The end of a function leaves null at most. -/
theorem grows_endFrame (m : Machine) : Grows 1 m m.endFrame.1 := by
  unfold endFrame
  split
  · exact (Grows.refl m).mono
  · next f frames _ =>
    have htruncate := grows_truncate m f.base
    split
    · exact (Grows.refl m).mono
    · exact htruncate.mono
    · exact htruncate.mono
    · exact htruncate.mono
    · have hreturned : Grows 0 m { m.truncate f.base with frames }.returnToCaller :=
        htruncate.trans (grows_returnToCaller { m.truncate f.base with frames })
      exact hreturned.trans (grows_push _ .null)

/-- Leaving branches makes nothing grow. -/
theorem grows_leaveBranches (m : Machine) (frames : List Frame) : Grows 0 m (m.leaveBranches frames) := by
  induction frames generalizing m with
  | nil => exact .refl m
  | cons f frames ih =>
    rw [leaveBranches]
    split
    · exact (grows_truncate m f.base).trans (ih _)
    · exact .refl m

/-- Nor does leaving a function. -/
theorem grows_leaveFunction (m : Machine) (frames : List Frame) :
    Grows 0 m (m.leaveFunction frames).1 := by
  induction frames generalizing m with
  | nil => exact .refl m
  | cons f frames ih =>
    rw [leaveFunction]
    split
    · exact grows_truncate m f.base
    · exact grows_truncate m f.base
    · exact (grows_truncate m f.base).trans (ih _)

/-- The next pass of a loop leaves null at most. -/
theorem grows_continueLoop (m : Machine) : Grows 1 m m.continueLoop.1 := by
  have hleft := grows_leaveBranches m m.frames
  unfold continueLoop
  dsimp only
  split
  · exact hleft.trans (grows_endFrame _)
  · exact hleft.mono

/-- A loop that is left makes nothing grow. -/
theorem grows_breakLoop (m : Machine) : Grows 0 m m.breakLoop.1 := by
  have hleft := grows_leaveBranches m m.frames
  unfold breakLoop
  dsimp only
  split
  · next f frames _ =>
    split
    · exact hleft.trans (grows_truncate _ f.base)
    · exact hleft
  · exact hleft

/-- A value that is given back is one at most. -/
theorem grows_giveBack (m : Machine) : Grows 1 m m.giveBack.1 := by
  unfold giveBack
  split
  · exact (Grows.refl m).mono
  · next v rest hm =>
    have hpopped : Grows 0 m { m with operands := rest } := by
      refine .operands (Nat.le_refl _) ?_
      rw [hm]
      exact Nat.le_succ _
    have hleft := hpopped.trans (grows_leaveFunction { m with operands := rest } m.frames)
    split
    · next m' hl =>
      rw [hl] at hleft
      exact (hleft.trans (grows_returnToCaller m')).trans (grows_push _ v)
    · next m' hl =>
      rw [hl] at hleft
      exact (hleft.trans (grows_dropped (m := m') [v] (Nat.le_refl _))).mono

/-- Operands that are taken and those that are left are as many as there were. -/
theorem length_of_takeOperands {k : Nat} {operands args rest : List Value}
    (h : takeOperands k operands = some (args, rest)) : operands.length = args.length + rest.length := by
  rw [(perm_of_takeOperands h).length_eq, List.length_append]

/-- Calling the host makes nothing grow until it answers. -/
theorem grows_callBuiltin (m : Machine) (id : UInt32) : Grows 0 m (m.callBuiltin id).1 := by
  unfold callBuiltin
  split
  · exact .refl m
  · split
    · exact .refl m
    · next args rest ht =>
      have hlength := length_of_takeOperands ht
      have hrest : Grows 0 m { m with operands := rest } := .operands (Nat.le_refl _) (by omega)
      exact hrest

/-- Entering a function makes nothing grow. -/
theorem grows_call (m : Machine) (id : UInt32) : Grows 0 m (m.call id).1 := by
  unfold call
  repeat' split
  all_goals exact .refl m

/-- Dropping operands for a failure. -/
theorem grows_refuse {rest : List Value} (vs : List Value) {cause : Cause}
    (ho : rest.length ≤ m.operands.length) : Grows 0 m (stop (m.dropped rest vs) cause).1 :=
  grows_dropped vs ho

/-- Taking something apart, like working something out, puts one value in the place of others. -/
theorem grows_tupleMember (m : Machine) (i : Nat) : Grows 0 m (m.tupleMember i).1 := by
  unfold tupleMember
  split
  · exact .refl m
  · next v rest hm =>
    have hrest : rest.length ≤ m.operands.length := by simp [hm]
    split
    · split
      · exact grows_replaceTop hm _
      · exact grows_refuse _ hrest
    · exact grows_refuse _ hrest

theorem grows_objectMember (m : Machine) (id : UInt32) : Grows 0 m (m.objectMember id).1 := by
  unfold objectMember
  split
  · exact .refl m
  · split
    · exact .refl m
    · next v rest hm =>
      have hrest : rest.length ≤ m.operands.length := by simp [hm]
      split
      · split
        · exact grows_replaceTop hm _
        · exact grows_refuse _ hrest
      · exact grows_refuse _ hrest

theorem grows_element (m : Machine) : Grows 0 m m.element.1 := by
  unfold element
  split
  · exact .refl m
  · next i below hm =>
    split
    · exact grows_refuse _ (Nat.zero_le _)
    · next v rest =>
      have hrest : rest.length ≤ m.operands.length := by
        simp only [hm, List.length_cons]
        omega
      split
      · split
        · refine Grows.operands (used_replaced_le _ _ _) ?_
          simp only [hm, List.length_cons]
          omega
        · exact grows_refuse _ hrest
      · exact grows_refuse _ hrest
  · next v rest _ hm => exact grows_refuse _ (by simp [hm])

theorem grows_unary (m : Machine) (op : UnaryOp) : Grows 0 m (m.unary op).1 := by
  unfold unary
  split
  · exact .refl m
  · next v rest hm =>
    split
    · exact grows_replaceTop hm _
    · exact grows_refuse _ (by simp [hm])

theorem grows_binary (m : Machine) (op : BinaryOp) : Grows 0 m (m.binary op).1 := by
  unfold binary
  split
  · exact .refl m
  · exact grows_refuse _ (Nat.zero_le _)
  · next right left rest hm =>
    split
    · exact Grows.operands (used_replaced_le _ _ _) (by simp [hm])
    · refine grows_refuse _ ?_
      simp only [hm, List.length_cons]
      omega

/-- Loading a variable is one more value. -/
theorem grows_loadGlobal (m : Machine) (slot : Nat) : Grows 1 m (m.loadGlobal slot).1 := by
  unfold loadGlobal
  split
  · exact grows_pushCopy m _
  · exact (Grows.refl m).mono

theorem grows_loadLocal (m : Machine) (slot : Nat) : Grows 1 m (m.loadLocal slot).1 := by
  unfold loadLocal
  split
  · split
    · exact grows_pushCopy m _
    · exact (Grows.refl m).mono
  · exact (Grows.refl m).mono

/-- Storing a value takes the place of another. -/
theorem grows_storeGlobal (m : Machine) (slot : Nat) : Grows 0 m (m.storeGlobal slot).1 := by
  unfold storeGlobal
  split
  · exact .refl m
  · next v rest hm =>
    split
    · refine ⟨Heap.used_release_le _ _, ?_⟩
      simp only [go, dropped, slots, hm, List.length_cons, List.length_set]
      omega
    · exact grows_refuse _ (by simp [hm])

/-- A local was an operand before. -/
theorem grows_pushLocal (m : Machine) : Grows 0 m m.pushLocal.1 := by
  unfold pushLocal
  split
  · exact .refl m
  · next v rest hm =>
    refine ⟨Nat.le_refl _, ?_⟩
    simp only [go, slots, hm, List.length_cons]
    omega

theorem grows_storeLocal (m : Machine) (slot : Nat) : Grows 0 m (m.storeLocal slot).1 := by
  unfold storeLocal
  split
  · exact .refl m
  · next v rest hm =>
    have hrest : rest.length ≤ m.operands.length := by simp [hm]
    split
    · split
      · refine ⟨Heap.used_release_le _ _, ?_⟩
        simp only [go, dropped, slots, hm, List.length_cons, List.length_set]
        omega
      · exact grows_refuse _ hrest
    · exact grows_refuse _ hrest

theorem grows_storeMember (m : Machine) (id : UInt32) : Grows 0 m (m.storeMember id).1 := by
  unfold storeMember
  split
  · exact .refl m
  · next v below hm =>
    split
    · exact grows_refuse _ (by simp [hm])
    · split
      · exact grows_refuse _ (Nat.zero_le _)
      · next target rest =>
        have hrest : rest.length ≤ m.operands.length := by
          simp only [hm, List.length_cons]
          omega
        split
        · split
          · next heap hs =>
            exact Grows.operands ((Heap.used_release_le _ _).trans (Heap.used_setMember?_le hs)) hrest
          · exact grows_refuse _ hrest
        · exact grows_refuse _ hrest

theorem grows_storeElement (m : Machine) : Grows 0 m m.storeElement.1 := by
  unfold storeElement
  split
  · exact .refl m
  · exact grows_refuse _ (Nat.zero_le _)
  · next v i below hm =>
    split
    · exact grows_refuse _ (Nat.zero_le _)
    · next target rest =>
      have hrest : rest.length ≤ m.operands.length := by
        simp only [hm, List.length_cons]
        omega
      split
      · split
        · next heap hs =>
          obtain ⟨k, -, hk⟩ := Option.bind_eq_some_iff.1 hs
          exact Grows.operands ((Heap.used_release_le _ _).trans (Heap.used_setItem?_le hk)) hrest
        · exact grows_refuse _ hrest
      · exact grows_refuse _ hrest
  · next v index rest _ hm =>
    refine grows_refuse _ ?_
    simp only [hm, List.length_cons]
    omega

/-- A condition is dropped. -/
theorem grows_branch (m : Machine) (yes no : List Op) : Grows 0 m (m.branch yes no).1 := by
  unfold branch
  split
  · exact .refl m
  · next v rest hm =>
    have hdropped : Grows 0 m (m.dropped rest [v]) := grows_dropped _ (by simp [hm])
    dsimp only
    generalize (if v.isTruthy = true then yes else no) = body
    split <;> exact hdropped

/-! ## Instructions that make a cell -/

/-- The value of a new cell takes the place of the operands that the cell takes over. -/
theorem usedMemory_made {items rest : List Value} (v : Value) {heap : Heap} {header : Nat}
    (hm : m.operands.length = items.length + rest.length)
    (hu : heap.used = m.heap.used + (header + valueSize * items.length)) :
    ({ m with operands := v :: rest, heap } : Machine).usedMemory = m.usedMemory + (header + valueSize) := by
  simp only [usedMemory, List.length_cons, hm, hu, valueSize]
  omega

/-- A tuple takes the memory of its cell, beyond that of its items, and one value. -/
theorem usedMemory_makeTuple_le (m : Machine) (k : Nat) :
    (m.makeTuple k).1.usedMemory ≤ m.usedMemory + 56 := by
  unfold makeTuple
  split
  · exact Nat.le_add_right _ _
  · next items rest ht =>
    let made : Machine :=
      { m with operands := (m.heap.tuple items).1 :: rest, heap := (m.heap.tuple items).2 }
    have hmade : made.usedMemory = m.usedMemory + 56 :=
      usedMemory_made _ (length_of_takeOperands ht) rfl
    dsimp only
    split
    · have hdropped : Grows 0 made (made.dropped rest [(m.heap.tuple items).1]) :=
        grows_dropped _ (Nat.le_succ _)
      exact hdropped.usedMemory_le.trans (Nat.le_of_eq hmade)
    · exact Nat.le_of_eq hmade

/-- So does an object. -/
theorem usedMemory_makeObject_le (m : Machine) (shape : UInt32) :
    (m.makeObject shape).1.usedMemory ≤ m.usedMemory + 80 := by
  unfold makeObject
  split
  · exact Nat.le_add_right _ _
  · split
    · exact Nat.le_add_right _ _
    · next ht => exact Nat.le_of_eq (usedMemory_made _ (length_of_takeOperands ht) rfl)

/-- So does an array. -/
theorem usedMemory_makeArray_le (m : Machine) (k : Nat) :
    (m.makeArray k).1.usedMemory ≤ m.usedMemory + 64 := by
  unfold makeArray
  split
  · exact Nat.le_add_right _ _
  · split
    · exact Nat.le_add_right _ _
    · next ht => exact Nat.le_of_eq (usedMemory_made _ (length_of_takeOperands ht) rfl)

/-! ## Steps -/

/-- One value more is less than an object. -/
theorem Grows.usedMemory_le_one (h : Grows 1 m m') : m'.usedMemory ≤ m.usedMemory + 80 :=
  h.usedMemory_le.trans (Nat.add_le_add_left (by decide) _)

/-- No instruction takes more memory than making an object. -/
theorem usedMemory_exec_le (m : Machine) (op : Op) : (m.exec op).1.usedMemory ≤ m.usedMemory + 80 := by
  cases op with
  | makeTuple k => exact (usedMemory_makeTuple_le m _).trans (Nat.add_le_add_left (by decide) _)
  | makeObject shape => exact usedMemory_makeObject_le m shape
  | makeArray k => exact (usedMemory_makeArray_le m _).trans (Nat.add_le_add_left (by decide) _)
  | line k | loop body | tick body => exact Nat.le_add_right _ _
  | file id =>
    simp only [exec]
    split <;> exact Nat.le_add_right _ _
  | discard =>
    simp only [exec]
    split
    · exact Nat.le_add_right _ _
    · next v rest hm => exact (grows_dropped _ (by simp [hm])).mono.usedMemory_le_one
  | pushNull | pushInt k | pushFloat bits => exact (grows_push m _).usedMemory_le_one
  | pushText id =>
    simp only [exec]
    split
    · exact (grows_push m _).usedMemory_le_one
    · exact Nat.le_add_right _ _
  | tupleMember i => exact (grows_tupleMember m _).mono.usedMemory_le_one
  | objectMember id => exact (grows_objectMember m id).mono.usedMemory_le_one
  | element => exact (grows_element m).mono.usedMemory_le_one
  | loadGlobal slot => exact (grows_loadGlobal m _).usedMemory_le_one
  | loadLocal slot => exact (grows_loadLocal m _).usedMemory_le_one
  | unary op => exact (grows_unary m op).mono.usedMemory_le_one
  | binary op => exact (grows_binary m op).mono.usedMemory_le_one
  | storeGlobal slot => exact (grows_storeGlobal m _).mono.usedMemory_le_one
  | pushLocal => exact (grows_pushLocal m).mono.usedMemory_le_one
  | storeLocal slot => exact (grows_storeLocal m _).mono.usedMemory_le_one
  | storeMember id => exact (grows_storeMember m id).mono.usedMemory_le_one
  | storeElement => exact (grows_storeElement m).mono.usedMemory_le_one
  | branch yes no => exact (grows_branch m yes no).mono.usedMemory_le_one
  | continueLoop => exact (grows_continueLoop m).usedMemory_le_one
  | breakLoop => exact (grows_breakLoop m).mono.usedMemory_le_one
  | call id => exact (grows_call m id).mono.usedMemory_le_one
  | callBuiltin id => exact (grows_callBuiltin m id).mono.usedMemory_le_one
  | giveBack => exact (grows_giveBack m).usedMemory_le_one

/-- Nor does anything else that runs next. -/
theorem usedMemory_execNext_le (m : Machine) : m.execNext.1.usedMemory ≤ m.usedMemory + 80 := by
  cases m.nextCase with
  | nothing _ hx => exact hx ▸ Nat.le_add_right _ _
  | leaves _ _ _ _ hx => exact hx ▸ (grows_endFrame m).usedMemory_le_one
  | runs f frames op rest _ _ hx =>
    exact hx ▸ usedMemory_exec_le { m with frames := { f with rest } :: frames } op

/-- The next step runs an instruction or leaves a body. It is paid for then, and only then. -/
def Executes (m : Machine) : Prop := m.spent < m.step.1.spent

/-- What a machine needs for its next step to do something. -/
theorem executes_iff (m : Machine) :
    m.Executes ↔
      m.phase = .running ∧ m.spent < m.limits.instructions ∧ m.usedMemory ≤ m.limits.memory := by
  have hstill {m' : Machine} {status : Status} (hs : m.step = (m', status)) (he : m'.spent = m.spent) :
      ¬ m.Executes := by
    unfold Executes
    rw [hs, he]
    exact Nat.lt_irrefl _
  cases m.stepCase with
  | complete hp hs | faulted _ hp hs | unanswered hp hs =>
    exact iff_of_false (hstill hs rfl) fun h => nomatch hp.symm.trans h.1
  | unpaid _ hb hs => exact iff_of_false (hstill hs rfl) fun h => absurd h.2.1 (Nat.not_lt.2 hb)
  | overfull _ _ hu hs => exact iff_of_false (hstill hs rfl) fun h => absurd h.2.2 (Nat.not_le.2 hu)
  | made hp hb hu hs =>
    refine iff_of_true ?_ ⟨hp, hb, hu⟩
    unfold Executes
    rw [hs]
    exact spent_le_execNext { m with spent := m.spent + 1 }

/-- Nor does a step. -/
theorem usedMemory_step_le (h : m.Executes) : m.step.1.usedMemory ≤ m.usedMemory + 80 := by
  obtain ⟨hp, hb, hu⟩ := m.executes_iff.1 h
  rw [step_of_running hp (Nat.not_le.2 hb), if_neg (Nat.not_lt.2 hu)]
  exact usedMemory_execNext_le { m with spent := m.spent + 1 }

/-! ## Too much memory in use -/

/-- A machine with too much memory in use fails when it could make a step. -/
theorem step_of_exceeded (h : m.limits.memory < m.usedMemory) (hp : m.phase = .running)
    (hb : m.spent < m.limits.instructions) : m.step = m.stop .memoryExceeded := by
  rw [step_of_running hp (Nat.not_le.2 hb), if_pos h]

/-- Whether a host only lets the machine run. -/
def Deed.isRun : Deed → Bool
  | .startTick | .step | .stepBatch => true
  | .pushResult _ | .touch _ _ => false

/-- The machine has done nothing since: its memory and its place are the same. -/
structure Idle (m m' : Machine) : Prop where
  still : Standstill m m'
  heap : m'.heap = m.heap
  limits : m'.limits = m.limits

/-- A machine that has done nothing since is still above its limit. -/
theorem Idle.exceeded (h : Idle m m') (hm : m.limits.memory < m.usedMemory) :
    m'.limits.memory < m'.usedMemory := by
  unfold usedMemory
  rw [h.limits, h.heap, h.still.operands, h.still.locals, h.still.globals]
  exact hm

theorem Idle.refl (m : Machine) : Idle m m := ⟨⟨rfl, rfl, rfl, rfl, rfl, rfl⟩, rfl, rfl⟩

/-- Above its limit a machine does nothing. -/
theorem Idle.step (h : Idle m m') (hm : m.limits.memory < m.usedMemory) : Idle m m'.step.1 := by
  have hs := h.still
  have hsame (phase : Phase) : Idle m { m' with phase } :=
    ⟨⟨hs.operands, hs.locals, hs.globals, hs.frames, hs.calls, hs.location⟩, h.heap, h.limits⟩
  cases m'.stepCase with
  | complete _ he | faulted _ _ he | unpaid _ _ he => exact he ▸ h
  | unanswered _ he | overfull _ _ _ he => exact he ▸ hsame _
  | made _ _ hu => exact absurd (h.exceeded hm) (Nat.not_lt.2 hu)

/-- However long the host lets it run. -/
theorem Idle.after (hm : m.limits.memory < m.usedMemory) {deeds : List Deed}
    (hdeeds : ∀ d ∈ deeds, d.isRun) : Idle m (m.after deeds) := by
  have hrun {m' : Machine} (h : Idle m m') {d : Deed} (hd : d.isRun) : Idle m (m'.perform d) := by
    cases d with
    | startTick =>
      have hs := h.still
      exact ⟨⟨hs.operands, hs.locals, hs.globals, hs.frames, hs.calls, hs.location⟩, h.heap, h.limits⟩
    | step => exact h.step hm
    | stepBatch => exact stepBatch_induction (P := Idle m) (fun _ h' => h'.step hm) h
    | pushResult v | touch heap log => exact nomatch hd
  have hall {m' : Machine} (h : Idle m m') : Idle m (m'.after deeds) := by
    induction deeds generalizing m' with
    | nil => exact h
    | cons d deeds ih =>
      obtain ⟨hd, hdeeds⟩ := List.forall_mem_cons.1 hdeeds
      exact ih hdeeds (hrun h hd)
  exact hall (.refl m)

/-- **The memory limit holds up to one cell.** Whatever bytes a machine was loaded from, and whatever its
host has done with it since: a step that does something starts within the limit, and ends with at most 80
bytes more than the limit in use, whether it fails or not. As long as the limit is exceeded and the host
only lets the machine run, no step does anything, and the first that could be paid for fails for the
memory. -/
theorem memory_limit_enforced {bytes : List UInt8} {limits : Limits} {m₀ m : Machine} (deeds : List Deed)
    (hload : load bytes limits = .ok m₀) (hm : m₀.after deeds = m) :
    (m.Executes → m.usedMemory ≤ limits.memory ∧ m.step.1.usedMemory ≤ limits.memory + 80) ∧
      (limits.memory < m.usedMemory → ∀ later : List Deed, (∀ d ∈ later, d.isRun) →
        ∀ m', m.after later = m' →
          Idle m m' ∧ ¬ m'.Executes ∧
            (m'.phase = .running → m'.spent < limits.instructions →
              ∃ f, m'.step = (m'.fail f, .fault f) ∧ f.cause = .memoryExceeded)) := by
  obtain ⟨image, shapes, -, -, rfl⟩ := Machine.load_eq_ok.1 hload
  have hlimits : m.limits = limits := by
    rw [← hm]
    refine after_induction (P := fun m => m.limits = limits) ?_ rfl deeds
    exact fun m' d h => (program_perform m' d).2.trans h
  subst hlimits
  constructor
  · intro hx
    have hu := (m.executes_iff.1 hx).2.2
    exact ⟨hu, (usedMemory_step_le hx).trans (Nat.add_le_add_right hu 80)⟩
  · rintro hover later hrun m' rfl
    have hidle := Idle.after hover hrun
    have hover' := hidle.exceeded hover
    refine ⟨hidle, ?_, ?_⟩
    · intro hx
      exact absurd ((executes_iff _).1 hx).2.2 (Nat.not_le.2 hover')
    · intro hp hb
      rw [← hidle.limits] at hb
      exact ⟨_, step_of_exceeded hover' hp hb, rfl⟩

/-- An object without members on a machine without memory: its step takes all that a step can take, and
the program fails at the step after it, whether in this tick or in the next. -/
theorem memory_limit_enforced_object :
    ∃ m₀, load (Image.link ⟨[], [], [], [.makeObject []]⟩).encode ⟨1, 0, 32, 4⟩ = .ok m₀ ∧
      m₀.Executes ∧ m₀.step.1.usedMemory = 80 ∧
      ∃ f, ((m₀.after [.step]).after [.step, .startTick]).step.2 = .fault f ∧ f.cause = .memoryExceeded := by
  have hload : load (Image.link ⟨[], [], [], [.makeObject []]⟩).encode ⟨1, 0, 32, 4⟩ =
      .ok (.start (Image.link ⟨[], [], [], [.makeObject []]⟩) [[]] ⟨1, 0, 32, 4⟩) := by
    unfold load
    rw [Image.decode_encode (Image.fits_of_length_encode (by decide +kernel))]
    rfl
  refine ⟨_, hload, by unfold Executes; decide +kernel, by decide +kernel, ?_⟩
  have henforced := (memory_limit_enforced [.step] hload rfl).2 (by decide +kernel)
    [.step, .startTick] (by decide) _ rfl
  obtain ⟨-, -, hfails⟩ := henforced
  obtain ⟨f, hstep, hf⟩ := hfails (by cbv) (by decide +kernel)
  exact ⟨f, congrArg Prod.snd hstep, hf⟩

end Machine

end TickScript
