import TickScript.Proofs.Machine.Metering
import TickScript.Proofs.Program.Flow
import TickScript.Proofs.Value.Operators

/-!
# Machines that never meet an internal cause

A machine stops for an internal cause when an instruction finds too few operands, a slot or a number
that is in no table, or a loop or function that it does not stand in. None of this happens to a machine
whose code is in order (`Machine.Sound`): what is left of every frame's pass leads from the operands
and locals that are there to an end without operands, and the frames below go on from what is left to
them when the frame on top is gone.

Every step keeps this, whatever the limits are and whatever the host answers (`Machine.good_step`).
-/

namespace TickScript

/-- What the code of a loaded image may mention. -/
def Image.site (image : Image) (shapes : List (List String)) (inFunction inLoop : Bool) :
    Site UInt32 UInt32 where
  hasText id := (image.text? id).isSome
  members? id := shapes[id.toNat]?.map List.length
  globals := image.program.globals.length
  functionArity? id := image.program.functions[id.toNat]?.map fun f => f.arity.toNat
  builtinArity? id := image.program.builtins[id.toNat]?.map fun b => b.arity.toNat
  inFunction := inFunction
  inLoop := inLoop

/-- The functions of an image are in order, and have names. -/
structure Image.Ordered (image : Image) (shapes : List (List String)) : Prop where
  bodies : ∀ f ∈ image.program.functions,
    Depth.isClosed (flowInstrs (image.site shapes true false) ⟨f.arity.toNat, 0⟩ f.body)
  names : ∀ f ∈ image.program.functions, (image.text? f.name).isSome

namespace Machine

/-! ## Frames -/

/-- What the frame on top stands in: a function, a loop, and how many locals are not its function's. -/
structure Standing where
  inFunction : Bool
  inLoop : Bool
  floor : Nat

/-- What the frame on top stands in. -/
def standing : List Frame → Standing
  | [] => ⟨false, false, 0⟩
  | f :: frames =>
    match f.kind with
    | .top => { standing frames with inFunction := false, inLoop := false }
    | .function => ⟨true, false, f.base⟩
    | .loop => { standing frames with inLoop := true }
    | .tick => { standing frames with inLoop := true }
    | .branch => standing frames

/-- What the frame on top may mention. -/
def siteOf (image : Image) (shapes : List (List String)) (frames : List Frame) :
    Site UInt32 UInt32 :=
  image.site shapes (standing frames).inFunction (standing frames).inLoop

/-- The frames are in order: `own` operands belong to the running function, `below` to those that wait
for it, and there are `n` locals. -/
def Runs (image : Image) (shapes : List (List String)) : List Frame → Nat → Nat → Nat → Prop
  | [], _, _, _ => False
  | f :: frames, own, below, n =>
    Depth.isClosed (flowInstrs (siteOf image shapes (f :: frames))
      ⟨own, n - (standing (f :: frames)).floor⟩ f.rest) ∧
    (standing (f :: frames)).floor ≤ f.base ∧ f.base ≤ n ∧
    match f.kind with
    -- Nothing waits for the body of the program.
    | .top => below = 0
    -- A body ends without operands of its own, so what waits for it has none either.
    | .branch => Runs image shapes frames 0 below f.base
    | .loop | .tick =>
      Depth.isClosed (flowInstrs (siteOf image shapes (f :: frames))
        ⟨0, f.base - (standing (f :: frames)).floor⟩ f.body) ∧
      Runs image shapes frames 0 below f.base
    -- A function leaves its result to what waits for it.
    | .function =>
      ∃ own' below', below = own' + below' ∧ Runs image shapes frames (own' + 1) below' f.base

/-- What a machine in a phase needs in order not to meet an internal cause. -/
def Stands (m : Machine) : Prop :=
  match m.phase with
  | .running => ∃ own below, m.operands.length = own + below ∧
      Runs m.image m.shapes m.frames own below m.locals.length
  | .awaiting => ∃ own below, m.operands.length = own + below ∧
      Runs m.image m.shapes m.frames (own + 1) below m.locals.length
  | .complete => True
  | .faulted f => f.cause.isInternal = false

/-- A machine that never meets an internal cause. -/
structure Sound (m : Machine) : Prop where
  ordered : m.image.Ordered m.shapes
  globals : m.globals.length = m.image.program.globals.length
  stands : m.Stands

/-- What a step of a sound machine comes to: the machine stays sound, a fault is not internal, a call of
the host has as many arguments as the program says, and the machine waits for its host only after a
call. -/
structure Good (m : Machine) (result : Machine × Status) : Prop where
  sound : result.1.Sound
  image : result.1.image = m.image
  shapes : result.1.shapes = m.shapes
  fault : ∀ f, result.2 = .fault f → f.cause.isInternal = false
  request : ∀ id args, result.2 = .request id args → result.1.phase = .awaiting ∧
    ∃ b, m.image.program.builtins[id.toNat]? = some b ∧ args.length = b.arity.toNat
  awaits : result.1.phase = .awaiting → ∃ id args, result.2 = .request id args

/-- Machines of one program in one phase, with as many globals. -/
structure Akin (m m' : Machine) : Prop where
  image : m'.image = m.image
  shapes : m'.shapes = m.shapes
  globals : m'.globals.length = m.globals.length
  phase : m'.phase = m.phase

namespace Akin

theorem refl (m : Machine) : Akin m m := ⟨rfl, rfl, rfl, rfl⟩

end Akin

/-- Machines at one place of one program, with as many locals. -/
structure Beside (m m' : Machine) : Prop where
  image : m'.image = m.image
  shapes : m'.shapes = m.shapes
  globals : m'.globals.length = m.globals.length
  phase : m'.phase = m.phase
  frames : m'.frames = m.frames
  locals : m'.locals.length = m.locals.length

/-- A running machine of a program in order. -/
structure Alive (m : Machine) : Prop where
  ordered : m.image.Ordered m.shapes
  globals : m.globals.length = m.image.program.globals.length
  phase : m.phase = .running

/-- A machine about to run an instruction that leads from `own` operands to the depth `d`, where the
frame on top goes on. -/
structure Ready (m : Machine) (own below : Nat) (d : Depth) : Prop extends Alive m where
  operands : m.operands.length = own + below
  floor : (standing m.frames).floor ≤ m.locals.length
  runs : Runs m.image m.shapes m.frames d.operands below (d.locals + (standing m.frames).floor)

/-- The depth that an instruction starts from. -/
def depth (m : Machine) (own : Nat) : Depth := ⟨own, m.locals.length - (standing m.frames).floor⟩

/-- What the frame on top may mention. -/
def site (m : Machine) : Site UInt32 UInt32 := siteOf m.image m.shapes m.frames

namespace Alive

variable {m m' : Machine}

/-- A cause that is not internal is a good way to stop. -/
theorem stop {cause : Cause} (h : Alive m) (hk : Akin m m')
    (hc : cause.isInternal = false) : Good m (m'.stop cause) where
  sound := by
    refine ⟨?_, ?_, hc⟩
    · change m'.image.Ordered m'.shapes
      rw [hk.image, hk.shapes]
      exact h.ordered
    · change m'.globals.length = m'.image.program.globals.length
      rw [hk.globals, hk.image]
      exact h.globals
  image := hk.image
  shapes := hk.shapes
  fault := by
    intro f hf
    cases hf
    exact hc
  request := by
    intro id args hr
    exact nomatch hr
  awaits := by
    intro hp
    exact nomatch hp

/-- The machine goes on with frames that are in order. -/
theorem proceed {status : Status} (h : Alive m) (own below : Nat) (hk : Akin m m')
    (ho : m'.operands.length = own + below)
    (hr : Runs m.image m.shapes m'.frames own below m'.locals.length)
    (hs : status = .running ∨ status = .yielded) : Good m (m', status) where
  sound := by
    refine ⟨?_, ?_, ?_⟩
    · change m'.image.Ordered m'.shapes
      rw [hk.image, hk.shapes]
      exact h.ordered
    · change m'.globals.length = m'.image.program.globals.length
      rw [hk.globals, hk.image]
      exact h.globals
    · unfold Stands
      dsimp only
      rw [hk.phase, h.phase, hk.image, hk.shapes]
      exact ⟨own, below, ho, hr⟩
  image := hk.image
  shapes := hk.shapes
  fault := by
    intro f hf
    rcases hs with rfl | rfl <;> exact nomatch hf
  request := by
    intro id args hf
    rcases hs with rfl | rfl <;> exact nomatch hf
  awaits := by
    intro hp
    exact nomatch (hk.phase.trans h.phase).symm.trans hp

end Alive

/-- The machine goes on in the frame it was in. -/
theorem Ready.go {m m' : Machine} {own below : Nat} {d : Depth} (h : Ready m own below d)
    (hk : Akin m m') (hf : m'.frames = m.frames) (ho : m'.operands.length = d.operands + below)
    (hl : m'.locals.length = d.locals + (standing m.frames).floor) : Good m m'.go := by
  refine h.proceed d.operands below hk ho ?_ (.inl rfl)
  rw [hf, hl]
  exact h.runs

/-! ## Instructions inside a frame -/

/-- Where there are enough operands they can be taken. -/
theorem takeOperands_of_le (n : Nat) (operands : List Value) (h : n ≤ operands.length) :
    ∃ args rest, takeOperands n operands = some (args, rest) ∧ args.length = n ∧
      rest.length = operands.length - n := by
  refine ⟨(operands.take n).reverse, operands.drop n, if_pos h, ?_, List.length_drop⟩
  rw [List.length_reverse, List.length_take, Nat.min_eq_left h]

section Instructions

variable {m : Machine} {own below : Nat} {d : Depth}

namespace Ready

/-- There is an operand to take. -/
theorem operand (h : Ready m own below d) (hn : 1 ≤ own) :
    ∃ v rest, m.operands = v :: rest ∧ rest.length = own - 1 + below := by
  have ho := h.operands
  cases hm : m.operands with
  | nil =>
    rw [hm, List.length_nil] at ho
    omega
  | cons v rest =>
    rw [hm, List.length_cons] at ho
    exact ⟨v, rest, rfl, by omega⟩

/-- There are two operands to take. -/
theorem operands₂ (h : Ready m own below d) (hn : 2 ≤ own) :
    ∃ v w rest, m.operands = v :: w :: rest ∧ rest.length = own - 2 + below := by
  obtain ⟨v, rest, hv, hl⟩ := h.operand (by omega)
  cases rest with
  | nil =>
    rw [List.length_nil] at hl
    omega
  | cons w rest =>
    rw [List.length_cons] at hl
    exact ⟨v, w, rest, hv, by omega⟩

/-- The locals of the running function are those above the floor. -/
theorem locals (h : Ready m own below d) :
    m.locals.length = (m.depth own).locals + (standing m.frames).floor :=
  (Nat.sub_add_cancel h.floor).symm

/-- The machine goes on in the frame it was in, with other operands. -/
theorem swapped {taken given : Nat} {m' : Machine} (h : Ready m own below d)
    (hd : (m.depth own).swap taken given = some d) (hb : Beside m m')
    (ho : m'.operands.length = own - taken + given + below) : Good m m'.go := by
  obtain ⟨-, rfl⟩ := Depth.swap_eq_some hd
  exact h.go ⟨hb.image, hb.shapes, hb.globals, hb.phase⟩ hb.frames ho (hb.locals.trans h.locals)

end Ready

/-- A tuple finds its items. -/
theorem good_makeTuple (h : Ready m own below d) {n : Nat} (hd : (m.depth own).swap n 1 = some d) :
    Good m (m.makeTuple n) := by
  have hn : n ≤ own := (Depth.swap_eq_some hd).1
  obtain ⟨args, rest, ht, -, hl⟩ := takeOperands_of_le n m.operands
    (by rw [h.operands]; omega)
  have ho := h.operands
  unfold makeTuple
  rw [ht]
  dsimp only
  split
  · exact h.stop (by constructor <;> rfl) (by rfl)
  · refine h.swapped hd (by constructor <;> rfl) ?_
    simp only [push, List.length_cons]
    omega

/-- So does an array. -/
theorem good_makeArray (h : Ready m own below d) {n : Nat} (hd : (m.depth own).swap n 1 = some d) :
    Good m (m.makeArray n) := by
  have hn : n ≤ own := (Depth.swap_eq_some hd).1
  obtain ⟨args, rest, ht, -, hl⟩ := takeOperands_of_le n m.operands
    (by rw [h.operands]; omega)
  have ho := h.operands
  unfold makeArray
  rw [ht]
  split
  · exact h.stop (by constructor <;> rfl) (by rfl)
  · refine h.swapped hd (by constructor <;> rfl) ?_
    simp only [push, List.length_cons]
    omega

/-- An object finds its shape, and a value for each of its names. -/
theorem good_makeObject (h : Ready m own below d) {shape : UInt32}
    (hd : (m.site.members? shape).bind ((m.depth own).swap · 1) = some d) :
    Good m (m.makeObject shape) := by
  obtain ⟨n, hm, hd⟩ := Option.bind_eq_some_iff.1 hd
  obtain ⟨names, hs, rfl⟩ := Option.map_eq_some_iff.1 hm
  have hn : names.length ≤ own := (Depth.swap_eq_some hd).1
  obtain ⟨args, rest, ht, -, hl⟩ := takeOperands_of_le names.length m.operands
    (by rw [h.operands]; omega)
  have ho := h.operands
  unfold makeObject
  rw [hs]
  dsimp only
  rw [ht]
  refine h.swapped hd (by constructor <;> rfl) ?_
  simp only [push, List.length_cons]
  omega

/-- A value that is no tuple, or has no such part, is the script's own failure. -/
theorem good_tupleMember (h : Ready m own below d) (i : Nat)
    (hd : (m.depth own).swap 1 1 = some d) : Good m (m.tupleMember i) := by
  obtain ⟨v, rest, hv, hl⟩ := h.operand (Depth.swap_eq_some hd).1
  unfold tupleMember
  rw [hv]
  dsimp only
  split
  · split
    · refine h.swapped hd (by constructor <;> rfl) ?_
      simp only [replaceTop, List.length_cons]
      omega
    · exact h.stop (by constructor <;> rfl) (by rfl)
  · exact h.stop (by constructor <;> rfl) (by rfl)

/-- The name of a member is a text of the image. -/
theorem good_objectMember (h : Ready m own below d) {id : UInt32} (ht : m.site.hasText id)
    (hd : (m.depth own).swap 1 1 = some d) : Good m (m.objectMember id) := by
  obtain ⟨called, hc⟩ := Option.isSome_iff_exists.1 ht
  obtain ⟨v, rest, hv, hl⟩ := h.operand (Depth.swap_eq_some hd).1
  unfold objectMember
  rw [hc, hv]
  dsimp only
  split
  · split
    · refine h.swapped hd (by constructor <;> rfl) ?_
      simp only [replaceTop, List.length_cons]
      omega
    · exact h.stop (by constructor <;> rfl) (by rfl)
  · exact h.stop (by constructor <;> rfl) (by rfl)

/-- There are an array and an index to be found, whatever they are. -/
theorem good_element (h : Ready m own below d) (hd : (m.depth own).swap 2 1 = some d) :
    Good m m.element := by
  obtain ⟨v, w, rest, hv, hl⟩ := h.operands₂ (Depth.swap_eq_some hd).1
  unfold element
  rw [hv]
  split
  · next he => exact nomatch he
  · next i below' he =>
    cases he
    dsimp only
    split
    · split
      · refine h.swapped hd (by constructor <;> rfl) ?_
        simp only [replaceTop, List.length_cons]
        omega
      · exact h.stop (by constructor <;> rfl) (by rfl)
    · exact h.stop (by constructor <;> rfl) (by rfl)
  · exact h.stop (by constructor <;> rfl) (by rfl)

/-- An operand that an operator refuses is the script's own failure. -/
theorem good_unary (h : Ready m own below d) (op : UnaryOp)
    (hd : (m.depth own).swap 1 1 = some d) : Good m (m.unary op) := by
  obtain ⟨v, rest, hv, hl⟩ := h.operand (Depth.swap_eq_some hd).1
  unfold unary
  rw [hv]
  dsimp only
  split
  · refine h.swapped hd (by constructor <;> rfl) ?_
    simp only [replaceTop, List.length_cons]
    omega
  · next cause he => exact h.stop (by constructor <;> rfl) (isInternal_unary he)

/-- So are two. -/
theorem good_binary (h : Ready m own below d) (op : BinaryOp)
    (hd : (m.depth own).swap 2 1 = some d) : Good m (m.binary op) := by
  obtain ⟨v, w, rest, hv, hl⟩ := h.operands₂ (Depth.swap_eq_some hd).1
  unfold binary
  rw [hv]
  dsimp only
  split
  · refine h.swapped hd (by constructor <;> rfl) ?_
    simp only [List.length_cons]
    omega
  · next cause he => exact h.stop (by constructor <;> rfl) (isInternal_binary he)

/-! ## Variables -/

/-- The locals that are not the function's own are those below its frame. -/
theorem callerLocals_eq (m : Machine) : m.callerLocals = (standing m.frames).floor := by
  unfold callerLocals
  induction m.frames with
  | nil => rfl
  | cons f frames ih =>
    rw [List.find?_cons, standing]
    cases hk : f.kind with
    | function => rfl
    | _ => exact ih

/-- A slot of the running function is a local that it owns. -/
theorem Ready.slot (h : Ready m own below d) {slot : Nat} (hs : slot < (m.depth own).locals) :
    (∃ v, m.locals[slot]? = some v) ∧ m.ownsLocal slot := by
  have hl := h.locals
  refine ⟨⟨m.locals.get ⟨slot, by omega⟩, List.getElem?_eq_getElem (by omega)⟩, ?_⟩
  unfold ownsLocal
  rw [callerLocals_eq]
  exact decide_eq_true (by omega)

/-- A global that is loaded exists. -/
theorem good_loadGlobal (h : Ready m own below d) {slot : Nat} (hs : slot < m.site.globals)
    (hd : (m.depth own).swap 0 1 = some d) : Good m (m.loadGlobal slot) := by
  have hg : slot < m.globals.length := by
    rw [h.globals]
    exact hs
  have ho := h.operands
  unfold loadGlobal
  rw [List.getElem?_eq_getElem hg]
  refine h.swapped hd (by constructor <;> rfl) ?_
  simp only [pushCopy, List.length_cons]
  omega

/-- A local that is loaded was declared. -/
theorem good_loadLocal (h : Ready m own below d) {slot : Nat} (hs : slot < (m.depth own).locals)
    (hd : (m.depth own).swap 0 1 = some d) : Good m (m.loadLocal slot) := by
  obtain ⟨⟨v, hv⟩, howns⟩ := h.slot hs
  have ho := h.operands
  unfold loadLocal
  rw [hv]
  dsimp only
  rw [if_pos howns]
  refine h.swapped hd (by constructor <;> rfl) ?_
  simp only [pushCopy, List.length_cons]
  omega

/-- A global that is stored to exists. -/
theorem good_storeGlobal (h : Ready m own below d) {slot : Nat} (hs : slot < m.site.globals)
    (hd : (m.depth own).swap 1 0 = some d) : Good m (m.storeGlobal slot) := by
  have hg : slot < m.globals.length := by
    rw [h.globals]
    exact hs
  obtain ⟨v, rest, hv, hl⟩ := h.operand (Depth.swap_eq_some hd).1
  unfold storeGlobal
  rw [hv, List.getElem?_eq_getElem hg]
  refine h.swapped hd ⟨rfl, rfl, List.length_set, rfl, rfl, rfl⟩ ?_
  simp only [dropped]
  omega

/-- A local that is declared finds its value. -/
theorem good_pushLocal (h : Ready m own below d)
    (hd : ((m.depth own).swap 1 0).map Depth.declare = some d) : Good m m.pushLocal := by
  obtain ⟨d', hd', rfl⟩ := Option.map_eq_some_iff.1 hd
  obtain ⟨hn, rfl⟩ := Depth.swap_eq_some hd'
  obtain ⟨v, rest, hv, hl⟩ := h.operand hn
  have hlocals := h.locals
  unfold pushLocal
  rw [hv]
  refine h.go ?_ ?_ ?_ ?_
  · constructor <;> rfl
  · rfl
  · exact hl
  · simp only [List.length_cons, Depth.declare]
    omega

/-- A local that is stored to was declared. -/
theorem good_storeLocal (h : Ready m own below d) {slot : Nat} (hs : slot < (m.depth own).locals)
    (hd : (m.depth own).swap 1 0 = some d) : Good m (m.storeLocal slot) := by
  obtain ⟨⟨old, hold⟩, howns⟩ := h.slot hs
  obtain ⟨v, rest, hv, hl⟩ := h.operand (Depth.swap_eq_some hd).1
  unfold storeLocal
  rw [hv, hold]
  dsimp only
  rw [if_pos howns]
  refine h.swapped hd ⟨rfl, rfl, rfl, rfl, rfl, List.length_set⟩ ?_
  simp only [dropped]
  omega

/-- An object and a value are there, and the name is a text of the image. -/
theorem good_storeMember (h : Ready m own below d) {id : UInt32} (ht : m.site.hasText id)
    (hd : (m.depth own).swap 2 0 = some d) : Good m (m.storeMember id) := by
  obtain ⟨called, hc⟩ := Option.isSome_iff_exists.1 ht
  obtain ⟨v, w, rest, hv, hl⟩ := h.operands₂ (Depth.swap_eq_some hd).1
  unfold storeMember
  rw [hv, hc]
  dsimp only
  split
  · split
    · exact h.swapped hd (by constructor <;> rfl) hl
    · exact h.stop (by constructor <;> rfl) (by rfl)
  · exact h.stop (by constructor <;> rfl) (by rfl)

/-- An array, an index and a value are there, whatever they are. -/
theorem good_storeElement (h : Ready m own below d) (hd : (m.depth own).swap 3 0 = some d) :
    Good m m.storeElement := by
  have hn : 3 ≤ own := (Depth.swap_eq_some hd).1
  obtain ⟨v, w, rest, hv, hl⟩ := h.operands₂ (by omega)
  unfold storeElement
  rw [hv]
  split
  · next he => exact nomatch he
  · next he => exact nomatch he
  · next v' i below' he =>
    cases he
    cases rest with
    | nil =>
      rw [List.length_nil] at hl
      omega
    | cons target rest =>
      dsimp only
      rw [List.length_cons] at hl
      split
      · split
        · refine h.swapped hd (by constructor <;> rfl) ?_
          dsimp only
          omega
        · exact h.stop (by constructor <;> rfl) (by rfl)
      · exact h.stop (by constructor <;> rfl) (by rfl)
  · exact h.stop (by constructor <;> rfl) (by rfl)

/-! ## Entering and leaving bodies -/

/-- A condition is there, and both blocks are in order. -/
theorem good_branch (h : Ready m own below d) {yes no : List Op}
    (hd : (Instr.branch yes no).flow m.site (m.depth own) = some d) : Good m (m.branch yes no) := by
  rw [Instr.flow] at hd
  split at hd
  · next hc =>
    obtain ⟨hone, hyes, hno⟩ := hc
    cases hd
    have hone : own = 1 := hone
    obtain ⟨v, rest, hv, hl⟩ := h.operand (by omega)
    have hlocals := h.locals
    have hruns := h.runs
    rw [← hlocals] at hruns
    unfold branch
    rw [hv]
    dsimp only
    generalize hbody : (if v.isTruthy = true then yes else no) = body
    split
    · refine h.proceed 0 below ?_ ?_ hruns (.inl rfl)
      · constructor <;> rfl
      · simp only [dropped]
        omega
    · refine h.proceed 0 below ?_ ?_ ⟨?_, h.floor, Nat.le_refl _, hruns⟩ (.inl rfl)
      · constructor <;> rfl
      · simp only [enter, dropped]
        omega
      · rw [← hbody]
        cases v.isTruthy with
        | true => exact hyes
        | false => exact hno
  · cases hd

/-- The body of a loop starts without operands, and ends so. -/
theorem good_enter (h : Ready m own below d) {kind : FrameKind} {body : List Op}
    (hk : kind = .loop ∨ kind = .tick)
    (hd : (if (m.depth own).operands = 0 ∧
      Depth.isClosed (flowInstrs m.site.looped (m.depth own) body) then some (m.depth own)
        else none) = some d) : Good m (m.enter kind body).go := by
  split at hd
  · next hc =>
    obtain ⟨hzero, hbody⟩ := hc
    cases hd
    have hzero : own = 0 := hzero
    subst hzero
    have hruns := h.runs
    rw [← h.locals] at hruns
    refine h.proceed 0 below ?_ h.operands ?_ (.inl rfl)
    · constructor <;> rfl
    rcases hk with rfl | rfl
    · exact ⟨hbody, h.floor, Nat.le_refl _, hbody, hruns⟩
    · exact ⟨hbody, h.floor, Nat.le_refl _, hbody, hruns⟩
  · cases hd

/-- As many locals are left as there were when the frame began. -/
theorem length_locals_truncate {m : Machine} {base : Nat} (h : base ≤ m.locals.length) :
    (m.truncate base).locals.length = base := by
  simp only [truncate, List.length_drop]
  omega

/-- A loop that is in order is so from the start of its next pass. -/
theorem Runs.restart {image : Image} {shapes : List (List String)} {f : Frame} {frames : List Frame}
    {n : Nat} (h : Runs image shapes (f :: frames) 0 below n) (hk : f.kind = .loop ∨ f.kind = .tick) :
    Runs image shapes ({ f with rest := f.body } :: frames) 0 below f.base := by
  obtain ⟨kind, body, rest, base⟩ := f
  rcases hk with rfl | rfl
  · exact ⟨h.2.2.2.1, h.2.1, Nat.le_refl _, h.2.2.2⟩
  · exact ⟨h.2.2.2.1, h.2.1, Nat.le_refl _, h.2.2.2⟩

/-- A result goes to what waits for the function. -/
theorem good_return (h : Alive m) (m' : Machine) {v : Value} {own' below' : Nat} (hk : Akin m m')
    (ho : m'.operands.length = own' + below')
    (hr : Runs m.image m.shapes m'.frames (own' + 1) below' m'.locals.length) :
    Good m (m'.returnToCaller.push v).go := by
  obtain ⟨calls, location, he⟩ := returnToCaller_eq m'
  rw [he]
  refine h.proceed (own' + 1) below' ⟨hk.image, hk.shapes, hk.globals, hk.phase⟩ ?_ hr (.inl rfl)
  simp only [push, List.length_cons]
  omega

/-- The end of a body whose operands are used up. -/
theorem good_endFrame (h : Alive m) (ho : m.operands.length = below)
    (hr : Runs m.image m.shapes m.frames 0 below m.locals.length) : Good m m.endFrame := by
  unfold endFrame
  cases hm : m.frames with
  | nil =>
    rw [hm] at hr
    exact hr.elim
  | cons f frames =>
    rw [hm] at hr
    obtain ⟨-, -, hbase, hkind⟩ := id hr
    have hlen := length_locals_truncate hbase
    have ho' : m.operands.length = 0 + below := ho.trans (Nat.zero_add below).symm
    dsimp only
    -- What comes next depends on what kind of frame ended.
    cases hk : f.kind with
    | top =>
      exact ⟨⟨h.ordered, h.globals, trivial⟩, rfl, rfl, fun _ hf => (nomatch hf),
        fun _ _ hf => (nomatch hf), fun hp => (nomatch hp)⟩
    | branch =>
      rw [hk] at hkind
      refine h.proceed 0 below ?_ ho' ?_ (.inl rfl)
      · constructor <;> rfl
      · dsimp only
        rw [hlen]
        exact hkind
    | loop =>
      refine h.proceed 0 below ?_ ho' ?_ (.inl rfl)
      · constructor <;> rfl
      · dsimp only
        rw [hlen]
        exact hk ▸ hr.restart (.inl hk)
    | tick =>
      refine h.proceed 0 below ?_ ho' ?_ (.inr rfl)
      · constructor <;> rfl
      · dsimp only
        rw [hlen]
        exact hk ▸ hr.restart (.inr hk)
    | function =>
      rw [hk] at hkind
      obtain ⟨own', below', rfl, hr'⟩ := hkind
      refine good_return h { m.truncate f.base with frames } ?_ ho ?_
      · constructor <;> rfl
      · dsimp only
        rw [hlen]
        exact hr'

/-- Leaving branches leads to the loop they stand in. -/
theorem runs_leaveBranches {image : Image} {shapes : List (List String)} {frames : List Frame}
    (hr : Runs image shapes frames 0 below m.locals.length) (hl : (standing frames).inLoop) :
    Akin m (m.leaveBranches frames) ∧ (m.leaveBranches frames).operands = m.operands ∧
      ∃ f fs, (m.leaveBranches frames).frames = f :: fs ∧ (f.kind = .loop ∨ f.kind = .tick) ∧
        Runs image shapes (f :: fs) 0 below (m.leaveBranches frames).locals.length := by
  induction frames generalizing m with
  | nil => cases hl
  | cons f frames ih =>
    rw [leaveBranches]
    cases hk : f.kind with
    | branch =>
      obtain ⟨-, -, hbase, hkind⟩ := hr
      rw [hk] at hkind
      rw [standing, hk] at hl
      rw [if_pos rfl]
      have hlen := length_locals_truncate hbase
      obtain ⟨ha, ho, hf⟩ := ih (m := m.truncate f.base) (by rw [hlen]; exact hkind) hl
      exact ⟨⟨ha.image, ha.shapes, ha.globals, ha.phase⟩, ho, hf⟩
    | loop =>
      rw [if_neg (by decide)]
      exact ⟨⟨rfl, rfl, rfl, rfl⟩, rfl, f, frames, rfl, .inl hk, hr⟩
    | tick =>
      rw [if_neg (by decide)]
      exact ⟨⟨rfl, rfl, rfl, rfl⟩, rfl, f, frames, rfl, .inr hk, hr⟩
    | top =>
      rw [standing, hk] at hl
      cases hl
    | function =>
      rw [standing, hk] at hl
      cases hl

/-- Leaving a function leads to what waits for it. -/
theorem runs_leaveFunction {image : Image} {shapes : List (List String)} {frames : List Frame}
    (hr : Runs image shapes frames 0 below m.locals.length) (hf : (standing frames).inFunction) :
    Akin m (m.leaveFunction frames).1 ∧ (m.leaveFunction frames).2 = true ∧
      (m.leaveFunction frames).1.operands = m.operands ∧
      ∃ own' below', below = own' + below' ∧
        Runs image shapes (m.leaveFunction frames).1.frames (own' + 1) below'
          (m.leaveFunction frames).1.locals.length := by
  induction frames generalizing m with
  | nil => cases hf
  | cons f frames ih =>
    obtain ⟨-, -, hbase, hkind⟩ := hr
    have hlen := length_locals_truncate hbase
    rw [leaveFunction]
    cases hk : f.kind with
    | function =>
      rw [hk] at hkind
      obtain ⟨own', below', he, hr'⟩ := hkind
      refine ⟨⟨rfl, rfl, rfl, rfl⟩, rfl, rfl, own', below', he, ?_⟩
      dsimp only
      rw [hlen]
      exact hr'
    | top =>
      rw [standing, hk] at hf
      cases hf
    | branch =>
      rw [hk] at hkind
      rw [standing, hk] at hf
      obtain ⟨ha, hrest⟩ := ih (m := m.truncate f.base) (by rw [hlen]; exact hkind) hf
      exact ⟨⟨ha.image, ha.shapes, ha.globals, ha.phase⟩, hrest⟩
    | loop | tick =>
      rw [hk] at hkind
      rw [standing, hk] at hf
      obtain ⟨ha, hrest⟩ := ih (m := m.truncate f.base) (by rw [hlen]; exact hkind.2) hf
      exact ⟨⟨ha.image, ha.shapes, ha.globals, ha.phase⟩, hrest⟩

namespace Good

/-- What a machine comes to after some of its frames were left. -/
theorem of_akin {m m' : Machine} {result : Machine × Status} (hk : Akin m m') (h : Good m' result) :
    Good m result :=
  ⟨h.sound, h.image.trans hk.image, h.shapes.trans hk.shapes, h.fault, hk.image ▸ h.request, h.awaits⟩

end Good

/-- The loop that `break` and `continue` act on. -/
theorem Ready.toLoop (h : Ready m own below d)
    (hd : (if m.site.inLoop ∧ (m.depth own).operands = 0 then some (m.depth own) else none) =
      some d) :
    Akin m (m.leaveBranches m.frames) ∧ Alive (m.leaveBranches m.frames) ∧
      (m.leaveBranches m.frames).operands.length = below ∧
      ∃ f fs, (m.leaveBranches m.frames).frames = f :: fs ∧ (f.kind = .loop ∨ f.kind = .tick) ∧
        Runs m.image m.shapes (f :: fs) 0 below (m.leaveBranches m.frames).locals.length := by
  split at hd
  · next hc =>
    obtain ⟨hl, hzero⟩ := hc
    cases hd
    have hzero : own = 0 := hzero
    subst hzero
    have hruns := h.runs
    rw [← h.locals] at hruns
    obtain ⟨ha, ho, hf⟩ := runs_leaveBranches hruns hl
    refine ⟨ha, ⟨?_, ?_, ha.phase.trans h.phase⟩, ?_, hf⟩
    · rw [ha.image, ha.shapes]
      exact h.ordered
    · rw [ha.globals, ha.image]
      exact h.globals
    · rw [ho, h.operands, Nat.zero_add]
  · cases hd

/-- There is a loop around, which the next pass starts from. -/
theorem good_continueLoop (h : Ready m own below d)
    (hd : (if m.site.inLoop ∧ (m.depth own).operands = 0 then some (m.depth own) else none) =
      some d) : Good m m.continueLoop := by
  obtain ⟨ha, hlive, ho, f, fs, hf, hk, hr⟩ := h.toLoop hd
  have hat : (m.leaveBranches m.frames).atLoop := by
    unfold atLoop
    rw [hf]
    rcases hk with hk | hk <;> simp [hk]
  unfold continueLoop
  dsimp only
  rw [if_pos hat]
  refine .of_akin ha (good_endFrame hlive ho ?_)
  rw [ha.image, ha.shapes, hf]
  exact hr

/-- There is a loop around, which is left. -/
theorem good_breakLoop (h : Ready m own below d)
    (hd : (if m.site.inLoop ∧ (m.depth own).operands = 0 then some (m.depth own) else none) =
      some d) : Good m m.breakLoop := by
  obtain ⟨ha, hlive, ho, f, fs, hf, hk, hr⟩ := h.toLoop hd
  have hat : (m.leaveBranches m.frames).atLoop := by
    unfold atLoop
    rw [hf]
    rcases hk with hk | hk <;> simp [hk]
  obtain ⟨-, -, hbase, hkind⟩ := hr
  have hrest : Runs m.image m.shapes fs 0 below f.base := by
    rcases hk with hk | hk <;> rw [hk] at hkind <;> exact hkind.2
  unfold breakLoop
  dsimp only
  rw [hf]
  dsimp only
  rw [if_pos hat]
  refine .of_akin ha (hlive.proceed 0 below ?_ ?_ ?_ (.inl rfl))
  · constructor <;> rfl
  · exact ho.trans (Nat.zero_add below).symm
  · dsimp only
    rw [ha.image, ha.shapes, length_locals_truncate hbase]
    exact hrest

/-- There is a function around, and a value for its caller. -/
theorem good_giveBack (h : Ready m own below d)
    (hd : (Instr.giveBack : Op).flow m.site (m.depth own) = some d) : Good m m.giveBack := by
  rw [Instr.flow] at hd
  split at hd
  · next hc =>
    obtain ⟨hf, hone⟩ := hc
    cases hd
    have hone : own = 1 := hone
    obtain ⟨v, rest, hv, hl⟩ := h.operand (by omega)
    have hruns := h.runs
    have hlocals := h.locals
    dsimp only at hruns
    rw [← hlocals] at hruns
    obtain ⟨ha, hfound, ho, own', below', he, hr⟩ :=
      runs_leaveFunction (m := { m with operands := rest }) hruns hf
    unfold giveBack
    rw [hv]
    dsimp only
    generalize ({ m with operands := rest } : Machine).leaveFunction m.frames = left at ha hfound ho hr ⊢
    obtain ⟨m', found⟩ := left
    dsimp only at ha hfound ho hr
    subst hfound
    refine good_return h.toAlive m' ⟨ha.image, ha.shapes, ha.globals, ha.phase⟩ ?_ hr
    rw [ho]
    omega
  · cases hd

/-- The function exists, and finds its arguments. -/
theorem good_call (h : Ready m own below d) {id : UInt32}
    (hd : (m.site.functionArity? id).bind ((m.depth own).swap · 1) = some d) :
    Good m (m.call id) := by
  obtain ⟨n, hm, hd⟩ := Option.bind_eq_some_iff.1 hd
  obtain ⟨f, hf, rfl⟩ := Option.map_eq_some_iff.1 hm
  obtain ⟨hn, rfl⟩ := Depth.swap_eq_some hd
  have hn : f.arity.toNat ≤ own := hn
  have hmem := List.mem_of_getElem? hf
  obtain ⟨called, hcalled⟩ := Option.isSome_iff_exists.1 (h.ordered.names f hmem)
  have hruns := h.runs
  dsimp only at hruns
  rw [← h.locals] at hruns
  have ho := h.operands
  unfold call
  rw [hf]
  dsimp only
  rw [hcalled]
  dsimp only
  split
  · exact h.stop (.refl m) rfl
  · refine h.proceed f.arity.toNat (own - f.arity.toNat + below) ?_ ?_ ?_ (.inl rfl)
    · constructor <;> rfl
    · simp only [enter]
      omega
    · refine ⟨?_, Nat.le_refl _, Nat.le_refl _, own - f.arity.toNat, below, rfl, hruns⟩
      have hbody := h.ordered.bodies f hmem
      change Depth.isClosed (flowInstrs (m.image.site m.shapes true false)
        ⟨f.arity.toNat, m.locals.length - m.locals.length⟩ f.body)
      rw [Nat.sub_self]
      exact hbody

/-- The function of the host is known, and finds its arguments. -/
theorem good_callBuiltin (h : Ready m own below d) {id : UInt32}
    (hd : (m.site.builtinArity? id).bind ((m.depth own).swap · 1) = some d) :
    Good m (m.callBuiltin id) := by
  obtain ⟨n, hm, hd⟩ := Option.bind_eq_some_iff.1 hd
  obtain ⟨b, hb, rfl⟩ := Option.map_eq_some_iff.1 hm
  obtain ⟨hn, rfl⟩ := Depth.swap_eq_some hd
  have hn : b.arity.toNat ≤ own := hn
  have ho := h.operands
  obtain ⟨args, rest, ht, hargs, hl⟩ := takeOperands_of_le b.arity.toNat m.operands
    (by omega)
  have hruns := h.runs
  dsimp only at hruns
  rw [← h.locals] at hruns
  unfold callBuiltin
  rw [hb]
  dsimp only
  rw [ht]
  dsimp only
  refine ⟨⟨h.ordered, h.globals, own - b.arity.toNat, below, ?_, hruns⟩, rfl, rfl, ?_, ?_,
    fun _ => ⟨id, args, rfl⟩⟩
  · change rest.length = _
    omega
  · intro f hf
    exact nomatch hf
  · intro id' args' hr
    cases hr
    exact ⟨rfl, b, hb, hargs⟩

/-- An instruction that is in order keeps the machine sound. -/
theorem good_exec (h : Ready m own below d) {op : Op} (hd : op.flow m.site (m.depth own) = some d) :
    Good m (m.exec op) := by
  have ho := h.operands
  -- An instruction that names an entry of a table flows only if the entry is there.
  have hsome {p : Prop} [Decidable p] {o : Option Depth} (hif : (if p then o else none) = some d) :
      p ∧ o = some d := by
    split at hif
    · next hp => exact ⟨hp, hif⟩
    · cases hif
  cases op with
  | line n =>
    cases hd
    exact h.go (by constructor <;> rfl) rfl ho h.locals
  | file id =>
    obtain ⟨ht, hd⟩ := hsome hd
    obtain ⟨file, hfile⟩ := Option.isSome_iff_exists.1 ht
    cases hd
    simp only [exec, hfile]
    refine h.go ?_ rfl ho h.locals
    constructor <;> rfl
  | discard =>
    obtain ⟨v, rest, hv, hl⟩ := h.operand (Depth.swap_eq_some hd).1
    simp only [exec, hv]
    exact h.swapped hd (by constructor <;> rfl) hl
  | pushNull | pushInt _ | pushFloat _ =>
    refine h.swapped hd (by constructor <;> rfl) ?_
    simp only [push, List.length_cons]
    omega
  | pushText id =>
    obtain ⟨ht, hd⟩ := hsome hd
    obtain ⟨text, htext⟩ := Option.isSome_iff_exists.1 ht
    simp only [exec, htext]
    refine h.swapped hd (by constructor <;> rfl) ?_
    simp only [push, List.length_cons]
    omega
  | makeTuple n => exact good_makeTuple h hd
  | makeObject shape => exact good_makeObject h hd
  | makeArray n => exact good_makeArray h hd
  | tupleMember i => exact good_tupleMember h i.toNat hd
  | objectMember id => exact good_objectMember h (hsome hd).1 (hsome hd).2
  | element => exact good_element h hd
  | loadGlobal slot => exact good_loadGlobal h (hsome hd).1 (hsome hd).2
  | loadLocal slot => exact good_loadLocal h (hsome hd).1 (hsome hd).2
  | unary op => exact good_unary h op hd
  | binary op => exact good_binary h op hd
  | storeGlobal slot => exact good_storeGlobal h (hsome hd).1 (hsome hd).2
  | pushLocal => exact good_pushLocal h hd
  | storeLocal slot => exact good_storeLocal h (hsome hd).1 (hsome hd).2
  | storeMember id => exact good_storeMember h (hsome hd).1 (hsome hd).2
  | storeElement => exact good_storeElement h hd
  | branch yes no => exact good_branch h hd
  | loop body => exact good_enter h (.inl rfl) hd
  | tick body => exact good_enter h (.inr rfl) hd
  | continueLoop => exact good_continueLoop h hd
  | breakLoop => exact good_breakLoop h hd
  | call id => exact good_call h hd
  | callBuiltin id => exact good_callBuiltin h hd
  | giveBack => exact good_giveBack h hd

end Instructions

/-! ## Steps -/

/-- No instruction takes locals away. -/
theorem flow_locals_le {s : Site UInt32 UInt32} {d d' : Depth} {op : Op}
    (h : op.flow s d = some d') : d.locals ≤ d'.locals := by
  have hswap {taken given : Nat} {d' : Depth} (hs : d.swap taken given = some d') :
      d.locals ≤ d'.locals := by
    obtain ⟨-, rfl⟩ := Depth.swap_eq_some hs
    exact Nat.le_refl _
  cases op with
  | pushLocal =>
    obtain ⟨d'', hd, rfl⟩ := Option.map_eq_some_iff.1 h
    exact Nat.le_succ_of_le (hswap hd)
  | makeObject _ | call _ | callBuiltin _ =>
    obtain ⟨n, -, hd⟩ := Option.bind_eq_some_iff.1 h
    exact hswap hd
  | line _ =>
    cases h
    exact Nat.le_refl _
  | file _ | branch _ _ | loop _ | tick _ | continueLoop | breakLoop | giveBack =>
    rw [Instr.flow] at h
    split at h
    · cases h
      exact Nat.le_refl _
    · cases h
  | pushText _ | objectMember _ | loadGlobal _ | loadLocal _ | storeGlobal _ | storeLocal _
  | storeMember _ =>
    rw [Instr.flow] at h
    split at h
    · exact hswap h
    · cases h
  | _ => exact hswap h

/-- A running machine in order keeps in order when it runs its next instruction or leaves a body. -/
theorem good_execNext {m : Machine} {own below : Nat} (h : Alive m)
    (ho : m.operands.length = own + below)
    (hr : Runs m.image m.shapes m.frames own below m.locals.length) : Good m m.execNext := by
  unfold execNext
  cases hm : m.frames with
  | nil =>
    rw [hm] at hr
    exact hr.elim
  | cons f frames =>
    obtain ⟨kind, body, rest, base⟩ := f
    dsimp only
    rw [hm] at hr
    cases rest with
    | nil =>
      -- Nothing is left of the pass, so no operand is.
      have hzero : own = 0 := of_decide_eq_true hr.1
      subst hzero
      exact good_endFrame h (ho.trans (Nat.zero_add below)) (hm ▸ hr)
    | cons op rest =>
      obtain ⟨hflow, hfloor, hbase, hkind⟩ := hr
      rw [flowInstrs] at hflow
      cases hd : op.flow (siteOf m.image m.shapes (⟨kind, body, op :: rest, base⟩ :: frames))
          ⟨own, m.locals.length - (standing (⟨kind, body, op :: rest, base⟩ :: frames)).floor⟩ with
      | none =>
        rw [hd] at hflow
        exact nomatch hflow
      | some d =>
        rw [hd, Option.bind_some] at hflow
        have hle := flow_locals_le hd
        have hready : Ready { m with frames := ⟨kind, body, rest, base⟩ :: frames } own below d := by
          refine ⟨⟨h.ordered, h.globals, h.phase⟩, ho, Nat.le_trans hfloor hbase, ?_, hfloor, ?_, hkind⟩
          · rw [Nat.add_sub_cancel]
            exact hflow
          · exact Nat.le_trans hbase (Nat.sub_le_iff_le_add.1 hle)
        have hgood := good_exec hready hd
        exact ⟨hgood.sound, hgood.image, hgood.shapes, hgood.fault, hgood.request, hgood.awaits⟩

/-- **A step of a sound machine leaves a sound machine**, whatever its limits are, and comes to no
internal cause. -/
theorem good_step {m : Machine} (h : m.Sound) (hp : m.phase ≠ .awaiting) : Good m m.step := by
  have hstands := h.stands
  unfold Stands at hstands
  cases m.stepCase with
  | unanswered ha => exact absurd ha hp
  | complete _ hs | unpaid _ _ hs =>
    rw [hs]
    exact ⟨h, rfl, rfl, fun f hf => (nomatch hf), fun id args hr => (nomatch hr), fun ha => absurd ha hp⟩
  | faulted f hm hs =>
    rw [hm] at hstands
    rw [hs]
    refine ⟨h, rfl, rfl, ?_, fun id args hr => (nomatch hr), fun ha => absurd ha hp⟩
    intro f' hf
    cases hf
    exact hstands
  | overfull hm _ _ hs =>
    rw [hs]
    exact Alive.stop ⟨h.ordered, h.globals, hm⟩ (.refl m) rfl
  | made hm _ _ hs =>
    rw [hm] at hstands
    obtain ⟨own, below, ho, hr⟩ := hstands
    have hspent : Alive { m with spent := m.spent + 1 } := ⟨h.ordered, h.globals, hm⟩
    have hgood := good_execNext hspent ho hr
    rw [hs]
    exact ⟨hgood.sound, hgood.image, hgood.shapes, hgood.fault, hgood.request, hgood.awaits⟩

end Machine

end TickScript
