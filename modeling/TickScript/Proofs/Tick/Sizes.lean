import TickScript.Proofs.Heap.Measures
import TickScript.Proofs.Tick.Contents

/-!
# Sizes stay within their limits

Tuples, objects and arrays are made by three instructions and by a function of the library, another of its
functions makes arrays longer, and whatever exceeds a limit is refused there. So nothing that a machine, its
host or another value ever holds exceeds one (`sizes_bounded`).

A tuple's count of leaves is only right as long as a word can count them. A limit of more leaves than that
can be got round: doubling a tuple often enough brings its count back to zero (`exists_tuple_uncounted`).
-/

namespace TickScript

variable {κ : Type}

/-! ## Functions of other modules -/

/-- Null, a number or a text. -/
def Value.isSimple : Value → Bool
  | .null | .int _ | .float _ | .text _ _ => true
  | _ => false

/-- The function gives back simple values only, and what it leaves in cells was there, or is a text. -/
structure Builtin.Modest (b : Builtin κ) : Prop where
  simple : ∀ args m c v, (b.run args m c).result = .ok v → v.isSimple
  bodies : ∀ args m c, ∀ cell ∈ (b.run args m c).heap.cells,
    (∃ before ∈ m.heap.cells, before.body = cell.body) ∨ ∃ s, cell.body = .text s

/-- A function that changes nothing is modest if its results are simple. -/
theorem Builtin.modest_ofResult {called : String} {arity cost : UInt32}
    {result : Machine → List Value → Except Fault Value}
    (h : ∀ m args v, result m args = .ok v → v.isSimple) :
    (ofResult called arity cost result : Builtin κ).Modest where
  simple args m _ v hv := h m args v hv
  bodies _ _ _ cell hcell := .inl ⟨cell, hcell, rfl⟩

/-- A modest builtin keeps the sizes within the limits. -/
theorem Builtin.Modest.suits {b : Builtin κ} (h : b.Modest) (image : Image) (shapes : List (List String))
    (limits : Limits) : b.Suits (.ofSizes limits) image shapes limits := by
  intro args m c hm
  constructor
  · intro cell hcell
    rcases h.bodies args m c cell hcell with ⟨before, hbefore, hbody⟩ | ⟨s, hbody⟩
    · exact hbody ▸ hm.heap.bodies before hbefore
    · rw [hbody]
      trivial
  · intro v hv
    rcases List.mem_append.1 hv with hv | hv
    · have hsimple := (given_forall.2 fun w hw => h.simple args m c w hw) v hv
      cases v with
      | tuple _ _ _ => exact nomatch hsimple
      | _ => trivial
    · obtain ⟨cell, hcell, hheld⟩ := List.mem_flatMap.1 hv
      rcases h.bodies args m c cell hcell with ⟨before, hbefore, hbody⟩ | ⟨s, hbody⟩
      · exact hm.heap.held (List.mem_flatMap.2 ⟨before, hbefore, hbody ▸ hheld⟩)
      · rw [hbody] at hheld
        exact nomatch hheld

/-! ## Runs -/

/-- One thing that a machine does with the functions of its host, or the host with the log: a tick starts,
the machine makes a step or a batch of them, has a turn, or gets the answer to a call; the host copies the
value of a global. -/
inductive Proceeds (r : Registry κ) : World → World → Prop
  | startTick (m : Machine) (vs : List Value) : Proceeds r ⟨m, vs⟩ ⟨m.startTick, vs⟩
  | step (m : Machine) (vs : List Value) : Proceeds r ⟨m, vs⟩ ⟨m.step.1, m.step.2.args ++ vs⟩
  | stepBatch (m : Machine) (vs : List Value) :
      Proceeds r ⟨m, vs⟩ ⟨m.stepBatch.1, m.stepBatch.2.args ++ vs⟩
  | runTick (m : Machine) (vs : List Value) (c : κ) : Proceeds r ⟨m, vs⟩ ⟨(r.runTick m c).2.1, vs⟩
  | answer (m : Machine) (vs : List Value) (c : κ) (id : UInt32) (args : List Value) :
      Proceeds r ⟨m, args ++ vs⟩ ⟨(r.answer m c id args).2.1, vs⟩
  | log (m : Machine) (vs : List Value) (lines : List String) :
      Proceeds r ⟨m, vs⟩ ⟨{ m with log := lines }, vs⟩
  | global (m : Machine) (vs : List Value) {called : String} {v : Value}
      (named : m.global? called = some v) : Proceeds r ⟨m, vs⟩ ⟨{ m with heap := m.heap.retain v }, v :: vs⟩

/-- What a host does between turns is one of the things that happen. -/
theorem Proceeds.happens {r : Registry κ} {w w' : World} (h : Proceeds r w w') : Happens r w w' := by
  cases h with
  | startTick m vs => exact .startTick m vs
  | step m vs => exact .step m vs
  | stepBatch m vs => exact .stepBatch m vs
  | runTick m vs c => exact .runTick m vs c
  | answer m vs c id args => exact .answer m vs c id args
  | log m vs lines => exact .log m vs lines
  | global m vs named => exact .global m vs named

section Kept

variable {n : Norm} {image : Image} {shapes : List (List String)} {limits : Limits} {r : Registry κ}

/-- A batch of steps keeps the norm. -/
theorem Norm.Kept.stepBatch (ha : n.Allows image shapes limits) {m : Machine} {ws : List Value}
    (h : n.Kept image shapes limits ws m) :
    n.Kept image shapes limits (m.stepBatch.2.args ++ ws) m.stepBatch.1 := by
  fun_induction Machine.stepBatch m with
  | case1 m m' hs ih => exact ih (h.step ha hs)
  | case2 m _ => exact h.step ha rfl

/-- Whatever a machine does keeps to every norm that its program allows. -/
theorem Proceeds.kept (hr : ∀ b ∈ r.builtins, b.Tidy ∧ b.Suits n image shapes limits) (ha : n.Allows image shapes limits)
    {w w' : World} (hp : Proceeds r w w') (h : n.Kept image shapes limits w.slots w.machine) :
    n.Kept image shapes limits w'.slots w'.machine := by
  cases hp with
  | startTick m vs | log m vs lines =>
    obtain ⟨hexact, hp, ho, hl, hg, hw, hh⟩ := h
    exact ⟨hexact, hp, ho, hl, hg, hw, hh⟩
  | step m vs => exact h.step ha rfl
  | stepBatch m vs => exact h.stepBatch ha
  | runTick m vs c => exact Registry.kept_runTick hr ha h c
  | answer m vs c id args => exact h.answer hr c id
  | @global m vs called v named =>
    obtain ⟨hexact, hp, ho, hl, hg, hw, hh⟩ := h
    obtain ⟨entries, hmoves⟩ := (Happens.global (r := r) m vs named).reckons (fun b hb => (hr b hb).1) hexact
    have hv := hg v (m.mem_globals_of_global? named)
    exact ⟨hexact.moves hmoves, hp, ho, hl, hg, List.forall_mem_cons.2 ⟨hv, hw⟩, hh.retain v⟩

/-- All that happens to a machine keeps the norm. -/
theorem Norm.Kept.proceeds (hr : ∀ b ∈ r.builtins, b.Tidy ∧ b.Suits n image shapes limits)
    (ha : n.Allows image shapes limits) {w w' : World} (h : n.Kept image shapes limits w.slots w.machine)
    (hw : Relation.ReflTransGen (Proceeds r) w w') : n.Kept image shapes limits w'.slots w'.machine := by
  induction hw with
  | refl => exact h
  | tail _ hlast ih => exact hlast.kept hr ha ih

end Kept

/-- An object keeps its names in every run. -/
theorem Proceeds.names {r : Registry κ} (hr : ∀ b ∈ r.builtins, b.Tidy) {w w' : World}
    (hw : Relation.ReflTransGen (Proceeds r) w w') (hx : w.books.Exact) {ref : Ref} {names : List String}
    (hn : w.machine.heap.Names ref names) : w'.books.Exact ∧ w'.machine.heap.Names ref names := by
  induction hw with
  | refl => exact ⟨hx, hn⟩
  | tail _ hlast ih =>
    obtain ⟨hexact, hnames⟩ := ih
    obtain ⟨entries, hmoves⟩ := hlast.happens.reckons hr hexact
    exact ⟨hexact.moves hmoves, hmoves.names hexact hnames⟩

/-! ## Limits -/

/-- The value, and the object or array that it refers to, is within the limits. -/
def Value.Within (limits : Limits) (h : Heap) : Value → Prop
  | .tuple _ flat items => Measured limits flat items
  | .object r => ∃ names values, h.body? r = some (.object names values) ∧ values.length = names.length
  | .array r => ∃ capacity items, h.body? r = some (.array capacity items) ∧
      items.length ≤ limits.arraySize
  | _ => True

/-- Where the norm of sizes holds, every value is within the limits. -/
theorem Norm.Holds.within {limits : Limits} {s : Books} (h : (Norm.ofSizes limits).Holds s) (hx : s.Exact)
    {v : Value} (hv : v ∈ s.all) : v.Within limits s.heap := by
  cases v with
  | tuple r flat items => exact h.values _ hv
  | object r =>
    obtain ⟨c, hc, names, values, hbody⟩ := hx.exists_cell? hv rfl
    have hb := h.bodies c (Heap.cell?_eq_some hc).1
    rw [hbody] at hb
    refine ⟨names, values, ?_, hb⟩
    rw [Heap.body?, hc, Option.map_some, hbody]
  | array r =>
    obtain ⟨c, hc, capacity, items, hbody⟩ := hx.exists_cell? hv rfl
    have hb := h.bodies c (Heap.cell?_eq_some hc).1
    rw [hbody] at hb
    refine ⟨capacity, items, ?_, hb⟩
    rw [Heap.body?, hc, Option.map_some, hbody]
  | _ => trivial

/-- What would exceed a limit is refused, and nothing of it is stored: a tuple of more leaves than allowed,
which a word can count, an array of too many items, one more item for an array that is full, and an array of
too many copies. -/
structure Refuses (κ : Type) (limits : Limits) (m : Machine) : Prop where
  tuple : ∀ (k : UInt32) (items rest : List Value),
    Machine.takeOperands k.toNat m.operands = some (items, rest) → limits.tupleSize < leavesOf items →
    leavesOf items < UInt64.size → ∃ m' f, m.exec (.makeTuple k) = (m', .fault f) ∧
      f.cause = .tupleTooBig ∧ m'.operands = rest ∧ m'.locals = m.locals ∧ m'.globals = m.globals
  array : ∀ k : UInt32, limits.arraySize < k.toNat → ∃ m' f, m.exec (.makeArray k) = (m', .fault f) ∧
    f.cause = .arrayTooBig ∧ m'.operands = m.operands ∧ m'.locals = m.locals ∧ m'.globals = m.globals ∧
    m'.heap = m.heap
  push : ∀ (r : Ref) (v : Value) (c : κ), limits.arraySize ≤ (m.heap.items r).length →
    Builtin.push.run [.array r, v] m c = m.reply (.error (m.faultOf .arrayTooBig none)) c
  copies : ∀ (i : Int64) (v : Value) (c : κ), i < 0 ∨ limits.arraySize < i.toInt.toNat →
    Builtin.array.run [.int i, v] m c = m.reply (.error (m.faultOf .arrayTooBig none)) c

/-- A machine that meets the norm of sizes refuses what is too long. -/
theorem Norm.Throughout.refuses {image : Image} {shapes : List (List String)} {limits : Limits}
    {ws : List Value} {m : Machine} (h : (Norm.ofSizes limits).Throughout image shapes limits ws m) :
    Refuses κ limits m where
  tuple k items rest ht hsize hword := by
    obtain ⟨hitems, -⟩ := Norm.mem_of_takeOperands ht
    have hflat : Value.flatTotal items = leavesOf items := by
      rw [flatTotal_eq_mod fun v hv => flatSize_eq_mod (h.operands v (hitems v hv)), Nat.mod_eq_of_lt hword]
    have hbig : m.limits.tupleSize < (m.heap.tuple items).1.flatSize := by
      rw [h.program.2.2]
      show limits.tupleSize < Value.flatTotal items
      rw [hflat]
      exact hsize
    have hexec : m.exec (.makeTuple k) =
        ({ m with operands := rest, heap := (m.heap.tuple items).2 }.dropped rest
          [(m.heap.tuple items).1]).stop .tupleTooBig := by
      show m.makeTuple k.toNat = _
      unfold Machine.makeTuple
      rw [ht]
      exact if_pos hbig
    exact ⟨_, _, hexec, rfl, rfl, rfl, rfl⟩
  array k hk := by
    have hbig : m.limits.arraySize < k.toNat := h.program.2.2 ▸ hk
    exact ⟨_, _, if_pos hbig, rfl, rfl, rfl, rfl, rfl⟩
  push r v c hfull := if_pos (h.program.2.2 ▸ hfull)
  copies i v c hi := by
    refine if_pos ?_
    rw [Bool.or_eq_true, decide_eq_true_eq, decide_eq_true_eq]
    exact h.program.2.2 ▸ hi

/-- **Sizes stay within their limits.** Load a machine from any bytes, with a host whose functions are those
of the library or give back simple values, and let it run.

Then every tuple that is held anywhere keeps a count of its leaves that is within the limit, and that is
exact if the limits leave no tuple more leaves than a word counts. Every array that is held is at most as long
as the memory could hold, and every object that is held has as many values as names. An object has the same
names at all times. And what would exceed a limit is refused for it and not stored. -/
theorem sizes_bounded (modules : List (Module κ))
    (hmodules : ∀ module ∈ modules,
      module ∈ [Module.standard, Module.memory, Module.floatingPoint] ∨
        ∀ b ∈ module.builtins, b.Tidy ∧ b.Modest)
    {bytes : List UInt8} {limits : Limits} {m₀ : Machine} {w : World}
    (hload : Machine.load bytes limits = .ok m₀)
    (hw : Relation.ReflTransGen (Proceeds (Registry.ofModules modules)) ⟨m₀, []⟩ w) :
    (∀ v ∈ w.machine.operands ++ (w.machine.locals ++ (w.machine.globals ++ w.slots)) ++
      w.machine.heap.held, v.Within limits w.machine.heap) ∧
    (∀ w', Relation.ReflTransGen (Proceeds (Registry.ofModules modules)) w w' →
      ∀ r names values names' values', w.machine.heap.body? r = some (.object names values) →
        w'.machine.heap.body? r = some (.object names' values') → names' = names) ∧
    Refuses κ limits w.machine := by
  obtain ⟨image, shapes, -, -, rfl⟩ := Machine.load_eq_ok.1 hload
  have ha : (Norm.ofSizes limits).Allows image shapes limits := Norm.allows_ofSizes image shapes
  have hsuits : ∀ b ∈ (Registry.ofModules modules).builtins,
      b.Tidy ∧ b.Suits (.ofSizes limits) image shapes limits := by
    refine Registry.forall_ofModules
      (fun b hb => ⟨Builtin.tidy_standard hb, Builtin.respects_standard hb _ image shapes limits ha⟩)
      (fun b hb => ⟨Builtin.tidy_memory hb, Builtin.respects_memory hb _ image shapes limits ha⟩)
      (fun b hb => ⟨Builtin.tidy_floatingPoint hb,
        Builtin.respects_floatingPoint hb _ image shapes limits ha⟩) ?_
    intro module hm
    refine (hmodules module hm).imp_right fun hall b hb => ?_
    obtain ⟨htidy, hmodest⟩ := hall b hb
    exact ⟨htidy, hmodest.suits image shapes limits⟩
  have hstart : (Norm.ofSizes limits).Kept image shapes limits [] (.start image shapes limits) :=
    Norm.kept_start ha
  have hkept := Norm.Kept.proceeds hsuits ha hstart hw
  refine ⟨fun v hv => hkept.throughout.holds.within hkept.exact hv, ?_, hkept.throughout.refuses⟩
  intro w' hw' r names values names' values' hb hb'
  -- An object keeps its names as long as its cell is there.
  obtain ⟨hexact, hnames⟩ :=
    Proceeds.names (fun b hb => (hsuits b hb).1) hw' hkept.exact (hkept.exact.names hb)
  obtain ⟨c, hc, hbody⟩ := Heap.body?_eq_some hb'
  obtain ⟨hmem, href⟩ := Heap.cell?_eq_some hc
  exact hnames.same c hmem href names' values' hbody

/-- A sensor of the host. -/
def sensor : Module Unit := ⟨"sensor", [.ofResult "sense" 0 1 fun _ _ => .ok (.int 7)]⟩

/-- A tuple in a tuple, an array and an object, with a value that a function of the host gave back. -/
theorem sizes_bounded_nested :
    ∃ m₀ w, Machine.load (Image.link ⟨(Registry.ofModules [Module.memory, sensor]).signatures,
        ["t", "a", "o"], [], [.callBuiltin 5, .pushInt 2, .makeTuple 2, .pushInt 3, .makeTuple 2,
          .storeGlobal 0, .loadGlobal 0, .makeArray 1, .storeGlobal 1, .loadGlobal 0, .makeObject ["x"],
          .storeGlobal 2]⟩).encode .least = .ok m₀ ∧
      Relation.ReflTransGen (Proceeds (Registry.ofModules [Module.memory, sensor])) ⟨m₀, []⟩ w ∧
      w.machine.globals = [.tuple 1 3 [.tuple 0 2 [.int 7, .int 2], .int 3], .array 2, .object 3] ∧
      ∀ v ∈ w.machine.globals, v.Within .least w.machine.heap := by
  obtain ⟨r, hr⟩ : ∃ r : Registry Unit, r = .ofModules [Module.memory, sensor] := ⟨_, rfl⟩
  obtain ⟨p, hp, hsize, hshapes, hglobals⟩ : ∃ p : Program String (List String),
      p = ⟨(Registry.ofModules [Module.memory, sensor]).signatures,
        ["t", "a", "o"], [], [.callBuiltin 5, .pushInt 2, .makeTuple 2, .pushInt 3, .makeTuple 2,
          .storeGlobal 0, .loadGlobal 0, .makeArray 1, .storeGlobal 1, .loadGlobal 0, .makeObject ["x"],
          .storeGlobal 2]⟩ ∧
      (Image.link p).encode.length < UInt32.size ∧ (Image.link p).Resolves [["x"]] ∧
      ((Registry.ofModules [Module.memory, sensor]).runTick
        (.start (Image.link p) [["x"]] .least) ()).2.1.globals =
          [.tuple 1 3 [.tuple 0 2 [.int 7, .int 2], .int 3], .array 2, .object 3] :=
    ⟨_, rfl, by decide +kernel, rfl, by cbv⟩
  rw [← hp, ← hr]
  rw [← hr] at hglobals
  have hload := Machine.load_link (.of_length_encode hsize) hshapes .least
  have hw : Relation.ReflTransGen (Proceeds r) ⟨_, []⟩ _ :=
    .single (.runTick (.start (Image.link p) [["x"]] .least) [] ())
  refine ⟨_, _, hload, hw, hglobals, fun v hv => ?_⟩
  subst hr
  have hmodules : ∀ module ∈ [Module.memory, sensor],
      module ∈ [Module.standard, Module.memory, Module.floatingPoint] ∨
        ∀ b ∈ module.builtins, b.Tidy ∧ b.Modest := by
    intro module hm
    rcases List.mem_cons.1 hm with rfl | hm
    · exact .inl (List.mem_cons_of_mem _ List.mem_cons_self)
    · cases List.mem_singleton.1 hm
      refine .inr fun b hb => ?_
      cases List.mem_singleton.1 hb
      constructor
      · apply Builtin.tidy_ofResult
        rintro host args v ⟨⟩
        rfl
      · apply Builtin.modest_ofResult
        rintro host args v ⟨⟩
        rfl
  refine (sizes_bounded _ hmodules hload hw).1 v ?_
  exact List.mem_append_left _ (List.mem_append_right _ (List.mem_append_right _ (List.mem_append_left _ hv)))

/-! ## A tuple that is doubled -/

namespace Doubling

/-- Makes the global a tuple of twice its value, a number of times. -/
def rounds : Nat → List Op
  | 0 => []
  | n + 1 => .loadGlobal 0 :: .loadGlobal 0 :: .makeTuple 2 :: .storeGlobal 0 :: rounds n

def image : Image := ⟨["t"], [], ⟨[], [0], [], rounds 64⟩⟩

/-- A tuple may have as many leaves as a word can count. -/
def limits : Limits := ⟨1000, 10000, 32, UInt64.size - 1⟩

/-- The machine in the course of the rounds. -/
def during (heap : Heap) (operands : List Value) (v : Value) (spent : Nat) (rest : List Op) : Machine :=
  { Machine.start image [] limits with
    heap, operands, globals := [v], spent, frames := [⟨.top, rounds 64, rest, 0⟩] }

/-- An instruction is run as long as neither limit is reached. -/
theorem proceeds_exec {r : Registry κ} {heap : Heap} {operands : List Value} {v : Value} {spent : Nat}
    {op : Op} {rest : List Op} {m : Machine} (hspent : spent < 1000)
    (hused : heap.used + 16 * (operands.length + 1) ≤ 10000)
    (hexec : (during heap operands v (spent + 1) rest).exec op = (m, .running)) :
    Proceeds r ⟨during heap operands v spent (op :: rest), []⟩ ⟨m, []⟩ := by
  have hmemory : ¬ limits.memory < (during heap operands v spent (op :: rest)).usedMemory := by
    show ¬ 10000 < heap.used + 16 * (operands.length + 0 + 1)
    omega
  have hstep : (during heap operands v spent (op :: rest)).step = (m, .running) :=
    calc (during heap operands v spent (op :: rest)).step
      _ = _ := Machine.step_of_running rfl (Nat.not_le.2 hspent)
      _ = (during heap operands v (spent + 1) rest).exec op := if_neg hmemory
      _ = (m, .running) := hexec
  have hproceeds : Proceeds r _ _ := .step (during heap operands v spent (op :: rest)) []
  rw [hstep] at hproceeds
  exact hproceeds

/-- A round takes the memory of one tuple at most. -/
theorem proceeds_round (r : Registry κ) (heap : Heap) (v : Value) (spent n : Nat)
    (hspent : spent + 4 ≤ 1000) (hused : heap.used + 120 ≤ 10000) :
    ∃ heap' ref, heap'.used ≤ heap.used + 72 ∧ Relation.ReflTransGen (Proceeds r)
      ⟨during heap [] v spent (rounds (n + 1)), []⟩
      ⟨during heap' [] (.tuple ref (Value.flatTotal [v, v]) [v, v]) (spent + 4) (rounds n), []⟩ := by
  obtain ⟨copied, hcopied⟩ : ∃ copied, (heap.retain v).retain v = copied := ⟨_, rfl⟩
  obtain ⟨t, ht⟩ : ∃ t, Value.tuple copied.next (Value.flatTotal [v, v]) [v, v] = t := ⟨_, rfl⟩
  have hused₁ : (heap.retain v).used = heap.used := Heap.used_retain heap v
  have hused₂ : copied.used = heap.used := by
    rw [← hcopied, Heap.used_retain, hused₁]
  have hused₃ : (copied.tuple [v, v]).2.used = heap.used + 72 := congrArg (· + 72) hused₂
  have hcounted : ¬ limits.tupleSize < Value.flatTotal [v, v] := by
    have hlt : Value.flatTotal [v, v] < UInt64.size := Nat.mod_lt _ (by decide)
    show ¬ UInt64.size - 1 < _
    omega
  have hmake : (during copied [v, v] v (spent + 3) (.storeGlobal 0 :: rounds n)).exec (.makeTuple 2) =
      (during (copied.tuple [v, v]).2 [t] v (spent + 3) (.storeGlobal 0 :: rounds n), .running) :=
    ht ▸ if_neg hcounted
  have h₁ : Proceeds r ⟨during heap [] v spent (rounds (n + 1)), []⟩ ⟨during (heap.retain v) [v] v (spent + 1)
      (.loadGlobal 0 :: .makeTuple 2 :: .storeGlobal 0 :: rounds n), []⟩ :=
    proceeds_exec (by omega) (by simp only [List.length_nil]; omega) rfl
  have h₂ : Proceeds r ⟨during (heap.retain v) [v] v (spent + 1)
      (.loadGlobal 0 :: .makeTuple 2 :: .storeGlobal 0 :: rounds n), []⟩
      ⟨during copied [v, v] v (spent + 2) (.makeTuple 2 :: .storeGlobal 0 :: rounds n), []⟩ :=
    proceeds_exec (by omega) (by simp only [List.length_cons, List.length_nil]; omega) (hcopied ▸ rfl)
  have h₃ : Proceeds r ⟨during copied [v, v] v (spent + 2) (.makeTuple 2 :: .storeGlobal 0 :: rounds n), []⟩
      ⟨during (copied.tuple [v, v]).2 [t] v (spent + 3) (.storeGlobal 0 :: rounds n), []⟩ :=
    proceeds_exec (by omega) (by simp only [List.length_cons, List.length_nil]; omega) hmake
  have h₄ : Proceeds r ⟨during (copied.tuple [v, v]).2 [t] v (spent + 3) (.storeGlobal 0 :: rounds n), []⟩
      ⟨during ((copied.tuple [v, v]).2.release [v]) [] t (spent + 4) (rounds n), []⟩ :=
    proceeds_exec (by omega) (by simp only [List.length_cons, List.length_nil]; omega) rfl
  have hround := Relation.ReflTransGen.tail (.tail (.tail (.single h₁) h₂) h₃) h₄
  rw [← ht] at hround
  exact ⟨_, _, hused₃ ▸ Heap.used_release_le _ _, hround⟩

/-- Each round doubles the leaves, and the count as far as a word goes. -/
theorem proceeds_rounds (r : Registry κ) (heap : Heap) (v : Value) (spent n : Nat)
    (hspent : spent + 4 * n ≤ 1000) (hused : heap.used + 72 * n + 48 ≤ 10000)
    (hv : v.flatSize = v.leaves % UInt64.size) :
    ∃ heap' v', v'.leaves = 2 ^ n * v.leaves ∧ v'.flatSize = v'.leaves % UInt64.size ∧
      Relation.ReflTransGen (Proceeds r) ⟨during heap [] v spent (rounds n), []⟩
        ⟨during heap' [] v' (spent + 4 * n) [], []⟩ := by
  induction n generalizing heap v spent with
  | zero => exact ⟨heap, v, (Nat.one_mul _).symm, hv, .refl⟩
  | succ n ih =>
    obtain ⟨heap₁, ref, hused₁, hround⟩ := proceeds_round r heap v spent n (by omega) (by omega)
    have hflat : Value.flatTotal [v, v] = leavesOf [v, v] % UInt64.size := by
      refine flatTotal_eq_mod fun w hw => ?_
      have hsame : w = v := by simpa using hw
      rw [hsame]
      exact hv
    have hleaves : (Value.tuple ref (Value.flatTotal [v, v]) [v, v]).leaves = 2 * v.leaves := by
      simp only [Value.leaves, leavesOf]
      omega
    obtain ⟨heap', v', hleaves', hflat', hrounds⟩ :=
      ih heap₁ (.tuple ref (Value.flatTotal [v, v]) [v, v]) (spent + 4) (by omega) (by omega) hflat
    refine ⟨heap', v', ?_, hflat', ?_⟩
    · rw [hleaves', hleaves, Nat.pow_succ, Nat.mul_assoc]
    · rw [show spent + 4 * (n + 1) = spent + 4 + 4 * n by omega]
      exact hround.trans hrounds

theorem load_image : Machine.load image.encode limits = .ok (.start image [] limits) := by
  have hfits : image.Fits := by
    refine ⟨?_, ?_, ?_, ?_, ?_, ?_, ?_, List.forall_mem_nil _, bodyFits_of_count ?_⟩
    all_goals decide +kernel
  exact Machine.load_of_fits hfits rfl limits

end Doubling

/-- **A limit that a word cannot exceed is no limit.** After 64 rounds the tuple has a leaf more than the
limit allows, but its count has begun again from zero. -/
theorem exists_tuple_uncounted :
    ∃ m₀ w, Machine.load Doubling.image.encode Doubling.limits = .ok m₀ ∧
      Relation.ReflTransGen (Proceeds (Registry.ofModules ([] : List (Module Unit)))) ⟨m₀, []⟩ w ∧
      ∃ r flat items, .tuple r flat items ∈ w.machine.globals ∧ flat ≠ leavesOf items ∧
        Doubling.limits.tupleSize < leavesOf items := by
  obtain ⟨heap, v, hleaves, hflat, hrun⟩ :=
    Doubling.proceeds_rounds (.ofModules ([] : List (Module Unit))) .empty .null 0 64 (by decide)
      (by decide) rfl
  have hleaves : v.leaves = UInt64.size := by
    rw [hleaves]
    decide +kernel
  rw [hleaves, Nat.mod_self] at hflat
  cases v with
  | tuple r flat items =>
    rw [Value.leaves] at hleaves
    have hzero : flat = 0 := hflat
    refine ⟨_, _, Doubling.load_image, hrun, r, flat, items, List.mem_singleton_self _, ?_, ?_⟩
    · rw [hleaves, hzero]
      decide
    · rw [hleaves]
      decide
  | _ => exact absurd hflat Nat.one_ne_zero

end TickScript
