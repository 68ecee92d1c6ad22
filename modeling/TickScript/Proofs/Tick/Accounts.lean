import TickScript.Proofs.Builtin.Tidiness
import TickScript.Proofs.Machine.Control
import TickScript.Proofs.Machine.Holdings
import TickScript.Proofs.Tick.Soundness

/-!
# Exact accounts in every run

A host lets a machine run, answers its calls, and holds references of its own: the arguments of a call that
it has not answered, and whatever it keeps under names. Machine and host together are a world
(`World`). Whatever happens in it keeps the books of all references exact (`Happens.reckons`), so the bytes
in use are at all times the charges of what is still referred to.
-/

namespace TickScript

open scoped List

variable {κ : Type}

/-- A machine and the references that its host holds. -/
structure World where
  machine : Machine
  slots : List Value

/-- All references from outside the heap. -/
def World.books (w : World) : Books := w.machine.books w.slots

namespace Machine

variable (m : Machine) (vs ws : List Value)

/-- What the host is lent, and the globals, before all else. -/
theorem perm_lent :
    (vs ++ m.globals ++ (m.operands ++ (m.locals ++ ws))).Perm (m.books (vs ++ ws)).roots :=
  calc vs ++ m.globals ++ (m.operands ++ (m.locals ++ ws))
    _ ~ m.operands ++ (vs ++ m.globals ++ (m.locals ++ ws)) := List.perm_append_comm_assoc _ _ _
    _ ~ m.operands ++ (m.locals ++ (vs ++ m.globals ++ ws)) :=
      .append_left _ (List.perm_append_comm_assoc _ _ _)
    _ ~ m.operands ++ (m.locals ++ (m.globals ++ (vs ++ ws))) := by
      rw [List.append_assoc]
      exact .append_left _ (.append_left _ (List.perm_append_comm_assoc _ _ _))

/-- The machine takes what a call has given back. -/
theorem reckons_settle (served : Except Fault Value) :
    Books.Reckons (m.books (Builtin.given served ++ ws)) ((m.settle served).2.books ws) := by
  cases served with
  | ok v => exact m.reckons_pushResult v
  | error f =>
    simp only [settle]
    split <;> exact .refl _

end Machine

namespace Registry

variable {r : Registry κ} {ws : List Value}

open Books

/-- A tidy function of the host keeps the books exact: its arguments are given back in the end, and what it
gives is held by the host until the machine takes it. -/
theorem reckons_dispatch (hr : ∀ b ∈ r.builtins, b.Tidy) (m : Machine) (c : κ) (id : UInt32)
    (args : List Value) :
    Reckons (m.books (args ++ ws)) ((r.dispatch m c id args).2.1.books
      (Builtin.given (r.dispatch m c id args).1 ++ ws)) := by
  cases hb : r.meant? m.image id with
  | none =>
    have hlent : Reckons (m.books (args ++ ws)) ⟨m.heap, args ++ (m.books ws).roots⟩ :=
      .perm (m.perm_books args ws).symm
    unfold dispatch
    rw [hb]
    exact hlent.trans (reckons_release m.heap args _)
  | some b =>
    have htidy := Handles.reckons_path (hr b (mem_of_meant? hb) args m c) (m.operands ++ (m.locals ++ ws))
    rw [dispatch_of_meant hb]
    unfold Builtin.serve
    generalize b.run args m c = reply at htidy ⊢
    obtain ⟨result, heap, log, context⟩ := reply
    have hrun : Reckons (m.books (args ++ ws))
        (({ m with heap } : Machine).books (args ++ (Builtin.given result ++ ws))) := by
      refine .trans (.perm (m.perm_lent args ws).symm) (htidy.trans (.perm ?_))
      have hheld := ({ m with heap } : Machine).perm_lent (Builtin.given result ++ args) ws
      rw [List.append_assoc (Builtin.given result)] at hheld
      refine hheld.trans (.append_left _ (.append_left _ (.append_left _ ?_)))
      rw [List.append_assoc]
      exact List.perm_append_comm_assoc _ _ _
    have hback : Reckons (({ m with heap } : Machine).books (args ++ (Builtin.given result ++ ws)))
        ⟨heap, args ++ (({ m with heap } : Machine).books (Builtin.given result ++ ws)).roots⟩ :=
      .perm (({ m with heap } : Machine).perm_books args _).symm
    exact hrun.trans (hback.trans (reckons_release heap args _))

/-- A call that is answered by a tidy function keeps the books exact. -/
theorem reckons_answer (hr : ∀ b ∈ r.builtins, b.Tidy) (m : Machine) (c : κ) (id : UInt32)
    (args : List Value) : Reckons (m.books (args ++ ws)) ((r.answer m c id args).2.1.books ws) :=
  (reckons_dispatch hr m c id args).trans (Machine.reckons_settle _ _ _)

/-- However long a machine is driven, the books reckon from before to after. -/
theorem reckons_drive (hr : ∀ b ∈ r.builtins, b.Tidy) (m : Machine) (c : κ) :
    Reckons (m.books ws) ((r.drive m c).2.1.books ws) := by
  fun_induction drive r m c with
  | case1 m c m' hs ih =>
    have hstep : Machine.Settles ws m m.step := m.reckons_step
    rw [hs] at hstep
    exact hstep.trans ih
  | case2 m c m' id args hs u m'' c' ha ih =>
    have hstep : Machine.Settles ws m m.step := m.reckons_step
    have hanswer : Reckons (m'.books (args ++ ws)) _ := reckons_answer hr m' c id args
    rw [hs] at hstep
    rw [ha] at hanswer
    exact hstep.trans (hanswer.trans ih)
  | case3 m c m' id args hs f m'' c' ha =>
    have hstep : Machine.Settles ws m m.step := m.reckons_step
    have hanswer : Reckons (m'.books (args ++ ws)) _ := reckons_answer hr m' c id args
    rw [hs] at hstep
    rw [ha] at hanswer
    exact hstep.trans hanswer
  | case4 m c m' hs | case5 m c m' hs | case6 m c m' hs | case7 m c m' f hs =>
    have hstep : Machine.Settles ws m m.step := m.reckons_step
    rw [hs] at hstep
    exact hstep

/-- A turn leaves books that reckon from those before it. -/
theorem reckons_runTick (hr : ∀ b ∈ r.builtins, b.Tidy) (m : Machine) (c : κ) :
    Reckons (m.books ws) ((r.runTick m c).2.1.books ws) := by
  have hdrive : Reckons (m.startTick.books ws) _ := reckons_drive hr m.startTick c
  rw [runTick_eq]
  exact hdrive

end Registry

/-- A batch of steps settles the books as one step does. -/
theorem Machine.reckons_stepBatch (m : Machine) (ws : List Value) :
    Machine.Settles ws m m.stepBatch := by
  fun_induction stepBatch m with
  | case1 m m' hs ih =>
    have hstep : Machine.Settles ws m m.step := m.reckons_step
    rw [hs] at hstep
    exact hstep.trans ih
  | case2 m _ => exact m.reckons_step

/-- One thing that happens in a world: the machine gets a tick, makes a step or a batch of them, has a turn,
or gets the answer to a call, from a function of the host or from the host itself; the host writes the log,
copies the value of a global, or does something with the references that it holds. -/
inductive Happens (r : Registry κ) : World → World → Prop
  | startTick (m : Machine) (vs : List Value) : Happens r ⟨m, vs⟩ ⟨m.startTick, vs⟩
  | step (m : Machine) (vs : List Value) : Happens r ⟨m, vs⟩ ⟨m.step.1, m.step.2.args ++ vs⟩
  | stepBatch (m : Machine) (vs : List Value) :
      Happens r ⟨m, vs⟩ ⟨m.stepBatch.1, m.stepBatch.2.args ++ vs⟩
  | runTick (m : Machine) (vs : List Value) (c : κ) : Happens r ⟨m, vs⟩ ⟨(r.runTick m c).2.1, vs⟩
  | answer (m : Machine) (vs : List Value) (c : κ) (id : UInt32) (args : List Value) :
      Happens r ⟨m, args ++ vs⟩ ⟨(r.answer m c id args).2.1, vs⟩
  | pushResult (m : Machine) (vs : List Value) (v : Value) :
      Happens r ⟨m, v :: vs⟩ ⟨(m.pushResult v).2, vs⟩
  | log (m : Machine) (vs : List Value) (lines : List String) :
      Happens r ⟨m, vs⟩ ⟨{ m with log := lines }, vs⟩
  | global (m : Machine) (vs : List Value) {called : String} {v : Value}
      (named : m.global? called = some v) : Happens r ⟨m, vs⟩ ⟨{ m with heap := m.heap.retain v }, v :: vs⟩
  | handle {m : Machine} {vs vs' : List Value} {heap : Heap}
      (handles : Handles ⟨m.heap, vs⟩ ⟨heap, vs'⟩) : Happens r ⟨m, vs⟩ ⟨{ m with heap }, vs'⟩

/-- The value of a global is held by the globals. -/
theorem Machine.mem_globals_of_global? {m : Machine} {called : String} {v : Value}
    (h : m.global? called = some v) : v ∈ m.globals := by
  obtain ⟨slot, -, hv⟩ := Option.bind_eq_some_iff.1 h
  exact List.mem_of_getElem? hv

/-- **Whatever happens keeps the books exact.** -/
theorem Happens.reckons {r : Registry κ} (hr : ∀ b ∈ r.builtins, b.Tidy) {w w' : World}
    (h : Happens r w w') : Books.Reckons w.books w'.books := by
  cases h with
  | startTick m vs => exact .refl _
  | step m vs => exact m.reckons_step
  | stepBatch m vs => exact m.reckons_stepBatch vs
  | runTick m vs c => exact Registry.reckons_runTick hr m c
  | answer m vs c id args => exact Registry.reckons_answer hr m c id args
  | pushResult m vs v => exact m.reckons_pushResult v
  | log m vs lines => exact .refl _
  | @global m vs called v named =>
    have hmem : v ∈ (m.books vs).roots := by
      have hglobal := m.mem_globals_of_global? named
      simp [Machine.books, hglobal]
    have hcopy : Books.Reckons (m.books vs) ⟨m.heap.retain v, v :: (m.books vs).roots⟩ :=
      .of_move (.copy (List.mem_append_left _ hmem))
    exact hcopy.trans (.perm (({ m with heap := m.heap.retain v } : Machine).perm_books [v] vs))
  | @handle m vs vs' heap handles =>
    have hown := handles.reckons (m.books []).roots
    have hbefore := m.perm_books vs []
    have hafter := ({ m with heap } : Machine).perm_books vs' []
    rw [List.append_nil] at hbefore hafter
    exact .trans (.perm hbefore.symm) (hown.trans (.perm hafter))

/-- The books of a machine that has not started: its globals are null. -/
theorem exists_moves_start (image : Image) (shapes : List (List String)) (limits : Limits) :
    ∃ entries, Moves ⟨.empty, []⟩ entries ((Machine.start image shapes limits).books []) := by
  have hnulls (n : Nat) : ∃ entries, Moves ⟨.empty, []⟩ entries ⟨.empty, List.replicate n .null⟩ := by
    induction n with
    | zero => exact ⟨[], .none⟩
    | succ n ih =>
      obtain ⟨entries, hm⟩ := ih
      exact ⟨_, hm.more (.plain rfl)⟩
  obtain ⟨entries, hm⟩ := hnulls image.program.globals.length
  refine ⟨entries, ?_⟩
  simp only [Machine.books, Machine.start, List.nil_append, List.append_nil]
  exact hm

theorem exact_empty : Books.Exact ⟨.empty, []⟩ where
  distinct := List.nodup_nil
  below := fun _ hc => nomatch hc
  counted := fun _ hc => nomatch hc
  shown := fun _ hv => nomatch hv
  used := rfl

/-- The moves of a whole run. -/
theorem exists_moves_of_happens {r : Registry κ} (hr : ∀ b ∈ r.builtins, b.Tidy) {bytes : List UInt8}
    {limits : Limits} {m₀ : Machine} {w : World} (hload : Machine.load bytes limits = .ok m₀)
    (hw : Relation.ReflTransGen (Happens r) ⟨m₀, []⟩ w) :
    ∃ ledger, Moves ⟨.empty, []⟩ ledger w.books := by
  obtain ⟨image, shapes, -, -, rfl⟩ := Machine.load_eq_ok.1 hload
  induction hw with
  | refl => exact exists_moves_start image shapes limits
  | tail _ hlast ih =>
    obtain ⟨ledger, hm⟩ := ih
    obtain ⟨entries, hm'⟩ := hlast.reckons hr (exact_empty.moves hm)
    exact ⟨_, hm.trans hm'⟩

/-- A cell is live as long as something refers to it. -/
theorem Books.Exact.live_iff {s : Books} (hx : s.Exact) (r : Ref) :
    s.heap.Live r ↔ 0 < references r s.all := by
  constructor
  · rintro ⟨c, hc, rfl⟩
    obtain ⟨hcount, hpos⟩ := hx.counted c hc
    exact hcount ▸ hpos
  · intro hpos
    obtain ⟨v, hv, hcell⟩ := references_pos.1 hpos
    obtain ⟨c, hc, he, -⟩ := hx.shown v hv r hcell
    exact ⟨c, hc, he⟩

/-- **The heap's accounts are exact.** Load a machine from any bytes, with a host whose functions are those
of the library or tidy ones, and let anything happen: the machine runs, calls are answered, and the host
does whatever it likes with the references that it holds.

Then the bytes in use are the charges of the live cells, and those cells are live to which there is a
reference, from the stacks, the globals or the host, or from a live cell. All that was done to the heap is
made of moves, and these have written a ledger: what was added when a cell was made and when it grew is its
charge, and is taken off when the cell goes, once and never more than there is (`Recorded`). A text of the
program itself is pushed without touching the heap. When no cells refer to each other in a circle, giving
back all references, in whatever order, leaves no byte in use. -/
theorem accounts_exact (modules : List (Module κ))
    (hmodules : ∀ module ∈ modules,
      module ∈ [Module.standard, Module.memory, Module.floatingPoint] ∨
        ∀ b ∈ module.builtins, b.Tidy)
    {bytes : List UInt8} {limits : Limits} {m₀ : Machine} {w : World}
    (hload : Machine.load bytes limits = .ok m₀)
    (hw : Relation.ReflTransGen (Happens (Registry.ofModules modules)) ⟨m₀, []⟩ w) :
    w.machine.heap.used = (w.machine.heap.cells.map fun c => c.body.charge).sum ∧
    (w.machine.heap.cells.map Cell.ref).Nodup ∧
    (∀ r, w.machine.heap.Live r ↔ 0 < references r (w.machine.operands ++ (w.machine.locals ++
      (w.machine.globals ++ w.slots)) ++ w.machine.heap.held)) ∧
    (∃ ledger, Moves ⟨.empty, []⟩ ledger w.books ∧ Recorded ledger w.machine.heap) ∧
    (∀ id s, w.machine.image.text? id = some s → w.machine.exec (.pushText id) =
      ({ w.machine with operands := .text none s :: w.machine.operands }, .running)) ∧
    (w.machine.heap.Acyclic → ∀ vs, vs.Perm (w.machine.operands ++ (w.machine.locals ++
      (w.machine.globals ++ w.slots))) → (w.machine.heap.release vs).used = 0) := by
  have htidy : ∀ b ∈ (Registry.ofModules modules).builtins, b.Tidy :=
    Registry.forall_ofModules (fun _ => Builtin.tidy_standard) (fun _ => Builtin.tidy_memory)
      (fun _ => Builtin.tidy_floatingPoint) hmodules
  -- The ledger collects the entries of all that happened, and the books follow from it.
  obtain ⟨ledger, hm⟩ := exists_moves_of_happens htidy hload hw
  have hx : w.books.Exact := exact_empty.moves hm
  refine ⟨hx.used, hx.distinct, hx.live_iff, ⟨ledger, hm, ?_⟩, ?_, ?_⟩
  · exact recorded_empty.moves exact_empty hm
  · intro id s hs
    simp only [Machine.exec, hs]
    rfl
  · intro hacyclic vs hvs
    exact ((hx.perm hvs.symm).release_all hacyclic).2

/-- A program that pushes a tuple onto an array in every tick, after two turns, when the host holds a text:
the array has room for four items, and holds two tuples. -/
theorem accounts_exact_pushing :
    ∃ m₀ w, Machine.load (Image.link ⟨(Registry.ofModules [(Module.memory : Module Unit)]).signatures, ["a"],
        [], [.makeArray 0, .storeGlobal 0, .tick [.loadGlobal 0, .pushInt 1, .pushInt 2, .makeTuple 2,
          .callBuiltin 0, .discard]]⟩).encode .least = .ok m₀ ∧
      Relation.ReflTransGen (Happens (Registry.ofModules [(Module.memory : Module Unit)])) ⟨m₀, []⟩ w ∧
      w.machine.heap.used = (48 + 16 * 4) + 2 * (40 + 16 * 2) + (32 + 4) ∧
      w.machine.heap.used = (w.machine.heap.cells.map fun c => c.body.charge).sum := by
  obtain ⟨r, hr⟩ : ∃ r : Registry Unit, r = .ofModules [Module.memory] := ⟨_, rfl⟩
  obtain ⟨p, hp, hsize, hshapes, hused⟩ : ∃ p : Program String (List String),
      p = ⟨(Registry.ofModules [(Module.memory : Module Unit)]).signatures, ["a"], [],
        [.makeArray 0, .storeGlobal 0, .tick [.loadGlobal 0, .pushInt 1, .pushInt 2, .makeTuple 2,
          .callBuiltin 0, .discard]]⟩ ∧
      (Image.link p).encode.length < UInt32.size ∧ (Image.link p).Resolves [] ∧
      ((((Registry.ofModules [(Module.memory : Module Unit)]).runTick
        ((Registry.ofModules [Module.memory]).runTick (.start (Image.link p) [] .least) ()).2.1
          ()).2.1.heap).text "held").2.used = 292 :=
    ⟨_, rfl, by decide +kernel, rfl, by cbv⟩
  rw [← hp, ← hr]
  rw [← hr] at hused
  have hload := Machine.load_link (.of_length_encode hsize) hshapes .least
  generalize Machine.start (Image.link p) [] .least = m₀ at hused hload
  have hw : Relation.ReflTransGen (Happens r) ⟨m₀, []⟩ _ :=
    .tail (.tail (.single (.runTick m₀ [] ())) (.runTick _ [] ())) (.handle (.build (.text "held")))
  refine ⟨m₀, _, hload, hw, hused, ?_⟩
  subst hr
  exact (accounts_exact [Module.memory] (fun _ hm => .inl (List.mem_singleton.1 hm ▸
    List.mem_cons_of_mem _ List.mem_cons_self)) hload hw).1

end TickScript
