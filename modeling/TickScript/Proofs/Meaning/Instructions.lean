import TickScript.Proofs.Builtin.Conduct
import TickScript.Proofs.Meaning.Simulation

/-!
# Instructions do what the script does

Each instruction is the last part of something that the script does, when the parts before it have left
their values as operands. One rule for each says so. An instruction that meets a limit needs no rule of
its own, since nothing is claimed of a run that is cut short.
-/

namespace TickScript

variable {κ α : Type} {w : Setting κ} {fuel : Nat} {s : Course κ} {st : Store κ} {m : Machine}
  {f : Frame} {frames : List Frame} {i : Code} {code k : List Code} {operands locals : List Value}

/-! ## The next instruction -/

namespace Machine.At

/-- The place and the meter are no part of what a machine shares with a script. -/
theorem moved (hm : m.At w st f frames code operands locals) {rest : List Op} {location : Location}
    {spent : Nat} (hr : w.image.spelled? rest = some k) :
    ({ m with frames := { f with rest } :: frames, location, spent } : Machine).At w st f frames k operands
      locals :=
  { hm with frames := ⟨rest, rfl, hr⟩ }

/-- The machine with other operands and another heap. -/
theorem changed (hm : m.At w st f frames code operands locals) {taken given : List Value}
    {heap heap' : Heap} (ho : taken = given) (hh : heap = heap') :
    ({ m with operands := taken, heap } : Machine).At w { st with heap := heap' } f frames code given
      locals :=
  { hm with heap := hh, operands := ho }

end Machine.At

namespace Course

/-- The run is about to do what comes next: to run the first instruction of some code, or to leave the
frame whose code is used up. -/
inductive About (w : Setting κ) (s : Course κ) (st : Store κ) (f : Frame) (frames : List Frame)
    (operands locals : List Value) : List Code → Prop where
  | run {m : Machine} {op : Op} {i : Code} {k : List Code} (hi : w.image.Spells op i)
      (hm : m.At w st f frames k operands locals) (hd : s.Doing (m.exec op)) :
      About w s st f frames operands locals (i :: k)
  | leave {m : Machine} (hm : m.At w st f frames [] operands locals) (hd : s.Doing m.endFrame) :
      About w s st f frames operands locals []

/-- The run is cut short, or passes the places in front of its code. -/
theorem At.toward_about (hs : s.At w st f frames code operands locals) :
    s.Toward w.registry fun s' => s'.Keeps st ∧ s'.About w st f frames operands locals code := by
  obtain ⟨rest, hf, hr⟩ := hs.machine.frames
  induction rest generalizing s with
  | nil =>
    rcases toward_doing (r := w.registry) hs.keeps.isOver hs.machine.phase with hc | hd
    · exact .inl hc
    · rw [Machine.execNext_of_nil (m := { s.machine with spent := s.machine.spent + 1 }) hf rfl] at hd
      cases hr
      have hm : ({ s.machine with spent := s.machine.spent + 1 } : Machine).At w st f frames [] operands
          locals := { hs.machine with frames := ⟨[], hf, rfl⟩ }
      exact .here ⟨hs.keeps, .leave hm hd⟩
  | cons op ops ih =>
    rcases toward_doing (r := w.registry) hs.keeps.isOver hs.machine.phase with hc | hd
    · exact .inl hc
    · rw [Machine.execNext_of_cons (m := { s.machine with spent := s.machine.spent + 1 }) hf rfl] at hd
      -- A place is passed, and leaves the machine at the code behind it.
      have hpass {location : Location}
          (hd : s.Doing ({ s.machine with
            frames := { f with rest := ops } :: frames, location,
            spent := s.machine.spent + 1 } : Machine).go)
          (hops : w.image.spelled? ops = some code) :
          s.Toward w.registry fun s' => s'.Keeps st ∧ s'.About w st f frames operands locals code := by
        refine .step ?_
        rw [hd.step_eq]
        exact ih ⟨hs.keeps.goes w.registry _,
          hs.machine.moved hops⟩ rfl hops
      cases Image.spelled?_cons hr with
      | line n hops => exact hpass hd hops
      | file ht hops =>
        rw [← hs.machine.image] at ht
        simp only [Machine.exec, ht] at hd
        exact hpass hd hops
      | work hk hi hops =>
        cases hk
        exact .here ⟨hs.keeps, .run hi (hs.machine.moved hops) hd⟩

end Course

/-- What an instruction does is simulated if its step does it. -/
theorem Sim.run {x : Action κ α} {post : α → Store κ → Course κ → Prop}
    (hs : s.At w st f frames (i :: k) operands locals)
    (h : ∀ (s' : Course κ) (m : Machine) (op : Op), s'.Keeps st → w.image.Spells op i →
      m.At w st f frames k operands locals → s'.Doing (m.exec op) → Sim w fuel s' st x post) :
    Sim w fuel s st x post := by
  refine .toward hs.toward_about ?_
  intro s' ha
  obtain ⟨hk, ha⟩ := ha
  cases ha with
  | run hi hm hd => exact h s' _ _ hk hi hm hd

/-- What comes after some code that is used up is simulated if leaving the frame does it. -/
theorem Sim.leave {x : Action κ α} {post : α → Store κ → Course κ → Prop}
    (hs : s.At w st f frames [] operands locals)
    (h : ∀ (s' : Course κ) (m : Machine), s'.Keeps st → m.At w st f frames [] operands locals →
      s'.Doing m.endFrame → Sim w fuel s' st x post) :
    Sim w fuel s st x post := by
  refine .toward hs.toward_about ?_
  intro s' ha
  obtain ⟨hk, ha⟩ := ha
  cases ha with
  | leave hm hd => exact h s' _ hk hm hd

/-! ## Values -/

/-- An instruction that pushes a value of the script's own text. -/
theorem sim_push {v : Value} (hs : s.At w st f frames (i :: k) operands locals)
    (hexec : ∀ (m : Machine) (op : Op), m.image = w.image → w.image.Spells op i →
      m.exec op = (m.push v).go) :
    Sim w fuel s st (pure v) fun v st' s' => s'.At w st' f frames k (v :: operands) locals := by
  refine .run hs ?_
  intro s' m op hk hi hm hd
  rw [hexec m op hm.image hi] at hd
  exact .go hk hd rfl (hm.changed (by rw [hm.operands]) hm.heap) fun _ h => h

/-- Taking a member of a tuple replaces the tuple by the member. -/
theorem sim_tupleMember {index : UInt32} {v : Value}
    (hs : s.At w st f frames (.tupleMember index :: k) (v :: operands) locals) :
    Sim w fuel s st (Action.tupleMember v index.toNat) fun part st' s' =>
      s'.At w st' f frames k (part :: operands) locals := by
  refine .run hs ?_
  intro s' m op hk hi hm hd
  cases hi
  simp only [Machine.exec, Machine.tupleMember, hm.operands] at hd
  cases v with
  | tuple cell flat items =>
    unfold Action.tupleMember
    cases hp : items[index.toNat]? with
    | some part =>
      simp only [hp] at hd ⊢
      exact .go hk hd (Action.on_exchange ..) (hm.changed rfl (by rw [hm.heap])) fun _ h => h
    | none =>
      simp only [hp] at hd ⊢
      exact .stop hk hd (Action.on_refuse ..) (hm.changed rfl (by rw [hm.heap])).toMirrors
  | _ => exact .stop hk hd (Action.on_refuse ..) (hm.changed rfl (by rw [hm.heap])).toMirrors

/-- Taking a member of an object replaces the object by the member. -/
theorem sim_objectMember {member : String} {v : Value}
    (hs : s.At w st f frames (.objectMember member :: k) (v :: operands) locals) :
    Sim w fuel s st (Action.objectMember v member) fun part st' s' =>
      s'.At w st' f frames k (part :: operands) locals := by
  refine .run hs ?_
  intro s' m op hk hi hm hd
  cases hi with
  | objectMember ht =>
    rw [← hm.image] at ht
    simp only [Machine.exec, Machine.objectMember, ht, hm.operands] at hd
    cases v with
    | object r =>
      simp only [hm.heap] at hd
      cases hp : st.heap.member? r member with
      | some part =>
        have hx : (Action.objectMember (.object r) member : Action κ Value).on st =
            (Action.exchange [.object r] part).on st := by
          simp only [Action.objectMember, Action.on_bind, Action.on_get, hp]
        simp only [hp] at hd
        exact .go hk hd (hx.trans (Action.on_exchange ..)) (hm.changed rfl (by rw [hm.heap])) fun _ h => h
      | none =>
        have hx : (Action.objectMember (.object r) member : Action κ Value).on st =
            (Action.refuse [.object r] .noSuchMember).on st := by
          simp only [Action.objectMember, Action.on_bind, Action.on_get, hp]
        simp only [hp] at hd
        exact .stop hk hd (hx.trans (Action.on_refuse ..))
          (hm.changed rfl (by rw [hm.heap])).toMirrors
    | _ => exact .stop hk hd (Action.on_refuse ..) (hm.changed rfl (by rw [hm.heap])).toMirrors

/-- Indexing replaces the list and the index by the element. -/
theorem sim_element {v index : Value}
    (hs : s.At w st f frames (.element :: k) (index :: v :: operands) locals) :
    Sim w fuel s st (Action.element v index) fun part st' s' =>
      s'.At w st' f frames k (part :: operands) locals := by
  refine .run hs ?_
  intro s' m op hk hi hm hd
  cases hi
  simp only [Machine.exec, Machine.element, hm.operands] at hd
  cases index with
  | int n =>
    cases v with
    | array r =>
      simp only [hm.heap] at hd
      cases hp : (Machine.elementIndex? n).bind ((st.heap.items r)[·]?) with
      | some part =>
        have hx : (Action.element (.array r) (.int n) : Action κ Value).on st =
            (Action.exchange [.array r] part).on st := by
          simp only [Action.element, Action.on_bind, Action.on_get, hp]
        simp only [hp] at hd
        exact .go hk hd (hx.trans (Action.on_exchange ..)) (hm.changed rfl (by rw [hm.heap])) fun _ h => h
      | none =>
        have hx : (Action.element (.array r) (.int n) : Action κ Value).on st =
            (Action.refuse [.array r] .arrayIndexOutOfBounds).on st := by
          simp only [Action.element, Action.on_bind, Action.on_get, hp]
        simp only [hp] at hd
        exact .stop hk hd (hx.trans (Action.on_refuse ..))
          (hm.changed rfl (by rw [hm.heap])).toMirrors
    | _ => exact .stop hk hd (Action.on_refuse ..) (hm.changed rfl (by rw [hm.heap])).toMirrors
  | _ => exact .stop hk hd (Action.on_refuse ..) (hm.changed rfl (by rw [hm.heap])).toMirrors

/-- A unary operator replaces its operand by its result. -/
theorem sim_unary {op : UnaryOp} {v : Value}
    (hs : s.At w st f frames (.unary op :: k) (v :: operands) locals) :
    Sim w fuel s st (Action.unary op v) fun result st' s' =>
      s'.At w st' f frames k (result :: operands) locals := by
  refine .run hs ?_
  intro s' m op' hk hi hm hd
  cases hi
  simp only [Machine.exec, Machine.unary, hm.operands] at hd
  unfold Action.unary
  cases ha : op.apply v with
  | ok result =>
    simp only [ha] at hd ⊢
    exact .go hk hd (Action.on_exchange ..) (hm.changed rfl (by rw [hm.heap])) fun _ h => h
  | error cause =>
    simp only [ha] at hd ⊢
    exact .stop hk hd (Action.on_refuse ..) (hm.changed rfl (by rw [hm.heap])).toMirrors

/-- A binary operator replaces its operands by its result. -/
theorem sim_binary {op : BinaryOp} {v v' : Value}
    (hs : s.At w st f frames (.binary op :: k) (v' :: v :: operands) locals) :
    Sim w fuel s st (Action.binary op v v') fun result st' s' =>
      s'.At w st' f frames k (result :: operands) locals := by
  refine .run hs ?_
  intro s' m op' hk hi hm hd
  cases hi
  simp only [Machine.exec, Machine.binary, hm.operands] at hd
  unfold Action.binary
  cases ha : op.apply v v' with
  | ok result =>
    simp only [ha] at hd ⊢
    exact .go hk hd (Action.on_exchange ..) (hm.changed rfl (by rw [hm.heap])) fun _ h => h
  | error cause =>
    simp only [ha] at hd ⊢
    exact .stop hk hd (Action.on_refuse ..) (hm.changed rfl (by rw [hm.heap])).toMirrors

/-! ## Making values -/

/-- The operands that were pushed last, in the order in which they were pushed. -/
theorem takeOperands_append (vs rest : List Value) :
    Machine.takeOperands vs.length (vs.reverse ++ rest) = some (vs, rest) := by
  have hl : vs.length = vs.reverse.length := List.length_reverse.symm
  unfold Machine.takeOperands
  rw [if_pos (by rw [List.length_append, List.length_reverse]; omega), hl, List.take_left, List.drop_left,
    List.reverse_reverse]

/-- Making a tuple takes its members off the operands, the last one first. -/
theorem sim_makeTuple {n : UInt32} {vs : List Value} (hn : n.toNat = vs.length)
    (hs : s.At w st f frames (.makeTuple n :: k) (vs.reverse ++ operands) locals) :
    Sim w fuel s st (Action.make (·.tuple vs)) fun v st' s' =>
      s'.At w st' f frames k (v :: operands) locals := by
  refine .run hs ?_
  intro s' m op hk hi hm hd
  cases hi
  simp only [Machine.exec, Machine.makeTuple, hm.operands, hn, takeOperands_append] at hd
  split at hd
  · exact .limit hd rfl
  · exact .go hk hd (Action.on_make ..) (hm.changed (by rw [hm.heap]) (by rw [hm.heap])) fun _ h => h

/-- Making an array takes its elements off the operands, the last one first. -/
theorem sim_makeArray {n : UInt32} {vs : List Value} (hn : n.toNat = vs.length)
    (hs : s.At w st f frames (.makeArray n :: k) (vs.reverse ++ operands) locals) :
    Sim w fuel s st (Action.make (·.array vs)) fun v st' s' =>
      s'.At w st' f frames k (v :: operands) locals := by
  refine .run hs ?_
  intro s' m op hk hi hm hd
  cases hi
  simp only [Machine.exec, Machine.makeArray, hm.operands, hn, takeOperands_append] at hd
  split at hd
  · exact .limit hd rfl
  · exact .go hk hd (Action.on_make ..) (hm.changed (by rw [hm.heap]) (by rw [hm.heap])) fun _ h => h

/-- Making an object takes as many operands as its shape has names. -/
theorem sim_makeObject {names : List String} {vs : List Value} (hn : names.length = vs.length)
    (hshapes : ∀ id, w.image.shape? id = some names → w.shapes[id.toNat]? = some names)
    (hs : s.At w st f frames (.makeObject names :: k) (vs.reverse ++ operands) locals) :
    Sim w fuel s st (Action.make (·.object names vs)) fun v st' s' =>
      s'.At w st' f frames k (v :: operands) locals := by
  refine .run hs ?_
  intro s' m op hk hi hm hd
  cases hi with
  | makeObject hshape =>
    have hnames := hshapes _ hshape
    rw [← hm.shapes] at hnames
    simp only [Machine.exec, Machine.makeObject, hnames, hm.operands, hn, takeOperands_append] at hd
    exact .go hk hd (Action.on_make ..) (hm.changed (by rw [hm.heap]) (by rw [hm.heap])) fun _ h => h

/-! ## Effects -/

/-- A discarded operand is released. -/
theorem sim_discard {v : Value} (hs : s.At w st f frames (.discard :: k) (v :: operands) locals) :
    Sim w fuel s st (Action.drop [v]) fun _ st' s' => s'.At w st' f frames k operands locals := by
  refine .run hs ?_
  intro s' m op hk hi hm hd
  cases hi
  simp only [Machine.exec, hm.operands] at hd
  exact .go hk hd (Action.on_drop ..) (hm.changed rfl (by rw [hm.heap])) fun _ h => h

/-- Making an operand a local changes nothing else. -/
theorem sim_pushLocal {v : Value} {a : α}
    (hs : s.At w st f frames (.pushLocal :: k) (v :: operands) locals) :
    Sim w fuel s st (pure a) fun a' st' s' =>
      a' = a ∧ s'.At w st' f frames k operands (v :: locals) := by
  refine .run hs ?_
  intro s' m op hk hi hm hd
  cases hi
  simp only [Machine.exec, Machine.pushLocal, hm.operands] at hd
  exact .go hk hd (Action.on_pure ..)
    { hm with operands := rfl, locals := congrArg (v :: ·) hm.locals } fun _ h => ⟨rfl, h⟩

/-- A changed heap is put in place, or there is none. -/
theorem sim_change {target v : Value} {cause : Cause} {changed : Heap → Option Heap}
    {given : List Value} (hk : s.Keeps st) (hm : m.At w st f frames k given locals)
    (hsome : ∀ heap, changed st.heap = some heap →
      s.Doing ({ m with operands, heap := heap.release [target] } : Machine).go)
    (hnone : changed st.heap = none → s.Doing ((m.dropped operands [v, target]).stop cause)) :
    Sim w fuel s st (Action.change target v cause changed) fun _ st' s' =>
      s'.At w st' f frames k operands locals := by
  cases hc : changed st.heap with
  | some heap =>
    have hx : (Action.change target v cause changed).on st =
        (.ok (), { st with heap := heap.release [target] }) := by
      simp only [Action.change, Action.on_bind, Action.on_get, hc]
      rfl
    exact .go hk (hsome heap hc) hx (hm.changed rfl rfl) fun _ h => h
  | none =>
    have hx : (Action.change target v cause changed).on st =
        (.error (.failed cause none), { st with heap := st.heap.release [v, target] }) := by
      simp only [Action.change, Action.on_bind, Action.on_get, hc]
      rfl
    exact .stop hk (hnone hc) hx (hm.changed rfl (by rw [hm.heap])).toMirrors

/-- Storing a member takes the object and the value off the operands. -/
theorem sim_storeMember {member : String} {target v : Value}
    (hs : s.At w st f frames (.storeMember member :: k) (v :: target :: operands) locals) :
    Sim w fuel s st (Action.storeMember target member v) fun _ st' s' =>
      s'.At w st' f frames k operands locals := by
  refine .run hs ?_
  intro s' m op hk hi hm hd
  cases hi with
  | storeMember ht =>
    rw [← hm.image] at ht
    simp only [Machine.exec, Machine.storeMember, ht, hm.operands] at hd
    cases target with
    | object r =>
      simp only [hm.heap] at hd
      rw [Action.storeMember]
      refine sim_change hk hm (fun heap hc => ?_) (fun hc => ?_)
      · simpa only [hc] using hd
      · simpa only [hc] using hd
    | _ => exact .stop hk hd (Action.on_refuse ..) (hm.changed rfl (by rw [hm.heap])).toMirrors

/-- Storing an element takes the list, the index and the value off the operands. -/
theorem sim_storeElement {target index v : Value}
    (hs : s.At w st f frames (.storeElement :: k) (v :: index :: target :: operands) locals) :
    Sim w fuel s st (Action.storeElement target index v) fun _ st' s' =>
      s'.At w st' f frames k operands locals := by
  refine .run hs ?_
  intro s' m op hk hi hm hd
  cases hi
  simp only [Machine.exec, Machine.storeElement, hm.operands] at hd
  cases index with
  | int n =>
    cases target with
    | array r =>
      simp only [hm.heap] at hd
      rw [Action.storeElement]
      refine sim_change hk hm (fun heap hc => ?_) (fun hc => ?_)
      · simpa only [hc] using hd
      · simpa only [hc] using hd
    | _ => exact .stop hk hd (Action.on_refuse ..) (hm.changed rfl (by rw [hm.heap])).toMirrors
  | _ => exact .stop hk hd (Action.on_refuse ..) (hm.changed rfl (by rw [hm.heap])).toMirrors

/-! ## Calls of the host -/

/-- What a function of the host makes of a call, and what it leaves. -/
theorem Builtin.on_call (b : Builtin κ) (memory : Nat) (args : List Value) (st : Store κ) :
    (b.call memory args).on st =
      ((b.run args (.vacant memory st.heap st.log) st.context).result.mapError fun f =>
          .failed f.cause f.detail,
        { st with
          heap := (b.run args (.vacant memory st.heap st.log) st.context).heap.release args
          log := (b.run args (.vacant memory st.heap st.log) st.context).log
          context := (b.run args (.vacant memory st.heap st.log) st.context).context }) := rfl

/-- A call of a builtin is answered as the interpreter answers it, if the builtin reads no machine. -/
theorem sim_callBuiltin {id : UInt32} {vs : List Value} {b : Builtin κ} {sig : Signature UInt32}
    (hsig : w.image.program.builtins[id.toNat]? = some sig) (harity : sig.arity.toNat = vs.length)
    (hb : w.registry.meant? w.image id = some b) (hdetached : b.Detached)
    (hs : s.At w st f frames (.callBuiltin id :: k) (vs.reverse ++ operands) locals) :
    Sim w fuel s st (b.call w.memory vs) fun v st' s' =>
      s'.At w st' f frames k (v :: operands) locals := by
  refine .run hs ?_
  intro s' m op hk hi hm hd
  cases hi
  have hsig' := hsig
  rw [← hm.image] at hsig'
  simp only [Machine.exec, Machine.callBuiltin, hsig', hm.operands, harity, takeOperands_append] at hd
  have hx := b.on_call w.memory vs st
  have hstep := hd.step_eq (r := w.registry)
  obtain ⟨waiting, hwaiting⟩ : ∃ waiting : Machine, { m with
    operands := operands, spent := m.spent + (sig.cost.toNat - 1), phase := .awaiting } = waiting := ⟨_, rfl⟩
  have hmeant : w.registry.meant? waiting.image id = some b := by rw [← hwaiting, hm.image]; exact hb
  -- The machine that waits shows the function no more than the store of the script does.
  have hsame := hdetached vs waiting st.context
  rw [show waiting.limits.memory = w.memory by rw [← hwaiting]; exact hm.memory,
    show waiting.heap = st.heap by rw [← hwaiting]; exact hm.heap,
    show waiting.log = st.log by rw [← hwaiting]; exact hm.log] at hsame
  rw [hwaiting] at hstep
  simp only [Course.follow, Registry.answer, Service.answer, Registry.dispatch_of_meant hmeant,
    Builtin.serve, hk.context] at hstep
  generalize b.run vs (.vacant w.memory st.heap st.log) st.context = apart at hsame hx
  generalize b.run vs waiting st.context = reply at hsame hstep
  obtain ⟨result', heap, log, context⟩ := apart
  obtain ⟨result, heap', log', context'⟩ := reply
  obtain ⟨hresult, rfl, rfl, rfl⟩ := hsame
  subst hwaiting
  cases result with
  | ok v =>
    cases result' with
    | error f => cases hresult
    | ok v' =>
      cases hresult
      refine .of_ok hx (.step ?_)
      rw [hstep]
      exact .here ⟨⟨rfl, hk.past, hk.left, hk.isOver⟩,
        { hm with heap := rfl, log := rfl, phase := rfl, operands := rfl }⟩
  | error f =>
    cases result' with
    | ok v => cases hresult
    | error f' =>
      obtain ⟨hcause, hdetail⟩ := Prod.mk.inj (Except.error.inj hresult)
      refine .of_error hx (.step ?_)
      rw [hstep]
      refine .here ⟨f, hcause, hdetail, rfl, hm.image, rfl, hm.globals, rfl, ?_⟩
      change s'.past ++ [_] = _
      rw [hk.past]
      rfl

end TickScript
