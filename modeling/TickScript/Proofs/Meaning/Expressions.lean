import Mathlib
import TickScript.Proofs.Meaning.Variables
import TickScript.Proofs.Program.Balance

/-!
# The code of an expression computes its value

The code of an expression is the code of its parts, from left to right, and then one instruction. So a
run through it simulates the evaluation of the expression (`Expr.sim`): the values of the parts wait as
operands, in the order in which they were computed. Calls of the script's own functions are simulated
by assumption here (`Invokes`); the assumption is discharged where functions are called.
-/

namespace TickScript

variable {κ : Type}

/-- The image of a setting is that of a script with the names of the setting. -/
structure Setting.Linked (w : Setting κ) : Prop where
  numbered : w.names.Numbered
  globals : w.names.globals.length ≤ UInt32.size
  shapes : ∀ (id : UInt32) (names : List String), w.image.shape? id = some names →
    w.shapes[id.toNat]? = some names
  builtins : w.names.builtins = w.registry.signatures
  detached : ∀ b ∈ w.registry.builtins, b.Detached
  signatures : ∀ (id : UInt32) (b : Signature String), w.names.builtins[id.toNat]? = some b →
    ∃ b', w.image.program.builtins[id.toNat]? = some b' ∧ w.image.text? b'.name = some b.name ∧
      b'.arity = b.arity
  functions : ∀ (id : UInt32) (d : Declaration), w.names.functions[id.toNat]? = some d →
    ∃ fn body, w.image.program.functions[id.toNat]? = some fn ∧ (w.image.text? fn.name).isSome ∧
      lowerStmts w.names (.ofParams d.params) d.body = .ok body ∧
      w.image.spelled? fn.body = some (List.replicate d.params.length .pushLocal ++ bareAll body) ∧
      d.params.length + countInstrs Instr.isWork body < UInt32.size

/-- The instruction that calls a function of the script simulates its call. -/
def Invokes (w : Setting κ) (fuel : Nat) (invoke : Declaration → List Value → Action κ Value) : Prop :=
  ∀ (id : UInt32) (d : Declaration) (vs : List Value) (s : Course κ) (st : Store κ) (f : Frame)
    (frames : List Frame) (k : List Code) (operands locals : List Value),
    w.names.functions[id.toNat]? = some d → d.params.length = vs.length →
    s.At w st f frames (.call id :: k) (vs.reverse ++ operands) locals →
    Sim w fuel s st (invoke d vs) fun v st' s' => s'.At w st' f frames k (v :: operands) locals

/-! ## Code that ends with an instruction -/

/-- Without marks, code that ends in a work instruction ends in it still. -/
theorem bareAll_last (loc : Location) (code : List Code) {i j : Code} (k : List Code) (hi : i.bare = [j]) :
    bareAll (placed loc ++ code ++ [i]) ++ k = bareAll code ++ j :: k := by
  rw [List.append_assoc, bareAll_placed, bareAll_append, bareAll, hi, List.append_assoc]
  rfl

/-- Without marks, a marked instruction is the instruction. -/
theorem bareAll_only (loc : Location) {i j : Code} (k : List Code) (hi : i.bare = [j]) :
    bareAll (placed loc ++ [i]) ++ k = j :: k := by
  rw [bareAll_placed, bareAll, hi]
  rfl

/-- The instruction that reads a variable holds no marks. -/
theorem Names.bare_load {ns : Names} {scope : Scope} {s : String} {i : Code}
    (h : ns.load? scope s = some i) : i.bare = [i] := by
  unfold Names.load? at h
  split at h <;> cases h <;> rfl

/-! ## Calls -/

section Calls

variable {w : Setting κ} {fuel : Nat} {invoke : Declaration → List Value → Action κ Value}
  {s : Course κ} {st : Store κ} {f : Frame} {frames : List Frame} {k : List Code}
  {operands locals : List Value}

/-- The function of the host that a call resolves to is the one that the script finds by name. -/
theorem Setting.Linked.meant (hw : w.Linked) {callee : String} {id : UInt32} {sig : Signature String}
    (hfirst : w.names.builtins.findIdx? (fun b => b.name == callee) = some id.toNat)
    (hget : w.names.builtins[id.toNat]? = some sig) :
    ∃ b, w.registry.get? callee = some b ∧ w.registry.meant? w.image id = some b := by
  rw [hw.builtins, Registry.signatures] at hfirst
  rw [List.findIdx?_map] at hfirst
  obtain ⟨sig', hsig', hname, -⟩ := hw.signatures id sig hget
  rw [hw.builtins, Registry.signatures, List.getElem?_map] at hget
  obtain ⟨b, hb, rfl⟩ := Option.map_eq_some_iff.1 hget
  refine ⟨b, ?_, ?_⟩
  · obtain ⟨hlt, hp, hbefore⟩ := List.findIdx?_eq_some_iff_getElem.1 hfirst
    unfold Registry.get?
    rw [List.find?_eq_some_iff_getElem]
    have hbe : w.registry.builtins[id.toNat] = b := (List.getElem?_eq_some_iff.1 hb).2
    refine ⟨by rw [← hbe]; exact hp, id.toNat, hlt, hbe, fun j hj => ?_⟩
    have hj := hbefore j hj
    simpa [Builtin.signature] using hj
  · refine Registry.meant?_eq_some.2 ⟨hb, ?_⟩
    unfold Image.builtinName?
    rw [hsig']
    exact hname

/-- A call of a function or a builtin does what the interpreter does at it. -/
theorem sim_call (hw : w.Linked) (hinv : Invokes w fuel invoke) {loc : Location} {callee : String}
    {vs : List Value} {i : Code} (hcall : w.names.resolveCall loc callee vs.length = .ok i)
    (hlen : vs.length < UInt32.size)
    (hs : s.At w st f frames (i :: k) (vs.reverse ++ operands) locals) :
    Sim w fuel s st (w.surroundings.call invoke callee vs) fun v st' s' =>
      s'.At w st' f frames k (v :: operands) locals := by
  unfold Surroundings.call
  rcases Names.resolveCall_eq_ok hw.numbered hcall with
    ⟨id, d, rfl, hfind, hget, harity⟩ | ⟨id, b, rfl, hnone, hfirst, hget, harity⟩
  · have hf : w.surroundings.functions.find? (fun d => d.name == callee) = some d := hfind
    rw [hf]
    obtain ⟨fn, body, -, -, -, -, hcount⟩ := hw.functions id d hget
    have hparams : d.params.length = vs.length := by
      have h := congrArg UInt32.toNat harity
      rwa [UInt32.toNat_ofNat_of_lt' (by omega), UInt32.toNat_ofNat_of_lt' hlen] at h
    exact hinv id d vs s st f frames k operands locals hget hparams hs
  · have hf : w.surroundings.functions.find? (fun d => d.name == callee) = none := hnone
    rw [hf]
    obtain ⟨b', hb', hmeant⟩ := hw.meant hfirst hget
    have hr : w.surroundings.registry.get? callee = some b' := hb'
    obtain ⟨sig, hsig, -, ha⟩ := hw.signatures id b hget
    dsimp only
    rw [hr]
    refine sim_callBuiltin hsig ?_ hmeant (hw.detached b' (Registry.mem_of_meant? hmeant)) hs
    rw [ha, harity, UInt32.toNat_ofNat_of_lt' hlen]

end Calls

/-! ## Expressions -/

section Expressions

variable {w : Setting κ} {fuel : Nat} {invoke : Declaration → List Value → Action κ Value}
  {scope : Scope} {env : Blocks} {f : Frame} {frames : List Frame} {below : List Value}

mutual

/-- The code of an expression computes its value and leaves it as an operand. -/
theorem Expr.sim (hw : w.Linked) (hinv : Invokes w fuel invoke) (hv : Scoped scope env f frames below)
    {e : Expr} {code : List Code} (h : e.lower w.names scope = .ok code)
    (hc : countInstrs Instr.isWork code < UInt32.size) {s : Course κ} {st : Store κ} {k : List Code}
    {operands : List Value}
    (hs : s.At w st f frames (bareAll code ++ k) operands (env.values ++ below)) :
    Sim w fuel s st (e.eval w.surroundings invoke env) fun v st' s' =>
      s'.At w st' f frames k (v :: operands) (env.values ++ below) := by
  cases e with
  | name loc t =>
    simp only [Expr.lower, bind_eq_ok, pure_eq_ok, orUnknown_eq_ok] at h
    obtain ⟨load, hl, rfl⟩ := h
    rw [bareAll_only loc k (Names.bare_load hl)] at hs
    exact sim_load hv hw.globals hl hs
  | null loc | int loc n =>
    cases h
    refine sim_push hs ?_
    intro m op _ hi
    cases hi
    rfl
  | float loc x =>
    simp only [Expr.lower, bind_eq_ok, pure_eq_ok] at h
    obtain ⟨-, -, rfl⟩ := h
    refine sim_push hs ?_
    intro m op _ hi
    cases hi
    -- The bits of a float that a script can write stand for that float.
    exact congrArg (fun x => (m.push (.float x)).go) (Float.ofBits_toBits x)
  | text loc t =>
    cases h
    refine sim_push hs ?_
    intro m op himage hi
    cases hi with
    | pushText ht =>
      rw [← himage] at ht
      simp only [Machine.exec, ht]
  | tuple loc items =>
    simp only [Expr.lower, bind_eq_ok, pure_eq_ok] at h
    obtain ⟨items', hi, rfl⟩ := h
    rw [bareAll_last _ _ _ rfl] at hs
    simp only [countInstrs_append] at hc
    have hcount := (flow_lowerExprs hw.numbered hi (by omega)).count
    refine (sim_evalAll hw hinv hv hi (by omega) hs).bind ?_
    intro vs st' s' hs'
    refine sim_makeTuple ?_ hs'.2
    rw [UInt32.toNat_ofNat_of_lt' (by omega), hs'.1]
  | object loc members =>
    simp only [Expr.lower, bind_eq_ok, pure_eq_ok] at h
    obtain ⟨-, -, values, hm, rfl⟩ := h
    rw [bareAll_last _ _ _ rfl] at hs
    simp only [countInstrs_append] at hc
    refine (sim_evalMembers hw hinv hv hm (by omega) hs).bind ?_
    intro vs st' s' hs'
    refine sim_makeObject ?_ (fun id => hw.shapes id _) hs'.2
    rw [List.length_map, hs'.1]
  | array loc items =>
    simp only [Expr.lower, bind_eq_ok, pure_eq_ok] at h
    obtain ⟨-, -, items', hi, rfl⟩ := h
    rw [bareAll_last _ _ _ rfl] at hs
    simp only [countInstrs_append] at hc
    have hcount := (flow_lowerExprs hw.numbered hi (by omega)).count
    refine (sim_evalAll hw hinv hv hi (by omega) hs).bind ?_
    intro vs st' s' hs'
    refine sim_makeArray ?_ hs'.2
    rw [UInt32.toNat_ofNat_of_lt' (by omega), hs'.1]
  | call loc callee args =>
    simp only [Expr.lower, bind_eq_ok, pure_eq_ok] at h
    obtain ⟨call, hcall, args', ha, rfl⟩ := h
    have hbare : call.bare = [call] := by
      rcases Names.resolveCall_eq_ok hw.numbered hcall with ⟨id, d, rfl, -⟩ | ⟨id, b, rfl, -⟩ <;> rfl
    rw [bareAll_last _ _ _ hbare] at hs
    simp only [countInstrs_append] at hc
    have hcount := (flow_lowerExprs hw.numbered ha (by omega)).count
    refine (sim_evalAll hw hinv hv ha (by omega) hs).bind ?_
    intro vs st' s' hs'
    rw [← hs'.1] at hcall
    exact sim_call hw hinv hcall (by omega) hs'.2
  | tupleMember loc base index =>
    simp only [Expr.lower, bind_eq_ok, pure_eq_ok] at h
    obtain ⟨base', hb, rfl⟩ := h
    rw [bareAll_last _ _ _ rfl] at hs
    simp only [countInstrs_append] at hc
    exact (base.sim hw hinv hv hb (by omega) hs).bind fun v st' s' hs' => sim_tupleMember hs'
  | objectMember loc base member =>
    simp only [Expr.lower, bind_eq_ok, pure_eq_ok] at h
    obtain ⟨-, -, base', hb, rfl⟩ := h
    rw [bareAll_last _ _ _ rfl] at hs
    simp only [countInstrs_append] at hc
    exact (base.sim hw hinv hv hb (by omega) hs).bind fun v st' s' hs' => sim_objectMember hs'
  | element loc base index =>
    simp only [Expr.lower, bind_eq_ok, pure_eq_ok] at h
    obtain ⟨-, -, base', hb, index', hi, rfl⟩ := h
    rw [List.append_assoc (placed loc), bareAll_last _ _ _ rfl, bareAll_append, List.append_assoc] at hs
    simp only [countInstrs_append] at hc
    refine (base.sim hw hinv hv hb (by omega) hs).bind ?_
    intro v st' s' hs'
    exact (index.sim hw hinv hv hi (by omega) hs').bind fun v' st'' s'' hs'' => sim_element hs''
  | unary loc op operand =>
    simp only [Expr.lower, bind_eq_ok, pure_eq_ok] at h
    obtain ⟨operand', ho, rfl⟩ := h
    rw [bareAll_last _ _ _ rfl] at hs
    simp only [countInstrs_append] at hc
    exact (operand.sim hw hinv hv ho (by omega) hs).bind fun v st' s' hs' => sim_unary hs'
  | binary loc op left right =>
    simp only [Expr.lower, bind_eq_ok, pure_eq_ok] at h
    obtain ⟨left', hl, right', hr, rfl⟩ := h
    rw [List.append_assoc (placed loc), bareAll_last _ _ _ rfl, bareAll_append, List.append_assoc] at hs
    simp only [countInstrs_append] at hc
    refine (left.sim hw hinv hv hl (by omega) hs).bind ?_
    intro v st' s' hs'
    exact (right.sim hw hinv hv hr (by omega) hs').bind fun v' st'' s'' hs'' => sim_binary hs''

/-- The code of several expressions leaves their values as operands, the last on top. -/
theorem sim_evalAll (hw : w.Linked) (hinv : Invokes w fuel invoke)
    (hv : Scoped scope env f frames below) {es : List Expr} {code : List Code}
    (h : lowerExprs w.names scope es = .ok code) (hc : countInstrs Instr.isWork code < UInt32.size)
    {s : Course κ} {st : Store κ} {k : List Code} {operands : List Value}
    (hs : s.At w st f frames (bareAll code ++ k) operands (env.values ++ below)) :
    Sim w fuel s st (evalAll w.surroundings invoke env es) fun vs st' s' =>
      vs.length = es.length ∧
        s'.At w st' f frames k (vs.reverse ++ operands) (env.values ++ below) := by
  cases es with
  | nil =>
    cases h
    exact .pure ⟨rfl, hs⟩
  | cons e es =>
    simp only [lowerExprs, bind_eq_ok, pure_eq_ok] at h
    obtain ⟨first, hf, others, ho, rfl⟩ := h
    rw [bareAll_append, List.append_assoc] at hs
    simp only [countInstrs_append] at hc
    refine (e.sim hw hinv hv hf (by omega) hs).bind ?_
    intro v st' s' hs'
    refine (sim_evalAll hw hinv hv ho (by omega) hs').bind ?_
    intro vs st'' s'' hs''
    refine .pure ⟨congrArg Nat.succ hs''.1, ?_⟩
    rw [List.reverse_cons, List.append_assoc]
    exact hs''.2

/-- The code of an object's members leaves their values as operands, the last on top. -/
theorem sim_evalMembers (hw : w.Linked) (hinv : Invokes w fuel invoke)
    (hv : Scoped scope env f frames below) {ms : List (String × Expr)} {code : List Code}
    (h : lowerMembers w.names scope ms = .ok code) (hc : countInstrs Instr.isWork code < UInt32.size)
    {s : Course κ} {st : Store κ} {k : List Code} {operands : List Value}
    (hs : s.At w st f frames (bareAll code ++ k) operands (env.values ++ below)) :
    Sim w fuel s st (evalMembers w.surroundings invoke env ms) fun vs st' s' =>
      vs.length = ms.length ∧
        s'.At w st' f frames k (vs.reverse ++ operands) (env.values ++ below) := by
  match ms with
  | [] =>
    cases h
    exact .pure ⟨rfl, hs⟩
  | (_, e) :: ms =>
    simp only [lowerMembers, bind_eq_ok, pure_eq_ok] at h
    obtain ⟨first, hf, others, ho, rfl⟩ := h
    rw [bareAll_append, List.append_assoc] at hs
    simp only [countInstrs_append] at hc
    refine (e.sim hw hinv hv hf (by omega) hs).bind ?_
    intro v st' s' hs'
    refine (sim_evalMembers hw hinv hv ho (by omega) hs').bind ?_
    intro vs st'' s'' hs''
    refine .pure ⟨congrArg Nat.succ hs''.1, ?_⟩
    rw [List.reverse_cons, List.append_assoc]
    exact hs''.2

end

end Expressions

end TickScript
