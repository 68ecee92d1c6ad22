import TickScript.Program.Script
import TickScript.Proofs.Program.Flow
import TickScript.Proofs.Program.Resolution

/-!
# Lowered code is in order

The code of an expression leaves one operand more than there was, whatever lies below, and the code of
a statement leaves none (`Expr.flow_lower`, `Stmt.flow_lower`). The locals after a statement are those
that the scope after it lists. So every body that lowering makes passes the check of `Instr.flow` from
its first instruction to its last.

Lists of arguments and items are counted in words. A list has at most as many items as its code has
instructions, so nothing is miscounted in code of fewer than `UInt32.size` instructions.
-/

namespace TickScript

/-- What code may mention under some names, at a place in the script. -/
def Names.site (ns : Names) (scope : Scope) : Site String (List String) where
  hasText _ := true
  members? names := some names.length
  globals := ns.globals.length
  functionArity? id := ns.functions[id.toNat]?.map fun d => (UInt32.ofNat d.params.length).toNat
  builtinArity? id := ns.builtins[id.toNat]?.map fun b => b.arity.toNat
  inFunction := scope.inFunction
  inLoop := scope.inLoop

section Parts

variable {ns : Names} {scope : Scope}

/-- Marks of a place do not change what is on the stack. -/
theorem flow_placed (s : Site String (List String)) (hs : ∀ text, s.hasText text) (d : Depth)
    (loc : Location) (code : List Code) :
    flowInstrs s d (placed loc ++ code) = flowInstrs s d code := by
  refine flowInstrs_append_of ?_
  simp only [placed, flowInstrs, Instr.flow, if_pos (hs _), Option.bind_some]

/-- Marks of a place are no work. -/
theorem count_placed (loc : Location) (code : List Code) :
    countInstrs Instr.isWork (placed loc ++ code) = countInstrs Instr.isWork code := by
  rw [countInstrs_append]
  exact Nat.zero_add _

/-- Reading a variable leaves one operand more. -/
theorem flow_load {s : String} {i : Code} (h : ns.load? scope s = some i) (o : Nat) :
    i.flow (ns.site scope) ⟨o, scope.locals.length⟩ = some ⟨o + 1, scope.locals.length⟩ := by
  unfold Names.load? at h
  split at h
  · next slot _ hs =>
    cases h
    rw [Instr.flow, if_pos (Names.slot?_lt hs)]
    rfl
  · next slot _ hs =>
    cases h
    rw [Instr.flow, if_pos (by exact Names.slot?_lt hs)]
    rfl
  · cases h

/-- Storing a variable takes one operand. -/
theorem flow_store {s : String} {i : Code} (h : ns.store? scope s = some i) (o : Nat) :
    i.flow (ns.site scope) ⟨o + 1, scope.locals.length⟩ = some ⟨o, scope.locals.length⟩ := by
  unfold Names.store? at h
  split at h
  · next slot _ hs =>
    cases h
    rw [Instr.flow, if_pos (Names.slot?_lt hs)]
    rfl
  · next slot _ hs =>
    cases h
    rw [Instr.flow, if_pos (by exact Names.slot?_lt hs)]
    rfl
  · cases h

/-- A call takes as many operands as it was given arguments and leaves one. -/
theorem flow_call (hn : ns.Numbered) {loc : Location} {s : String} {given : Nat} {i : Code}
    (h : ns.resolveCall loc s given = .ok i) (hg : given < UInt32.size) (d : Depth) :
    i.flow (ns.site scope) d = d.swap given 1 := by
  rcases Names.resolveCall_eq_ok hn h with
    ⟨id, f, rfl, -, hf, ha⟩ | ⟨id, b, rfl, -, -, hb, ha⟩
  · rw [Instr.flow, Names.site]
    dsimp only
    rw [hf, Option.map_some, ha, UInt32.toNat_ofNat_of_lt' hg]
    rfl
  · rw [Instr.flow, Names.site]
    dsimp only
    rw [hb, Option.map_some, ha, UInt32.toNat_ofNat_of_lt' hg]
    rfl

/-- A call is one work instruction. -/
theorem isWork_call (hn : ns.Numbered) {loc : Location} {s : String} {given : Nat} {i : Code}
    (h : ns.resolveCall loc s given = .ok i) : i.count Instr.isWork = 1 := by
  rcases Names.resolveCall_eq_ok hn h with ⟨id, f, rfl, -⟩ | ⟨id, b, rfl, -⟩ <;> rfl

theorem isWork_load {s : String} {i : Code} (h : ns.load? scope s = some i) :
    i.count Instr.isWork = 1 := by
  unfold Names.load? at h
  split at h <;> cases h <;> rfl

end Parts

/-! ## Expressions -/

/-- Code that leaves so many operands more than there were, and has at least as many instructions. -/
structure Gives (s : Site String (List String)) (n given : Nat) (code : List Code) : Prop where
  flow : ∀ o, flowInstrs s ⟨o, n⟩ code = some ⟨o + given, n⟩
  count : given ≤ countInstrs Instr.isWork code

namespace Gives

variable {s : Site String (List String)} {n j k : Nat} {code code' : List Code}

theorem nil : Gives s n 0 [] := ⟨fun _ => rfl, Nat.le_refl 0⟩

/-- Code that leaves some operands and code that leaves others leave both. -/
theorem append (h : Gives s n j code) (h' : Gives s n k code') : Gives s n (j + k) (code ++ code') := by
  refine ⟨fun o => ?_, ?_⟩
  · rw [flowInstrs_append_of (h.flow o), h'.flow, Nat.add_assoc]
  · rw [countInstrs_append]
    exact Nat.add_le_add h.count h'.count

/-- Marks before the code of some operands leave no operand themselves. -/
theorem placed (hs : ∀ text, s.hasText text) (loc : Location) (h : Gives s n j code) :
    Gives s n j (TickScript.placed loc ++ code) := by
  refine ⟨fun o => ?_, ?_⟩
  · rw [flow_placed s hs]
    exact h.flow o
  · rw [count_placed]
    exact h.count

/-- An instruction that takes what the code before it gives. -/
theorem snoc {i : Code} (h : Gives s n j code)
    (hi : ∀ o, i.flow s ⟨o + j, n⟩ = some ⟨o + 1, n⟩) (hw : i.count Instr.isWork = 1) :
    Gives s n 1 (code ++ [i]) := by
  refine ⟨fun o => ?_, ?_⟩
  · rw [flowInstrs_append_of (h.flow o), flowInstrs_singleton]
    exact hi o
  · rw [countInstrs_append, countInstrs, hw, countInstrs]
    omega

theorem singleton {i : Code} (hi : ∀ o, i.flow s ⟨o, n⟩ = some ⟨o + 1, n⟩)
    (hw : i.count Instr.isWork = 1) : Gives s n 1 [i] :=
  nil.snoc hi hw

end Gives

theorem swap_flat (o taken n : Nat) : Depth.swap ⟨o + taken, n⟩ taken 1 = some ⟨o + 1, n⟩ :=
  Depth.swap_add ⟨o + taken, n⟩ o taken 1 rfl

mutual

/-- The code of an expression leaves one operand more than there was. -/
theorem Expr.flow_lower {ns : Names} (hn : ns.Numbered) {scope : Scope} {e : Expr} {code : List Code}
    (h : e.lower ns scope = .ok code) (hc : countInstrs Instr.isWork code < UInt32.size) :
    Gives (ns.site scope) scope.locals.length 1 code := by
  have ht : ∀ text, (ns.site scope).hasText text := fun _ => rfl
  cases e with
  | name loc s =>
    simp only [Expr.lower, bind_eq_ok, pure_eq_ok, orUnknown_eq_ok] at h
    obtain ⟨load, hl, rfl⟩ := h
    exact .placed ht loc (.singleton (flow_load hl) (isWork_load hl))
  | null loc | int loc x =>
    cases h
    exact .placed ht loc (.singleton (fun _ => rfl) rfl)
  | float loc x =>
    simp only [Expr.lower, bind_eq_ok, pure_eq_ok] at h
    obtain ⟨-, -, rfl⟩ := h
    exact .placed ht loc (.singleton (fun _ => rfl) rfl)
  | text loc s =>
    cases h
    exact .placed ht loc (.singleton (fun _ => rfl) rfl)
  | tuple loc items =>
    simp only [Expr.lower, bind_eq_ok, pure_eq_ok] at h
    obtain ⟨items', hi, rfl⟩ := h
    simp only [countInstrs_append] at hc
    have hg := flow_lowerExprs hn hi (by omega)
    -- Every item is work, so the bound on the work keeps the count from wrapping.
    have hl : (UInt32.ofNat items.length).toNat = items.length :=
      UInt32.toNat_ofNat_of_lt' (by have := hg.count; omega)
    refine (hg.placed ht loc).snoc (fun o => ?_) rfl
    rw [Instr.flow, hl]
    exact swap_flat o _ _
  | object loc members =>
    simp only [Expr.lower, bind_eq_ok, pure_eq_ok] at h
    obtain ⟨-, -, values, hv, rfl⟩ := h
    simp only [countInstrs_append] at hc
    have hg := flow_lowerMembers hn hv (by omega)
    refine (hg.placed ht loc).snoc (fun o => ?_) rfl
    -- A shape is given by its names, so there is no count that could wrap.
    have hm : (ns.site scope).members? (members.map (·.1)) = some members.length :=
      congrArg some (List.length_map _)
    rw [Instr.flow, hm]
    exact swap_flat o _ _
  | array loc items =>
    simp only [Expr.lower, bind_eq_ok, pure_eq_ok] at h
    obtain ⟨-, -, items', hi, rfl⟩ := h
    simp only [countInstrs_append] at hc
    have hg := flow_lowerExprs hn hi (by omega)
    have hl : (UInt32.ofNat items.length).toNat = items.length :=
      UInt32.toNat_ofNat_of_lt' (by have := hg.count; omega)
    refine (hg.placed ht loc).snoc (fun o => ?_) rfl
    rw [Instr.flow, hl]
    exact swap_flat o _ _
  | call loc callee args =>
    simp only [Expr.lower, bind_eq_ok, pure_eq_ok] at h
    obtain ⟨call, hcall, args', ha, rfl⟩ := h
    simp only [countInstrs_append] at hc
    have hg := flow_lowerExprs hn ha (by omega)
    refine (hg.placed ht loc).snoc (fun o => ?_) (isWork_call hn hcall)
    rw [flow_call hn hcall (by have := hg.count; omega)]
    exact swap_flat o _ _
  | tupleMember loc base index =>
    simp only [Expr.lower, bind_eq_ok, pure_eq_ok] at h
    obtain ⟨base', hb, rfl⟩ := h
    simp only [countInstrs_append] at hc
    exact ((base.flow_lower hn hb (by omega)).placed ht loc).snoc (fun o => swap_flat o 1 _) rfl
  | objectMember loc base member =>
    simp only [Expr.lower, bind_eq_ok, pure_eq_ok] at h
    obtain ⟨-, -, base', hb, rfl⟩ := h
    simp only [countInstrs_append] at hc
    exact ((base.flow_lower hn hb (by omega)).placed ht loc).snoc (fun o => swap_flat o 1 _) rfl
  | element loc base index =>
    simp only [Expr.lower, bind_eq_ok, pure_eq_ok] at h
    obtain ⟨-, -, base', hb, index', hi, rfl⟩ := h
    simp only [countInstrs_append] at hc
    exact (((base.flow_lower hn hb (by omega)).placed ht loc).append
      (index.flow_lower hn hi (by omega))).snoc (fun o => swap_flat o 2 _) rfl
  | unary loc op operand =>
    simp only [Expr.lower, bind_eq_ok, pure_eq_ok] at h
    obtain ⟨operand', ho, rfl⟩ := h
    simp only [countInstrs_append] at hc
    exact ((operand.flow_lower hn ho (by omega)).placed ht loc).snoc (fun o => swap_flat o 1 _) rfl
  | binary loc op left right =>
    simp only [Expr.lower, bind_eq_ok, pure_eq_ok] at h
    obtain ⟨left', hl, right', hr, rfl⟩ := h
    simp only [countInstrs_append] at hc
    exact (((left.flow_lower hn hl (by omega)).placed ht loc).append
      (right.flow_lower hn hr (by omega))).snoc (fun o => swap_flat o 2 _) rfl

/-- The code of several expressions leaves an operand for each. -/
theorem flow_lowerExprs {ns : Names} (hn : ns.Numbered) {scope : Scope} {es : List Expr}
    {code : List Code} (h : lowerExprs ns scope es = .ok code)
    (hc : countInstrs Instr.isWork code < UInt32.size) :
    Gives (ns.site scope) scope.locals.length es.length code := by
  cases es with
  | nil =>
    cases h
    exact .nil
  | cons e es =>
    simp only [lowerExprs, bind_eq_ok, pure_eq_ok] at h
    obtain ⟨first, hf, others, ho, rfl⟩ := h
    simp only [countInstrs_append] at hc
    rw [List.length_cons, Nat.add_comm]
    exact (e.flow_lower hn hf (by omega)).append (flow_lowerExprs hn ho (by omega))

/-- The code of an object's members leaves an operand for each. -/
theorem flow_lowerMembers {ns : Names} (hn : ns.Numbered) {scope : Scope}
    {ms : List (String × Expr)} {code : List Code} (h : lowerMembers ns scope ms = .ok code)
    (hc : countInstrs Instr.isWork code < UInt32.size) :
    Gives (ns.site scope) scope.locals.length ms.length code := by
  match ms with
  | [] =>
    cases h
    exact .nil
  | (_, e) :: ms =>
    simp only [lowerMembers, bind_eq_ok, pure_eq_ok] at h
    obtain ⟨first, hf, others, ho, rfl⟩ := h
    simp only [countInstrs_append] at hc
    rw [List.length_cons, Nat.add_comm]
    exact (e.flow_lower hn hf (by omega)).append (flow_lowerMembers hn ho (by omega))

end

/-! ## Statements -/

namespace Gives

variable {s : Site String (List String)} {n j : Nat} {code : List Code}

/-- A statement that ends by taking what the code before it gives. -/
theorem closed {i : Code} {n' : Nat} (h : Gives s n j code)
    (hi : i.flow s ⟨j, n⟩ = some ⟨0, n'⟩) : flowInstrs s ⟨0, n⟩ (code ++ [i]) = some ⟨0, n'⟩ := by
  rw [flowInstrs_append_of (h.flow 0), flowInstrs_singleton, Nat.zero_add]
  exact hi

end Gives

/-- Code that ends without operands is closed. -/
theorem isClosed_of_flow {s : Site String (List String)} {d : Depth} {code : List Code} {n : Nat}
    (h : flowInstrs s d code = some ⟨0, n⟩) : Depth.isClosed (flowInstrs s d code) := by
  rw [h]
  rfl

/-- An assignment leaves neither operands nor locals. -/
theorem flow_lowerAssign {ns : Names} (hn : ns.Numbered) {scope : Scope} {loc : Location}
    {target value : Expr} {code : List Code} (h : lowerAssign ns scope loc target value = .ok code)
    (hc : countInstrs Instr.isWork code < UInt32.size) :
    flowInstrs (ns.site scope) ⟨0, scope.locals.length⟩ code = some ⟨0, scope.locals.length⟩ := by
  cases target with
  | name targetLoc s =>
    simp only [lowerAssign, bind_eq_ok, pure_eq_ok, orUnknown_eq_ok] at h
    obtain ⟨value', hv, store, hs, rfl⟩ := h
    simp only [countInstrs_append] at hc
    exact (value.flow_lower hn hv (by omega)).closed (flow_store hs 0)
  | objectMember targetLoc base member =>
    simp only [lowerAssign, bind_eq_ok, pure_eq_ok] at h
    obtain ⟨-, -, base', hb, value', hv, rfl⟩ := h
    simp only [countInstrs_append] at hc
    exact ((base.flow_lower hn hb (by omega)).append (value.flow_lower hn hv (by omega))).closed rfl
  | element targetLoc base index =>
    simp only [lowerAssign, bind_eq_ok, pure_eq_ok] at h
    obtain ⟨-, -, base', hb, index', hi, value', hv, rfl⟩ := h
    simp only [countInstrs_append] at hc
    exact (((base.flow_lower hn hb (by omega)).append (index.flow_lower hn hi (by omega))).append
      (value.flow_lower hn hv (by omega))).closed rfl
  | _ => exact nomatch h

/-- What a declaration does with its value: at the top a global takes it, elsewhere a new local. -/
theorem flow_lowerDeclared {ns : Names} {scope : Scope} {loc : Location} {s : String} {i : Code}
    (value : Expr) (h : lowerDeclared ns scope loc s = .ok i) :
    i.flow (ns.site scope) ⟨1, scope.locals.length⟩ =
      some ⟨0, (scope.after (.declare loc s value)).locals.length⟩ := by
  have ha : scope.after (.declare loc s value) =
      if scope.atTop then scope else { scope with locals := s :: scope.locals } := rfl
  unfold lowerDeclared at h
  split at h
  · next ht =>
    obtain ⟨slot, hs, rfl⟩ := Option.map_eq_some_iff.1 (orUnknown_eq_ok.1 h)
    rw [Instr.flow, if_pos (by exact Names.slot?_lt hs), ha, if_pos ht]
    rfl
  · next ht =>
    cases h
    rw [ha, if_neg ht]
    rfl

/-- A statement does not change what its block may do. -/
theorem site_after (ns : Names) (scope : Scope) (st : Stmt) :
    ns.site (scope.after st) = ns.site scope := by
  cases st with
  | declare loc s value =>
    unfold Scope.after
    dsimp only
    split <;> rfl
  | _ => rfl

mutual

/-- The code of a statement leaves no operand, and the locals of the scope after it. -/
theorem Stmt.flow_lower {ns : Names} (hn : ns.Numbered) {scope : Scope} {st : Stmt}
    {code : List Code} (h : st.lower ns scope = .ok code)
    (hc : countInstrs Instr.isWork code < UInt32.size) :
    flowInstrs (ns.site scope) ⟨0, scope.locals.length⟩ code =
      some ⟨0, (scope.after st).locals.length⟩ := by
  have ht : ∀ text, (ns.site scope).hasText text := fun _ => rfl
  cases st with
  | assign loc target value =>
    simp only [Stmt.lower, bind_eq_ok, pure_eq_ok] at h
    obtain ⟨code, ha, rfl⟩ := h
    rw [count_placed] at hc
    rw [flow_placed _ ht]
    exact flow_lowerAssign hn ha hc
  | branch loc cond yes no =>
    simp only [Stmt.lower, bind_eq_ok, pure_eq_ok] at h
    obtain ⟨cond', hcond, yes', hyes, no', hno, rfl⟩ := h
    simp only [countInstrs_append, countInstrs, Instr.count] at hc
    obtain ⟨n, hy⟩ := flow_lowerStmts hn hyes (by omega)
    obtain ⟨n', hn'⟩ := flow_lowerStmts hn hno (by omega)
    refine ((cond.flow_lower hn hcond (by omega)).placed ht loc).closed ?_
    rw [Instr.flow, if_pos ⟨rfl, isClosed_of_flow hy, isClosed_of_flow hn'⟩]
    rfl
  | loop loc body | tick loc body =>
    simp only [Stmt.lower, bind_eq_ok, pure_eq_ok] at h
    obtain ⟨body', hbody, rfl⟩ := h
    simp only [countInstrs_append, countInstrs, Instr.count] at hc
    obtain ⟨n, hb⟩ := flow_lowerStmts hn hbody (by omega)
    rw [flow_placed _ ht, flowInstrs_singleton, Instr.flow, if_pos ⟨rfl, isClosed_of_flow hb⟩]
    rfl
  | whileLoop loc cond body =>
    simp only [Stmt.lower, bind_eq_ok, pure_eq_ok] at h
    obtain ⟨cond', hcond, body', hbody, rfl⟩ := h
    simp only [countInstrs_append, countInstrs, Instr.count] at hc
    have hg := cond.flow_lower hn hcond (by omega)
    obtain ⟨n, hb⟩ := flow_lowerStmts hn hbody (by omega)
    have hloop : flowInstrs (ns.site scope.loopBody) ⟨0, scope.loopBody.locals.length⟩
        (cond' ++ [.unary .not, .branch [.breakLoop] []] ++ body') = some ⟨0, n⟩ := by
      rw [List.append_assoc, flowInstrs_append_of (hg.flow 0)]
      exact hb
    rw [flow_placed _ ht, flowInstrs_singleton, Instr.flow, if_pos ⟨rfl, isClosed_of_flow hloop⟩]
    rfl
  | continueLoop loc | breakLoop loc =>
    simp only [Stmt.lower] at h
    split at h
    · next hl =>
      cases h
      rw [flow_placed _ ht, flowInstrs_singleton, Instr.flow, if_pos ⟨hl, rfl⟩]
      rfl
    · cases h
  | giveBack loc value =>
    simp only [Stmt.lower] at h
    split at h
    · next hf =>
      simp only [bind_eq_ok, pure_eq_ok] at h
      obtain ⟨value', hv, rfl⟩ := h
      simp only [countInstrs_append] at hc
      refine ((value.flow_lower hn hv (by omega)).placed ht loc).closed ?_
      rw [Instr.flow, if_pos ⟨hf, rfl⟩]
      rfl
    · cases h
  | declare loc s value =>
    simp only [Stmt.lower, bind_eq_ok, pure_eq_ok] at h
    obtain ⟨value', hv, store, hs, rfl⟩ := h
    simp only [countInstrs_append] at hc
    exact ((value.flow_lower hn hv (by omega)).placed ht loc).closed (flow_lowerDeclared value hs)
  | function loc s params body => exact nomatch h
  | expr loc value =>
    simp only [Stmt.lower, bind_eq_ok, pure_eq_ok] at h
    obtain ⟨value', hv, rfl⟩ := h
    simp only [countInstrs_append] at hc
    exact ((value.flow_lower hn hv (by omega)).placed ht loc).closed rfl

/-- The code of a block leaves no operand. -/
theorem flow_lowerStmts {ns : Names} (hn : ns.Numbered) {scope : Scope} {ss : List Stmt}
    {code : List Code} (h : lowerStmts ns scope ss = .ok code)
    (hc : countInstrs Instr.isWork code < UInt32.size) :
    ∃ n, flowInstrs (ns.site scope) ⟨0, scope.locals.length⟩ code = some ⟨0, n⟩ := by
  cases ss with
  | nil =>
    cases h
    exact ⟨_, rfl⟩
  | cons st ss =>
    simp only [lowerStmts, bind_eq_ok, pure_eq_ok] at h
    obtain ⟨first, hf, others, ho, rfl⟩ := h
    simp only [countInstrs_append] at hc
    obtain ⟨n, hs⟩ := flow_lowerStmts hn ho (by omega)
    refine ⟨n, ?_⟩
    rw [flowInstrs_append_of (st.flow_lower hn hf (by omega)), ← site_after ns scope st]
    exact hs

end

/-! ## Programs -/

/-- What the code of a program may mention. -/
def Program.site (p : Program String (List String)) (inFunction : Bool) :
    Site String (List String) where
  hasText _ := true
  members? names := some names.length
  globals := p.globals.length
  functionArity? id := p.functions[id.toNat]?.map fun f => f.arity.toNat
  builtinArity? id := p.builtins[id.toNat]?.map fun b => b.arity.toNat
  inFunction := inFunction
  inLoop := false

/-- A program all of whose bodies are in order: a function starts with its arguments as operands. -/
structure Program.Ordered (p : Program String (List String)) : Prop where
  functions : ∀ f ∈ p.functions,
    Depth.isClosed (flowInstrs (p.site true) ⟨f.arity.toNat, 0⟩ f.body)
  body : Depth.isClosed (flowInstrs (p.site false) ⟨0, 0⟩ p.body)

/-- The arguments of a function become its first locals. -/
theorem flow_replicate_pushLocal (s : Site String (List String)) (k o n : Nat) :
    flowInstrs s ⟨o + k, n⟩ (List.replicate k .pushLocal) = some ⟨o, n + k⟩ := by
  induction k generalizing n with
  | zero => rfl
  | succ k ih =>
    rw [List.replicate_succ, flowInstrs, Instr.flow, ← Nat.add_assoc, Depth.swap_add _ (o + k) 1 0 rfl]
    have h := ih (n + 1)
    rw [Nat.add_assoc n 1 k, Nat.add_comm 1 k] at h
    exact h

theorem count_replicate_pushLocal (k : Nat) :
    countInstrs Instr.isWork (List.replicate k (.pushLocal : Code)) = k := by
  induction k with
  | zero => rfl
  | succ k ih =>
    rw [List.replicate_succ, countInstrs, ih]
    exact Nat.add_comm 1 k

/-- What a script became, part by part. -/
theorem lowerScript_eq_ok {features : FeatureSet} {builtins : List (Signature String)}
    {script : List Stmt} {p : Program String (List String)}
    (h : lowerScript features builtins script = .ok p) :
    ∃ d functions body, Declared.collect features ⟨[], []⟩ script = .ok d ∧
      d.functions.mapM (Declaration.lower ⟨features, builtins, d.functions, d.globals⟩) =
        .ok functions ∧
      lowerStmts ⟨features, builtins, d.functions, d.globals⟩ .top
        (script.filter (! ·.isFunction)) = .ok body ∧
      p = ⟨builtins, d.globals, functions, thinBody body⟩ := by
  simp only [lowerScript, bind_eq_ok, pure_eq_ok] at h
  obtain ⟨d, hd, functions, hf, body, hb, rfl⟩ := h
  exact ⟨d, functions, body, hd, hf, hb, rfl⟩

/-- A compiled function takes its arguments as locals and runs the code of its body. -/
theorem Declaration.lower_eq_ok {ns : Names} {d : Declaration} {f : Function String (List String)}
    (h : d.lower ns = .ok f) :
    ∃ body, lowerStmts ns (.ofParams d.params) d.body = .ok body ∧
      f = ⟨d.name, UInt32.ofNat d.params.length, d.loc.line, d.loc.file,
        thinBody (List.replicate d.params.length .pushLocal ++ body)⟩ := by
  simp only [Declaration.lower, bind_eq_ok, pure_eq_ok] at h
  obtain ⟨body, hb, rfl⟩ := h
  exact ⟨body, hb, rfl⟩

/-- The code of a function balances. -/
theorem flow_lowerDeclaration {ns : Names} (hn : ns.Numbered) {d : Declaration}
    {f : Function String (List String)} (h : d.lower ns = .ok f)
    (hc : countInstrs Instr.isWork f.body < UInt32.size) :
    Depth.isClosed (flowInstrs (ns.site (.ofParams d.params)) ⟨f.arity.toNat, 0⟩ f.body) := by
  obtain ⟨body, hb, rfl⟩ := d.lower_eq_ok h
  dsimp only at hc ⊢
  rw [thinBody, count_thinAll, countInstrs_append, count_replicate_pushLocal] at hc
  obtain ⟨n, hs⟩ := flow_lowerStmts hn hb (by omega)
  have hp := flow_replicate_pushLocal (ns.site (.ofParams d.params)) d.params.length 0 0
  rw [Nat.zero_add] at hp
  rw [UInt32.toNat_ofNat_of_lt' (by omega), thinBody, flow_thinAll (fun _ => rfl),
    flowInstrs_append_of hp]
  exact isClosed_of_flow hs

/-- A lowered program is in order, unless it is too long to be counted in words. -/
theorem ordered_lowerScript {features : FeatureSet} {builtins : List (Signature String)}
    {script : List Stmt} {p : Program String (List String)}
    (h : lowerScript features builtins script = .ok p)
    (hfunctions : p.functions.length ≤ UInt32.size) (hbuiltins : p.builtins.length ≤ UInt32.size)
    (hbodies : ∀ f ∈ p.functions, countInstrs Instr.isWork f.body < UInt32.size)
    (hbody : countInstrs Instr.isWork p.body < UInt32.size) : p.Ordered := by
  obtain ⟨d, functions, body, -, hf, hb, rfl⟩ := lowerScript_eq_ok h
  have hmap := mapM_ok_forall₂ hf
  have hn : Names.Numbered ⟨features, builtins, d.functions, d.globals⟩ :=
    ⟨hmap.length_eq ▸ hfunctions, hbuiltins⟩
  have harity : (fun id : UInt32 => functions[id.toNat]?.map fun f => f.arity.toNat) =
      fun id => d.functions[id.toNat]?.map fun d => (UInt32.ofNat d.params.length).toNat := by
    funext id
    rcases forall₂_getElem? hmap id.toNat with ⟨hd, hg⟩ | ⟨a, f, hd, hg, hl⟩
    · rw [hd, hg]
      rfl
    · obtain ⟨body, -, rfl⟩ := a.lower_eq_ok hl
      rw [hd, hg]
      rfl
  have hsite (scope : Scope) (hl : scope.inLoop = false) :
      Program.site ⟨builtins, d.globals, functions, thinBody body⟩ scope.inFunction =
        Names.site ⟨features, builtins, d.functions, d.globals⟩ scope := by
    unfold Program.site Names.site
    rw [hl]
    dsimp only
    rw [harity]
  refine ⟨fun f hm => ?_, ?_⟩
  · obtain ⟨a, -, hl⟩ := exists_of_forall₂_right hmap hm
    have hflow := flow_lowerDeclaration hn hl (hbodies f hm)
    rw [← hsite _ rfl] at hflow
    exact hflow
  · dsimp only at hbody ⊢
    rw [thinBody, count_thinAll] at hbody
    obtain ⟨n, hs⟩ := flow_lowerStmts hn hb hbody
    rw [← hsite .top rfl] at hs
    rw [thinBody, flow_thinAll (fun _ => rfl)]
    exact isClosed_of_flow hs

end TickScript
