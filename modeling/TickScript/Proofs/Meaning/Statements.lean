import TickScript.Proofs.Meaning.Blocks
import TickScript.Proofs.Meaning.Expressions

/-!
# The code of a statement does what the statement does

A run through the code of a statement simulates it (`Stmt.sim`), and a run through the code of a block
its statements (`sim_execAll`). What a statement leaves of the variables is what its scope says of the
place behind it, so the next statement finds its own there. Statements that hold blocks are built from
the rules for blocks; the induction is on the statements.
-/

namespace TickScript

variable {κ : Type}

section Parts

variable {w : Setting κ} {fuel : Nat} {invoke : Declaration → List Value → Action κ Value}
  {scope : Scope} {env : Blocks} {s : Course κ} {st : Store κ} {f : Frame} {frames : List Frame}
  {code k yes no : List Code} {operands below locals : List Value}

/-! ## Assignments -/

theorem Names.bare_store {ns : Names} {t : String} {i : Code} (h : ns.store? scope t = some i) :
    i.bare = [i] := by
  unfold Names.store? at h
  split at h <;> cases h <;> rfl

/-- The code of an assignment. -/
theorem sim_assign (hw : w.Linked) (hinv : Invokes w fuel invoke) (hv : Scoped scope env f frames below)
    {loc : Location} {target value : Expr} (h : lowerAssign w.names scope loc target value = .ok code)
    (hc : countInstrs Instr.isWork code < UInt32.size)
    (hs : s.At w st f frames (bareAll code ++ k) operands (env.values ++ below)) :
    Sim w fuel s st (assign w.surroundings invoke env target value) fun env' st' s' =>
      s'.At w st' f frames k operands (env'.values ++ below) ∧ env'.shape = env.shape := by
  cases target with
  | name targetLoc t =>
    simp only [lowerAssign, bind_eq_ok, pure_eq_ok, orUnknown_eq_ok] at h
    obtain ⟨value', hvalue, store, hstore, rfl⟩ := h
    rw [bareAll_append, bareAll, Names.bare_store hstore, List.append_assoc] at hs
    simp only [countInstrs_append] at hc
    exact (value.sim hw hinv hv hvalue (by omega) hs).bind fun v st' s' hs' =>
      sim_store hv hw.globals hstore hs'
  | objectMember targetLoc base member =>
    simp only [lowerAssign, bind_eq_ok, pure_eq_ok] at h
    obtain ⟨-, -, base', hb, value', hvalue, rfl⟩ := h
    rw [bareAll_append, bareAll_append, List.append_assoc, List.append_assoc] at hs
    simp only [countInstrs_append] at hc
    refine (base.sim hw hinv hv hb (by omega) hs).bind ?_
    intro t st' s' hs'
    refine (value.sim hw hinv hv hvalue (by omega) hs').bind ?_
    intro v st' s' hs'
    exact (sim_storeMember hs').bind fun _ st' s' hs' => .pure ⟨hs', rfl⟩
  | element targetLoc base index =>
    simp only [lowerAssign, bind_eq_ok, pure_eq_ok] at h
    obtain ⟨-, -, base', hb, index', hi, value', hvalue, rfl⟩ := h
    rw [bareAll_append, bareAll_append, bareAll_append, List.append_assoc, List.append_assoc,
      List.append_assoc] at hs
    simp only [countInstrs_append] at hc
    refine (base.sim hw hinv hv hb (by omega) hs).bind ?_
    intro t st' s' hs'
    refine (index.sim hw hinv hv hi (by omega) hs').bind ?_
    intro i st' s' hs'
    refine (value.sim hw hinv hv hvalue (by omega) hs').bind ?_
    intro v st' s' hs'
    exact (sim_storeElement hs').bind fun _ st' s' hs' => .pure ⟨hs', rfl⟩
  | _ => cases h

/-! ## Conditions -/

/-- A branch drops its condition and enters the code that it chooses, unless there is none. -/
theorem sim_branch {α : Type} {v : Value} {x : Action κ α} {post : α → Store κ → Course κ → Prop}
    (hs : s.At w st f frames (.branch yes no :: k) (v :: operands) locals)
    (hskip : (if v.isTruthy then yes else no) = [] → ∀ s' : Course κ,
      s'.At w { st with heap := st.heap.release [v] } f frames k operands locals →
      Sim w fuel s' { st with heap := st.heap.release [v] } x post)
    (henter : ∀ (s' : Course κ) (body rest : List Op), w.image.spelled? rest = some k →
      s'.At w { st with heap := st.heap.release [v] } ⟨.branch, body, body, locals.length⟩
        ({ f with rest } :: frames) (if v.isTruthy then yes else no) operands locals →
      Sim w fuel s' { st with heap := st.heap.release [v] } x post) :
    Sim w fuel s st (Action.drop [v] >>= fun _ => x) post := by
  refine .run hs fun s' m op hk hi hm hd => .silent (Action.on_drop ..) ?_
  cases hi with
  | @branch yes' no' _ _ hyes hno =>
    have hm' : ({ m with operands, heap := m.heap.release [v] } : Machine).At w
        { st with heap := st.heap.release [v] } f frames k operands locals :=
      hm.changed rfl (by rw [hm.heap])
    have hbody : w.image.spelled? (if v.isTruthy then yes' else no') =
        some (if v.isTruthy then yes else no) := by
      split
      · exact hyes
      · exact hno
    simp only [Machine.exec, Machine.branch, hm.operands] at hd
    by_cases hempty : (if v.isTruthy then yes' else no').isEmpty
    · rw [if_pos hempty] at hd
      rw [List.isEmpty_iff.1 hempty] at hbody
      exact .follow hd (hskip (Option.some.inj hbody).symm _
        ⟨hk.goes w.registry _, hm'⟩)
    · rw [if_neg hempty] at hd
      exact .less_fuel (Nat.le_succ fuel)
        (.enter (hk.dropped _) hm' hd hbody fun s'' rest hr hs'' => henter s'' _ rest hr hs'')

theorem isTruthy_ofBool (b : Bool) : (Value.ofBool b).isTruthy = b := by
  cases b <;> rfl

/-- A condition that holds is turned around and leaves the code behind it; one that does not leads to the
end of the loop. -/
theorem sim_whileCondition {g : Frame} {inner : List Frame} {v : Value}
    {body : Action κ (Signal × Blocks)}
    (hs : s.At w st g inner (.unary .not :: .branch [.breakLoop] [] :: k) (v :: operands)
      (env.values ++ below))
    (hbody : ∀ (s' : Course κ) (st' : Store κ),
      s'.At w st' g inner k operands (env.values ++ below) →
      Sim w fuel s' st' body (Done w scope.loopBody g inner [] operands below env)) :
    Sim w fuel s st
      (Action.drop [v] >>= fun _ => if v.isTruthy then body else pure (.breaks, env))
      (Done w scope.loopBody g inner [] operands below env) := by
  have hnot : (Action.unary .not v).on st = (.ok (.ofBool (! v.isTruthy)),
      { st with heap := st.heap.release [v] }) := rfl
  have hsim : Sim w fuel s st (Action.unary .not v) _ := sim_unary hs
  refine .silent (Action.on_drop ..) (.toward (hsim.toward_of_ok hnot) fun s' hs' => ?_)
  -- The machine drops the condition once more, turned around; that is no reference to anything.
  have hdrop {x : Action κ (Signal × Blocks)} (st' : Store κ) (b : Bool) :
      x.on st' = (Action.drop [.ofBool b] >>= fun _ => x).on st' := by
    rw [Action.on_bind, Action.on_drop, Heap.release_cons_of_none rfl, Heap.release_nil]
  refine .congr (hdrop _ (! v.isTruthy)) (sim_branch hs' ?_ ?_)
  · intro hnil s'' hs''
    by_cases ht : v.isTruthy = true
    · rw [if_pos ht]
      exact hbody s'' _ hs''
    · rw [isTruthy_ofBool, eq_false_of_ne_true ht] at hnil
      exact nomatch hnil
  · intro s'' ops rest hr hs''
    rw [isTruthy_ofBool] at hs''
    by_cases ht : v.isTruthy = true
    · rw [if_pos ht]
      rw [if_neg (by rw [ht]; exact Bool.false_ne_true)] at hs''
      refine .leave hs'' fun s₃ m hk hm hd => ?_
      obtain ⟨r, hf, -⟩ := hm.frames
      rw [Machine.endFrame_of_branch hf rfl] at hd
      exact .follow hd (hbody _ _ ⟨hk.goes w.registry _, hm.left_empty rfl hr⟩)
    · rw [if_neg ht]
      rw [if_pos (by rw [eq_false_of_ne_true ht]; rfl)] at hs''
      refine .run hs'' fun s₃ m op hk hi hm hd => ?_
      cases hi
      obtain ⟨r, hf, -⟩ := hm.frames
      rw [Machine.exec, Machine.breakLoop_of_branch hf rfl] at hd
      exact .pure ⟨⟨rfl, hk, _, k, hm.left_empty rfl hr, hd⟩, .refl env⟩

/-! ## Blocks -/

/-- Code that ends in a work instruction is not empty without its marks. -/
theorem bareAll_concat_ne_nil (code : List Code) {i j : Code} (hi : i.bare = [j]) :
    bareAll (code ++ [i]) ≠ [] := by
  rw [bareAll_append, bareAll, hi]
  exact List.append_ne_nil_of_right_ne_nil _ (fun h => nomatch h)

/-- Every statement does something. -/
theorem Stmt.bareAll_lower_ne_nil {ns : Names} {stmt : Stmt} (h : stmt.lower ns scope = .ok code) :
    bareAll code ≠ [] := by
  cases stmt with
  | assign loc target value =>
    simp only [Stmt.lower, bind_eq_ok, pure_eq_ok] at h
    obtain ⟨code, ha, rfl⟩ := h
    rw [bareAll_placed]
    cases target with
    | name targetLoc t =>
      simp only [lowerAssign, bind_eq_ok, pure_eq_ok, orUnknown_eq_ok] at ha
      obtain ⟨value', -, store, hstore, rfl⟩ := ha
      exact bareAll_concat_ne_nil _ (Names.bare_store hstore)
    | objectMember targetLoc base member =>
      simp only [lowerAssign, bind_eq_ok, pure_eq_ok] at ha
      obtain ⟨-, -, base', -, value', -, rfl⟩ := ha
      exact bareAll_concat_ne_nil _ rfl
    | element targetLoc base index =>
      simp only [lowerAssign, bind_eq_ok, pure_eq_ok] at ha
      obtain ⟨-, -, base', -, index', -, value', -, rfl⟩ := ha
      exact bareAll_concat_ne_nil _ rfl
    | _ => cases ha
  | branch loc cond yes no =>
    simp only [Stmt.lower, bind_eq_ok, pure_eq_ok] at h
    obtain ⟨cond', -, yes', -, no', -, rfl⟩ := h
    exact bareAll_concat_ne_nil _ rfl
  | loop loc body | tick loc body =>
    simp only [Stmt.lower, bind_eq_ok, pure_eq_ok] at h
    obtain ⟨body', -, rfl⟩ := h
    exact bareAll_concat_ne_nil _ rfl
  | whileLoop loc cond body =>
    simp only [Stmt.lower, bind_eq_ok, pure_eq_ok] at h
    obtain ⟨cond', -, body', -, rfl⟩ := h
    exact bareAll_concat_ne_nil _ rfl
  | continueLoop loc | breakLoop loc =>
    rw [Stmt.lower] at h
    split at h
    · cases h
      exact bareAll_concat_ne_nil _ rfl
    · cases h
  | giveBack loc value =>
    rw [Stmt.lower] at h
    split at h
    · simp only [bind_eq_ok, pure_eq_ok] at h
      obtain ⟨value', -, rfl⟩ := h
      exact bareAll_concat_ne_nil _ rfl
    · cases h
  | declare loc t value =>
    simp only [Stmt.lower, bind_eq_ok, pure_eq_ok] at h
    obtain ⟨value', -, store, hstore, rfl⟩ := h
    unfold lowerDeclared at hstore
    split at hstore
    · obtain ⟨slot, -, rfl⟩ := Option.map_eq_some_iff.1 (orUnknown_eq_ok.1 hstore)
      exact bareAll_concat_ne_nil _ rfl
    · cases hstore
      exact bareAll_concat_ne_nil _ rfl
  | function loc t params body => cases h
  | expr loc value =>
    simp only [Stmt.lower, bind_eq_ok, pure_eq_ok] at h
    obtain ⟨value', -, rfl⟩ := h
    exact bareAll_concat_ne_nil _ rfl

/-- Only the empty list of statements has code of nothing but marks. -/
theorem eq_nil_of_bareAll_lowerStmts {ns : Names} {ss : List Stmt} (h : lowerStmts ns scope ss = .ok code)
    (hnil : bareAll code = []) : ss = [] := by
  cases ss with
  | nil => rfl
  | cons stmt ss =>
    simp only [lowerStmts, bind_eq_ok, pure_eq_ok] at h
    obtain ⟨first, hf, others, -, rfl⟩ := h
    rw [bareAll_append] at hnil
    exact absurd (List.append_eq_nil_iff.1 hnil).1 (Stmt.bareAll_lower_ne_nil hf)

/-- A block without statements. -/
theorem sim_emptyBlock (invoke : Declaration → List Value → Action κ Value)
    (hs : s.At w st f frames k operands (env.values ++ below)) :
    Sim w fuel s st (inBlock [] (execAll w.surroundings invoke fuel []) env)
      (Restored w scope f frames k operands below env) := by
  have hx : (inBlock [] (execAll w.surroundings invoke fuel []) env).on st =
      (.ok (.next, env), { st with heap := st.heap.release [] }) := rfl
  rw [Heap.release] at hx
  exact .of_ok hx (.here ⟨hs, rfl⟩)

/-! ### The place behind a statement -/

/-- Without marks, code is not longer than it has work instructions. -/
theorem length_bareAll_le {ν σ : Type} (is : List (Instr ν σ)) :
    (bareAll is).length ≤ countInstrs Instr.isWork is := by
  induction is with
  | nil => exact Nat.le_refl 0
  | cons i is ih =>
    have hi : i.bare.length ≤ i.count Instr.isWork := by
      cases i with
      | branch yes no | loop body | tick body =>
        rw [Instr.count]
        exact Nat.le_add_right 1 _
      | _ => exact Nat.le_refl _
    rw [bareAll, countInstrs, List.length_append]
    exact Nat.add_le_add hi ih

/-- A statement declares at most one variable, and does something. -/
theorem length_after_le {ns : Names} {stmt : Stmt} (h : stmt.lower ns scope = .ok code) :
    (scope.after stmt).locals.length ≤ scope.locals.length + countInstrs Instr.isWork code := by
  have hpos : 1 ≤ countInstrs Instr.isWork code :=
    Nat.le_trans (List.length_pos_of_ne_nil (Stmt.bareAll_lower_ne_nil h)) (length_bareAll_le code)
  have hafter : (scope.after stmt).locals.length ≤ scope.locals.length + 1 := by
    unfold Scope.after
    split
    · split
      · exact Nat.le_succ _
      · exact Nat.le_refl _
    · exact Nat.le_succ _
  omega

/-- How a signal is followed does not depend on what a statement declares. -/
theorem follows_after (stmt : Stmt) :
    Signal.Follows w (scope.after stmt) = Signal.Follows w scope := by
  unfold Scope.after
  split
  · split <;> rfl
  · rfl

/-- The scope behind a statement has the variables that the statement leaves. -/
theorem Scoped.after (hv : Scoped scope env f frames below) {stmt : Stmt} {env' : Blocks}
    (hkept : env.Kept env') (hnames : env'.names = (scope.after stmt).locals)
    (hn : (scope.after stmt).locals.length ≤ UInt32.size) :
    Scoped (scope.after stmt) env' f frames below where
  top := by
    have ht : (scope.after stmt).atTop = scope.atTop := by
      unfold Scope.after
      split
      · split <;> rfl
      · rfl
    rw [ht, hv.top, ← List.length_eq_zero_iff, ← List.length_eq_zero_iff, hkept.length]
  names := hnames.symm
  floor := hv.floor
  numbered := hn

/-- A statement that declares nothing leaves the variables that there were. -/
theorem Sim.undeclaring {x : Action κ (Signal × Blocks)} (hv : Scoped scope env f frames below)
    (h : Sim w fuel s st x (Restored w scope f frames k operands below env)) :
    Sim w fuel s st x fun result st' s' =>
      Done w scope f frames k operands below env result st' s' ∧
        (result.1 = .next → result.2.names = scope.locals) := by
  refine h.mono fun result st' s' hs' => ⟨⟨hs'.1, .of_shape hs'.2⟩, fun _ => ?_⟩
  rw [hv.names, Blocks.names_eq_flatten_shape, Blocks.names_eq_flatten_shape, hs'.2]

/-- A declaration makes a global at the top of the script, and a variable of the innermost block
elsewhere. -/
theorem sim_declare (hw : w.Linked) (hinv : Invokes w fuel invoke) (hv : Scoped scope env f frames below)
    {loc : Location} {t : String} {value : Expr}
    (h : (Stmt.declare loc t value).lower w.names scope = .ok code)
    (hc : countInstrs Instr.isWork code < UInt32.size)
    (hs : s.At w st f frames (bareAll code ++ k) operands (env.values ++ below)) :
    Sim w fuel s st ((Stmt.declare loc t value).exec w.surroundings invoke fuel env) fun result st' s' =>
      Done w scope f frames k operands below env result st' s' ∧
        (result.1 = .next → result.2.names = (scope.after (.declare loc t value)).locals) := by
  simp only [Stmt.lower, bind_eq_ok, pure_eq_ok] at h
  obtain ⟨value', hvalue, store, hstore, rfl⟩ := h
  simp only [countInstrs_append] at hc
  unfold lowerDeclared at hstore
  -- At the top a declaration stores a global, and inside a block it makes a local.
  by_cases htop : scope.atTop = true
  · rw [if_pos htop] at hstore
    obtain ⟨slot, hslot, rfl⟩ := Option.map_eq_some_iff.1 (orUnknown_eq_ok.1 hstore)
    rw [bareAll_last _ _ _ rfl] at hs
    have hafter : (scope.after (.declare loc t value)).locals = scope.locals := by
      simp only [Scope.after, if_pos htop]
    refine (value.sim hw hinv hv hvalue (by omega) hs).bind ?_
    intro v st' s' hs'
    have henv := hv.top.1 htop
    subst henv
    refine (sim_storeGlobal hw.globals hslot hs').bind ?_
    intro _ st'' s'' hs''
    exact .pure ⟨⟨hs'', .refl _⟩, fun _ => hafter ▸ hv.names.symm⟩
  · rw [if_neg htop] at hstore
    cases hstore
    rw [bareAll_last _ _ _ rfl] at hs
    have hafter : (scope.after (.declare loc t value)).locals = t :: scope.locals := by
      simp only [Scope.after, if_neg htop]
    refine (value.sim hw hinv hv hvalue (by omega) hs).bind ?_
    intro v st' s' hs'
    cases env with
    | nil => exact absurd (hv.top.2 rfl) htop
    | cons b outer =>
      refine (sim_pushLocal hs').mono ?_
      intro result st'' s'' hs''
      obtain ⟨rfl, hs''⟩ := hs''
      refine ⟨⟨?_, rfl, rfl⟩, fun _ => ?_⟩
      · rw [Blocks.values_cons, List.append_assoc] at hs''
        change s''.At w st'' f frames k operands (Blocks.values (((t, v) :: b) :: outer) ++ below)
        rw [Blocks.values_cons, List.append_assoc]
        exact hs''
      · rw [hafter, hv.names, Blocks.names_cons, Blocks.names_cons]
        rfl

end Parts

/-! ## Statements -/

section Statements

variable {w : Setting κ} {fuel : Nat} {invoke : Declaration → List Value → Action κ Value}

mutual

/-- The code of a statement does what the statement does. -/
theorem Stmt.sim (hw : w.Linked) (hinv : Invokes w fuel invoke) {scope : Scope} {env : Blocks} {f : Frame}
    {frames : List Frame} {below : List Value} (hv : Scoped scope env f frames below) {stmt : Stmt}
    {code : List Code} (h : stmt.lower w.names scope = .ok code)
    (hc : scope.locals.length + countInstrs Instr.isWork code < UInt32.size) {s : Course κ} {st : Store κ}
    {k : List Code} {operands : List Value}
    (hs : s.At w st f frames (bareAll code ++ k) operands (env.values ++ below)) :
    Sim w fuel s st (stmt.exec w.surroundings invoke fuel env) fun result st' s' =>
      Done w scope f frames k operands below env result st' s' ∧
        (result.1 = .next → result.2.names = (scope.after stmt).locals) := by
  cases stmt with
  | assign loc target value =>
    simp only [Stmt.lower, bind_eq_ok, pure_eq_ok] at h
    obtain ⟨code, ha, rfl⟩ := h
    rw [bareAll_placed] at hs
    rw [count_placed] at hc
    refine .undeclaring hv ?_
    exact (sim_assign hw hinv hv ha (by omega) hs).bind fun env' st' s' hs' => .pure hs'
  | branch loc cond yes no =>
    simp only [Stmt.lower, bind_eq_ok, pure_eq_ok] at h
    obtain ⟨cond', hcond, yes', hyes, no', hno, rfl⟩ := h
    rw [bareAll_last _ _ _ rfl] at hs
    simp only [countInstrs_append, countInstrs, Instr.count] at hc
    refine .undeclaring hv ?_
    refine (cond.sim hw hinv hv hcond (by omega) hs).bind ?_
    intro v st' s' hs'
    -- An empty body makes no frame, so the two cases end in different frames.
    refine sim_branch hs' (fun hnil s'' hs'' => ?_) (fun s'' body rest hr hs'' => ?_)
    · cases ht : v.isTruthy with
      | true =>
        rw [ht] at hnil
        cases eq_nil_of_bareAll_lowerStmts hyes hnil
        exact sim_emptyBlock invoke hs''
      | false =>
        rw [ht] at hnil
        cases eq_nil_of_bareAll_lowerStmts hno hnil
        exact sim_emptyBlock invoke hs''
    · have hscoped := hv.nested scope.block rfl rfl rfl
        ⟨.branch, body, body, (env.values ++ below).length⟩ (fun h => nomatch h) rest
      have hlocals : scope.block.locals.length = scope.locals.length := rfl
      -- What leaves the block is still to be done by the machine: its next step unwinds the frames.
      cases ht : v.isTruthy with
      | true =>
        rw [ht, ← List.append_nil (if true = true then bareAll yes' else bareAll no')] at hs''
        exact sim_branchBlock rfl rfl hr (sim_execAll hw hinv hscoped hyes (by omega) hs'')
      | false =>
        rw [ht, ← List.append_nil (if false = true then bareAll yes' else bareAll no')] at hs''
        exact sim_branchBlock rfl rfl hr (sim_execAll hw hinv hscoped hno (by omega) hs'')
  | loop loc body =>
    simp only [Stmt.lower, bind_eq_ok, pure_eq_ok] at h
    obtain ⟨body', hbody, rfl⟩ := h
    rw [bareAll_only _ _ rfl] at hs
    simp only [countInstrs_append, countInstrs, Instr.count] at hc
    refine .undeclaring hv (.run hs fun s' m op hk hi hm hd => ?_)
    cases hi with
    | loop hops =>
      refine sim_loop .loop hv hops hk hm hd ?_
      intro env' rest s st hscoped hs
      have hlocals : scope.loopBody.locals.length = scope.locals.length := rfl
      rw [← List.append_nil (bareAll body')] at hs
      exact sim_execAll hw hinv hscoped hbody (by omega) hs
  | tick loc body =>
    simp only [Stmt.lower, bind_eq_ok, pure_eq_ok] at h
    obtain ⟨body', hbody, rfl⟩ := h
    rw [bareAll_only _ _ rfl] at hs
    simp only [countInstrs_append, countInstrs, Instr.count] at hc
    refine .undeclaring hv (.run hs fun s' m op hk hi hm hd => ?_)
    cases hi with
    | tick hops =>
      refine sim_loop .tick hv hops hk hm hd ?_
      intro env' rest s st hscoped hs
      have hlocals : scope.loopBody.locals.length = scope.locals.length := rfl
      rw [← List.append_nil (bareAll body')] at hs
      exact sim_execAll hw hinv hscoped hbody (by omega) hs
  | whileLoop loc cond body =>
    simp only [Stmt.lower, bind_eq_ok, pure_eq_ok] at h
    obtain ⟨cond', hcond, body', hbody, rfl⟩ := h
    rw [bareAll_only _ _ rfl] at hs
    simp only [countInstrs_append, countInstrs, Instr.count] at hc
    refine .undeclaring hv (.run hs fun s' m op hk hi hm hd => ?_)
    cases hi with
    | loop hops =>
      refine sim_loop .loop hv hops hk hm hd ?_
      intro env' rest s st hscoped hs
      have hlocals : scope.loopBody.locals.length = scope.locals.length := rfl
      -- The condition is tested inside the loop, so every pass runs its code before the body.
      rw [bareAll_append, bareAll_append, List.append_assoc] at hs
      refine (cond.sim hw hinv hscoped hcond (by omega) hs).bind ?_
      intro v st' s' hs'
      refine sim_whileCondition hs' ?_
      intro s'' st'' hs''
      rw [← List.append_nil (bareAll body')] at hs''
      exact sim_execAll hw hinv hscoped hbody (by omega) hs''
  | continueLoop loc | breakLoop loc =>
    rw [Stmt.lower] at h
    split at h
    · next hloop =>
      cases h
      refine .run hs ?_
      intro s' m op hk hi hm hd
      cases hi
      exact .pure ⟨⟨⟨hloop, hk, m, k, hm, hd⟩, .refl env⟩, fun h => nomatch h⟩
    · cases h
  | giveBack loc value =>
    rw [Stmt.lower] at h
    split at h
    · next hfun =>
      simp only [bind_eq_ok, pure_eq_ok] at h
      obtain ⟨value', hvalue, rfl⟩ := h
      rw [bareAll_last _ _ _ rfl] at hs
      simp only [countInstrs_append] at hc
      refine (value.sim hw hinv hv hvalue (by omega) hs).bind ?_
      intro v st' s' hs'
      refine .run hs' ?_
      intro s'' m op hk hi hm hd
      cases hi
      exact .pure ⟨⟨⟨hfun, hk, m, k, hm, hd⟩, .refl env⟩, fun h => nomatch h⟩
    · cases h
  | declare loc t value => exact sim_declare hw hinv hv h (by omega) hs
  | function loc t params body => cases h
  | expr loc value =>
    simp only [Stmt.lower, bind_eq_ok, pure_eq_ok] at h
    obtain ⟨value', hvalue, rfl⟩ := h
    rw [bareAll_last _ _ _ rfl] at hs
    simp only [countInstrs_append] at hc
    refine .undeclaring hv ?_
    refine (value.sim hw hinv hv hvalue (by omega) hs).bind ?_
    intro v st' s' hs'
    exact (sim_discard hs').bind fun _ st'' s'' hs'' => .pure ⟨hs'', rfl⟩

/-- The code of a block does what its statements do. -/
theorem sim_execAll (hw : w.Linked) (hinv : Invokes w fuel invoke) {scope : Scope} {env : Blocks}
    {f : Frame} {frames : List Frame} {below : List Value} (hv : Scoped scope env f frames below)
    {ss : List Stmt} {code : List Code} (h : lowerStmts w.names scope ss = .ok code)
    (hc : scope.locals.length + countInstrs Instr.isWork code < UInt32.size) {s : Course κ} {st : Store κ}
    {k : List Code} {operands : List Value}
    (hs : s.At w st f frames (bareAll code ++ k) operands (env.values ++ below)) :
    Sim w fuel s st (execAll w.surroundings invoke fuel ss env)
      (Done w scope f frames k operands below env) := by
  cases ss with
  | nil =>
    cases h
    exact .pure ⟨hs, .refl env⟩
  | cons stmt ss =>
    simp only [lowerStmts, bind_eq_ok, pure_eq_ok] at h
    obtain ⟨first, hfirst, others, hothers, rfl⟩ := h
    rw [bareAll_append, List.append_assoc] at hs
    simp only [countInstrs_append] at hc
    refine (stmt.sim hw hinv hv hfirst (by omega) hs).bind ?_
    intro result st' s' hs'
    obtain ⟨signal, env'⟩ := result
    obtain ⟨⟨hfollows, hkept⟩, hnames⟩ := hs'
    cases signal with
    | next =>
      have hlen := length_after_le hfirst
      have hv' := hv.after hkept (hnames rfl) (by omega)
      refine (sim_execAll hw hinv hv' hothers (by omega) hfollows).mono ?_
      intro result st'' s'' hs''
      obtain ⟨hfollows', hkept'⟩ := hs''
      rw [follows_after] at hfollows'
      exact ⟨hfollows', hkept.trans hkept'⟩
    | breaks => exact .pure ⟨hfollows, hkept⟩
    | continues => exact .pure ⟨hfollows, hkept⟩
    | returns v => exact .pure ⟨hfollows, hkept⟩

end

end Statements

end TickScript
