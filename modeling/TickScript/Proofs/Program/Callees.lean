import TickScript.Proofs.Image.Linking
import TickScript.Proofs.Meaning.Scripts
import TickScript.Proofs.Program.Bare
import TickScript.Proofs.Program.Resolution

/-!
# The functions of the host that a script calls

A script calls functions by name, its program by number. The numbers that the code of a script calls, in the
order in which they are written, are those of the names that the script calls, in the order in which the
calls are made, without the names of its own functions, which hide those of the host (`Names.CallsHost`).
Dropping redundant places and linking change nothing about this, so the names that an image has recorded for
the numbers in its code are the names that the script calls (`Image.CallsAs`).
-/

namespace TickScript

/-! ## The calls of code -/

section Code

variable {ν σ : Type}

mutual

/-- The numbers of the host's functions that an instruction calls, and those inside it. -/
def Instr.builtinCalls : Instr ν σ → List UInt32
  | .callBuiltin id => [id]
  | .branch yes no => builtinCallsOf yes ++ builtinCallsOf no
  | .loop body | .tick body => builtinCallsOf body
  | _ => []

/-- The numbers of the host's functions that instructions call. -/
def builtinCallsOf : List (Instr ν σ) → List UInt32
  | [] => []
  | i :: is => i.builtinCalls ++ builtinCallsOf is

end

/-- The calls of builtins in code are those of its parts. -/
@[simp] theorem builtinCallsOf_append (is js : List (Instr ν σ)) :
    builtinCallsOf (is ++ js) = builtinCallsOf is ++ builtinCallsOf js := by
  induction is with
  | nil => rfl
  | cons i is ih => rw [List.cons_append, builtinCallsOf, ih, builtinCallsOf, List.append_assoc]

theorem builtinCallsOf_singleton (i : Instr ν σ) : builtinCallsOf [i] = i.builtinCalls := by
  rw [builtinCallsOf, builtinCallsOf, List.append_nil]

/-- The calls in an instruction are calls in the code that has it. -/
theorem builtinCalls_subset {i : Instr ν σ} {is : List (Instr ν σ)} (h : i ∈ is) :
    i.builtinCalls ⊆ builtinCallsOf is := by
  obtain ⟨before, after, rfl⟩ := List.append_of_mem h
  rw [builtinCallsOf_append, builtinCallsOf]
  exact List.subset_append_of_subset_right _ (List.subset_append_left _ _)

mutual

theorem Instr.builtinCalls_bare (i : Instr ν σ) : builtinCallsOf i.bare = i.builtinCalls := by
  cases i with
  | branch yes no =>
    rw [Instr.bare, builtinCallsOf_singleton, Instr.builtinCalls, Instr.builtinCalls,
      builtinCallsOf_bareAll, builtinCallsOf_bareAll]
  | loop body | tick body =>
    rw [Instr.bare, builtinCallsOf_singleton, Instr.builtinCalls, Instr.builtinCalls,
      builtinCallsOf_bareAll]
  | _ => rfl

/-- Stripping marks leaves the calls of builtins. -/
theorem builtinCallsOf_bareAll (is : List (Instr ν σ)) :
    builtinCallsOf (bareAll is) = builtinCallsOf is := by
  cases is with
  | nil => rfl
  | cons i is =>
    rw [bareAll, builtinCallsOf_append, i.builtinCalls_bare, builtinCallsOf_bareAll, builtinCallsOf]

end

/-- Dropping redundant places drops no call. -/
theorem builtinCallsOf_thinBody (body : List (Instr String σ)) :
    builtinCallsOf (thinBody body) = builtinCallsOf body := by
  rw [← builtinCallsOf_bareAll, thinBody, bareAll_thinAll, builtinCallsOf_bareAll]

theorem builtinCallsOf_replicate_pushLocal (n : Nat) :
    builtinCallsOf (List.replicate n (.pushLocal : Instr ν σ)) = [] := by
  induction n with
  | zero => rfl
  | succ n ih =>
    rw [List.replicate_succ, builtinCallsOf, ih]
    rfl

variable {ν' σ' : Type} {f : ν → Option ν'} {g : σ → Option σ'}

mutual

/-- Numbering texts and shapes leaves the calls of builtins. -/
theorem Instr.builtinCalls_mapM {i : Instr ν σ} {i' : Instr ν' σ'} (h : i.mapM f g = some i') :
    i'.builtinCalls = i.builtinCalls := by
  cases i with
  | file _ | pushText _ | makeObject _ | objectMember _ | storeMember _ =>
    obtain ⟨_, -, rfl⟩ := Option.map_eq_some_iff.1 h
    rfl
  | branch yes no =>
    rw [Instr.mapM] at h
    obtain ⟨yes', hyes, h⟩ := Option.bind_eq_some_iff.1 h
    obtain ⟨no', hno, h⟩ := Option.bind_eq_some_iff.1 h
    cases h
    rw [Instr.builtinCalls, Instr.builtinCalls, builtinCallsOf_mapInstrsM hyes,
      builtinCallsOf_mapInstrsM hno]
  | loop body | tick body =>
    rw [Instr.mapM] at h
    obtain ⟨body', hbody, rfl⟩ := Option.map_eq_some_iff.1 h
    exact builtinCallsOf_mapInstrsM hbody
  | _ =>
    cases h
    rfl

/-- Linking changes no number of a function. -/
theorem builtinCallsOf_mapInstrsM {is : List (Instr ν σ)} {is' : List (Instr ν' σ')}
    (h : mapInstrsM f g is = some is') : builtinCallsOf is' = builtinCallsOf is := by
  cases is with
  | nil =>
    cases h
    rfl
  | cons i is =>
    rw [mapInstrsM] at h
    obtain ⟨j, hj, h⟩ := Option.bind_eq_some_iff.1 h
    obtain ⟨js, hjs, h⟩ := Option.bind_eq_some_iff.1 h
    cases h
    rw [builtinCallsOf, builtinCallsOf, Instr.builtinCalls_mapM hj, builtinCallsOf_mapInstrsM hjs]

end

/-- The numbers of the host's functions that a program calls. -/
def Program.builtinCalls (p : Program ν σ) : List UInt32 :=
  p.functions.flatMap (fun f => builtinCallsOf f.body) ++ builtinCallsOf p.body

end Code

/-! ## The calls of a script -/

mutual

/-- The names that an expression calls, in the order in which the calls are made. -/
def Expr.callees : Expr → List String
  | .name _ _ | .null _ | .int _ _ | .float _ _ | .text _ _ => []
  | .tuple _ items | .array _ items => calleesOf items
  | .object _ members => calleesOfMembers members
  | .call _ callee args => calleesOf args ++ [callee]
  | .tupleMember _ base _ | .objectMember _ base _ | .unary _ _ base => base.callees
  | .element _ base index => base.callees ++ index.callees
  | .binary _ _ left right => left.callees ++ right.callees

/-- The names that several expressions call. -/
def calleesOf : List Expr → List String
  | [] => []
  | e :: es => e.callees ++ calleesOf es

/-- The names that an object's members call. -/
def calleesOfMembers : List (String × Expr) → List String
  | [] => []
  | (_, e) :: ms => e.callees ++ calleesOfMembers ms

end

mutual

/-- The names that a statement calls, in the order in which they are written. The body of a function
belongs to the function. -/
def Stmt.callees : Stmt → List String
  | .assign _ target value => target.callees ++ value.callees
  | .branch _ cond yes no => cond.callees ++ (calleesOfStmts yes ++ calleesOfStmts no)
  | .loop _ body | .tick _ body => calleesOfStmts body
  | .whileLoop _ cond body => cond.callees ++ calleesOfStmts body
  | .giveBack _ value | .declare _ _ value | .expr _ value => value.callees
  | .continueLoop _ | .breakLoop _ | .function _ _ _ _ => []

/-- The names that the statements of a block call. -/
def calleesOfStmts : List Stmt → List String
  | [] => []
  | s :: ss => s.callees ++ calleesOfStmts ss

end

/-! ## Lowering -/

namespace Names

/-- The name of a function of the host. -/
def builtinName? (ns : Names) (id : UInt32) : Option String := ns.builtins[id.toNat]?.map (·.name)

/-- Whether a name is none of the script's own functions. -/
def isForeign (ns : Names) (s : String) : Bool := (ns.functions.find? fun d => d.name == s).isNone

/-- The code calls the functions of the host among the called names, one after the other. -/
def CallsHost (ns : Names) (called : List String) (code : List Code) : Prop :=
  (builtinCallsOf code).map ns.builtinName? = (called.filter ns.isForeign).map some

namespace CallsHost

variable {ns : Names} {called called' : List String} {code code' : List Code} {i : Code}

/-- The calls of two pieces of code are those of both. -/
theorem append (h : ns.CallsHost called code) (h' : ns.CallsHost called' code') :
    ns.CallsHost (called ++ called') (code ++ code') := by
  unfold CallsHost at *
  rw [builtinCallsOf_append, List.map_append, h, h', List.filter_append, List.map_append]

theorem nil (h : builtinCallsOf code = []) : ns.CallsHost [] code := by
  unfold CallsHost
  rw [h]
  rfl

theorem congr (h : ns.CallsHost called code) (hc : builtinCallsOf code' = builtinCallsOf code) :
    ns.CallsHost called code' := by
  unfold CallsHost at *
  rw [hc, h]

/-- Saying where code stands calls nothing. -/
theorem placed (h : ns.CallsHost called code) (loc : Location) :
    ns.CallsHost called (TickScript.placed loc ++ code) := by
  have hplaced : ns.CallsHost [] (TickScript.placed loc) := nil rfl
  exact hplaced.append h

/-- An instruction behind the others that calls nothing. -/
theorem plain (h : ns.CallsHost called code) (hi : i.builtinCalls = []) :
    ns.CallsHost called (code ++ [i]) := by
  have happend := h.append (nil ((builtinCallsOf_singleton i).trans hi))
  rwa [List.append_nil] at happend

/-- An instruction with bodies. -/
theorem block (h : ns.CallsHost called code) (hi : i.builtinCalls = builtinCallsOf code) :
    ns.CallsHost called [i] :=
  h.congr ((builtinCallsOf_singleton i).trans hi)

end CallsHost

variable {ns : Names}

/-- A resolved call calls the builtin of that name, or a function of the script. -/
theorem callsHost_resolveCall (hn : ns.Numbered) {loc : Location} {s : String} {given : Nat} {i : Code}
    (h : ns.resolveCall loc s given = .ok i) : ns.CallsHost [s] [i] := by
  unfold CallsHost
  rcases resolveCall_eq_ok hn h with ⟨id, d, rfl, hfind, -⟩ | ⟨id, b, rfl, hnone, hfirst, hget, -⟩
  · have hown : ns.isForeign s = false := by rw [isForeign, hfind]; rfl
    rw [List.filter_singleton, hown]
    rfl
  · have hforeign : ns.isForeign s = true := by rw [isForeign, hnone]; rfl
    obtain ⟨hlt, hp, -⟩ := List.findIdx?_eq_some_iff_getElem.1 hfirst
    have hb : b.name = s := by
      rw [List.getElem?_eq_getElem hlt] at hget
      rw [← Option.some.inj hget]
      exact LawfulBEq.eq_of_beq hp
    rw [List.filter_singleton, hforeign]
    simp only [builtinCallsOf_singleton, Instr.builtinCalls, List.map_cons, List.map_nil, builtinName?,
      hget, Option.map_some, hb, cond_true]

theorem builtinCalls_load? {scope : Scope} {s : String} {i : Code} (h : ns.load? scope s = some i) :
    i.builtinCalls = [] := by
  unfold load? at h
  split at h <;> cases h <;> rfl

theorem builtinCalls_store? {scope : Scope} {s : String} {i : Code} (h : ns.store? scope s = some i) :
    i.builtinCalls = [] := by
  unfold store? at h
  split at h <;> cases h <;> rfl

end Names

section Lowering

variable {ns : Names}

theorem builtinCalls_lowerDeclared {scope : Scope} {loc : Location} {s : String} {i : Code}
    (h : lowerDeclared ns scope loc s = .ok i) : i.builtinCalls = [] := by
  unfold lowerDeclared at h
  split at h
  · obtain ⟨slot, -, rfl⟩ := Option.map_eq_some_iff.1 (orUnknown_eq_ok.1 h)
    rfl
  · cases h
    rfl

mutual

/-- The code of an expression calls the builtins that the expression names. -/
theorem Expr.callsHost_lower (hn : ns.Numbered) {scope : Scope} {e : Expr} {code : List Code}
    (h : e.lower ns scope = .ok code) : ns.CallsHost e.callees code := by
  cases e with
  | null loc | int loc x | text loc s =>
    cases h
    exact .nil rfl
  | name loc s =>
    simp only [Expr.lower, bind_eq_ok, pure_eq_ok, orUnknown_eq_ok] at h
    obtain ⟨load, hl, rfl⟩ := h
    exact .plain (.placed (.nil rfl) loc) (Names.builtinCalls_load? hl)
  | float loc x =>
    simp only [Expr.lower, bind_eq_ok, pure_eq_ok] at h
    obtain ⟨-, -, rfl⟩ := h
    exact .nil rfl
  | tuple loc items =>
    simp only [Expr.lower, bind_eq_ok, pure_eq_ok] at h
    obtain ⟨items', hi, rfl⟩ := h
    exact ((callsHost_lowerExprs hn hi).placed loc).plain rfl
  | object loc members =>
    simp only [Expr.lower, bind_eq_ok, pure_eq_ok] at h
    obtain ⟨-, -, values, hv, rfl⟩ := h
    exact ((callsHost_lowerMembers hn hv).placed loc).plain rfl
  | array loc items =>
    simp only [Expr.lower, bind_eq_ok, pure_eq_ok] at h
    obtain ⟨-, -, items', hi, rfl⟩ := h
    exact ((callsHost_lowerExprs hn hi).placed loc).plain rfl
  | call loc callee args =>
    simp only [Expr.lower, bind_eq_ok, pure_eq_ok] at h
    obtain ⟨call, hc, args', ha, rfl⟩ := h
    exact ((callsHost_lowerExprs hn ha).placed loc).append (Names.callsHost_resolveCall hn hc)
  | tupleMember loc base index =>
    simp only [Expr.lower, bind_eq_ok, pure_eq_ok] at h
    obtain ⟨base', hb, rfl⟩ := h
    exact (base.callsHost_lower hn hb |>.placed loc).plain rfl
  | objectMember loc base member =>
    simp only [Expr.lower, bind_eq_ok, pure_eq_ok] at h
    obtain ⟨-, -, base', hb, rfl⟩ := h
    exact (base.callsHost_lower hn hb |>.placed loc).plain rfl
  | element loc base index =>
    simp only [Expr.lower, bind_eq_ok, pure_eq_ok] at h
    obtain ⟨-, -, base', hb, index', hi, rfl⟩ := h
    exact ((base.callsHost_lower hn hb |>.placed loc).append (index.callsHost_lower hn hi)).plain rfl
  | unary loc op operand =>
    simp only [Expr.lower, bind_eq_ok, pure_eq_ok] at h
    obtain ⟨operand', ho, rfl⟩ := h
    exact (operand.callsHost_lower hn ho |>.placed loc).plain rfl
  | binary loc op left right =>
    simp only [Expr.lower, bind_eq_ok, pure_eq_ok] at h
    obtain ⟨left', hl, right', hr, rfl⟩ := h
    exact ((left.callsHost_lower hn hl |>.placed loc).append (right.callsHost_lower hn hr)).plain rfl

theorem callsHost_lowerExprs (hn : ns.Numbered) {scope : Scope} {es : List Expr} {code : List Code}
    (h : lowerExprs ns scope es = .ok code) : ns.CallsHost (calleesOf es) code := by
  cases es with
  | nil =>
    cases h
    exact .nil rfl
  | cons e es =>
    simp only [lowerExprs, bind_eq_ok, pure_eq_ok] at h
    obtain ⟨first, hf, others, ho, rfl⟩ := h
    exact (e.callsHost_lower hn hf).append (callsHost_lowerExprs hn ho)

theorem callsHost_lowerMembers (hn : ns.Numbered) {scope : Scope} {ms : List (String × Expr)} {code : List Code}
    (h : lowerMembers ns scope ms = .ok code) : ns.CallsHost (calleesOfMembers ms) code := by
  match ms with
  | [] =>
    cases h
    exact .nil rfl
  | (_, e) :: ms =>
    simp only [lowerMembers, bind_eq_ok, pure_eq_ok] at h
    obtain ⟨first, hf, others, ho, rfl⟩ := h
    exact (e.callsHost_lower hn hf).append (callsHost_lowerMembers hn ho)

end

/-- The code of an assignment calls the builtins that its sides name. -/
theorem callsHost_lowerAssign (hn : ns.Numbered) {scope : Scope} {loc : Location} {target value : Expr}
    {code : List Code} (h : lowerAssign ns scope loc target value = .ok code) :
    ns.CallsHost (target.callees ++ value.callees) code := by
  cases target with
  | name targetLoc s =>
    simp only [lowerAssign, bind_eq_ok, pure_eq_ok, orUnknown_eq_ok] at h
    obtain ⟨value', hv, store, hs, rfl⟩ := h
    exact (value.callsHost_lower hn hv).plain (Names.builtinCalls_store? hs)
  | objectMember targetLoc base member =>
    simp only [lowerAssign, bind_eq_ok, pure_eq_ok] at h
    obtain ⟨-, -, base', hb, value', hv, rfl⟩ := h
    exact ((base.callsHost_lower hn hb).append (value.callsHost_lower hn hv)).plain rfl
  | element targetLoc base index =>
    simp only [lowerAssign, bind_eq_ok, pure_eq_ok] at h
    obtain ⟨-, -, base', hb, index', hi, value', hv, rfl⟩ := h
    exact (((base.callsHost_lower hn hb).append (index.callsHost_lower hn hi)).append
      (value.callsHost_lower hn hv)).plain rfl
  | _ => cases h

mutual

/-- The code of a statement calls the builtins that the statement names. -/
theorem Stmt.callsHost_lower (hn : ns.Numbered) {scope : Scope} {s : Stmt} {code : List Code}
    (h : s.lower ns scope = .ok code) : ns.CallsHost s.callees code := by
  cases s with
  | assign loc target value =>
    simp only [Stmt.lower, bind_eq_ok, pure_eq_ok] at h
    obtain ⟨code', hc, rfl⟩ := h
    exact (callsHost_lowerAssign hn hc).placed loc
  | branch loc cond yes no =>
    simp only [Stmt.lower, bind_eq_ok, pure_eq_ok] at h
    obtain ⟨cond', hc, yes', hy, no', hno, rfl⟩ := h
    have hbodies := (callsHost_lowerStmts hn hy).append (callsHost_lowerStmts hn hno)
    exact (cond.callsHost_lower hn hc |>.placed loc).append
      (hbodies.block (builtinCallsOf_append yes' no').symm)
  | loop loc body | tick loc body =>
    simp only [Stmt.lower, bind_eq_ok, pure_eq_ok] at h
    obtain ⟨body', hb, rfl⟩ := h
    exact .placed ((callsHost_lowerStmts hn hb).block rfl) loc
  | whileLoop loc cond body =>
    simp only [Stmt.lower, bind_eq_ok, pure_eq_ok] at h
    obtain ⟨cond', hc, body', hb, rfl⟩ := h
    -- Turning the condition around and leaving the loop calls nothing.
    have hwork : ns.CallsHost [] [.unary .not, .branch [.breakLoop] []] := .nil rfl
    have hleave := (cond.callsHost_lower hn hc).append hwork
    rw [List.append_nil] at hleave
    exact .placed ((hleave.append (callsHost_lowerStmts hn hb)).block rfl) loc
  | continueLoop loc | breakLoop loc =>
    rw [Stmt.lower] at h
    split at h
    · cases h
      exact .nil rfl
    · cases h
  | giveBack loc value =>
    rw [Stmt.lower] at h
    split at h
    · simp only [bind_eq_ok, pure_eq_ok] at h
      obtain ⟨value', hv, rfl⟩ := h
      exact (value.callsHost_lower hn hv |>.placed loc).plain rfl
    · cases h
  | declare loc declared value =>
    simp only [Stmt.lower, bind_eq_ok, pure_eq_ok] at h
    obtain ⟨value', hv, store, hs, rfl⟩ := h
    exact (value.callsHost_lower hn hv |>.placed loc).plain (builtinCalls_lowerDeclared hs)
  | function loc declared params body => exact nomatch h
  | expr loc value =>
    simp only [Stmt.lower, bind_eq_ok, pure_eq_ok] at h
    obtain ⟨value', hv, rfl⟩ := h
    exact (value.callsHost_lower hn hv |>.placed loc).plain rfl

/-- The code of statements calls the builtins that they name, in their order. -/
theorem callsHost_lowerStmts (hn : ns.Numbered) {scope : Scope} {ss : List Stmt} {code : List Code}
    (h : lowerStmts ns scope ss = .ok code) : ns.CallsHost (calleesOfStmts ss) code := by
  cases ss with
  | nil =>
    cases h
    exact .nil rfl
  | cons s ss =>
    simp only [lowerStmts, bind_eq_ok, pure_eq_ok] at h
    obtain ⟨first, hf, others, ho, rfl⟩ := h
    exact (s.callsHost_lower hn hf).append (callsHost_lowerStmts hn ho)

end

/-- The code of a function calls the builtins that its body names. -/
theorem Declaration.callsHost_lower (hn : ns.Numbered) {d : Declaration}
    {f : Function String (List String)} (h : d.lower ns = .ok f) :
    ns.CallsHost (calleesOfStmts d.body) f.body := by
  obtain ⟨body, hb, rfl⟩ := d.lower_eq_ok h
  refine (callsHost_lowerStmts hn hb).congr ?_
  rw [builtinCallsOf_thinBody, builtinCallsOf_append, builtinCallsOf_replicate_pushLocal, List.nil_append]

end Lowering

/-! ## Images -/

/-- The names of the host's functions that statements of a script call, in order. The functions that the
script declares hide those of the host. -/
def hostCallees (script ss : List Stmt) : List String :=
  (calleesOfStmts ss).filter fun s =>
    ((script.filterMap Stmt.declaration?).find? fun d => d.name == s).isNone

/-- The calls of the host in the bodies of an image are those of the script: one after the other, they call
by number what the script calls by the name that the image has recorded for the number. -/
structure Image.CallsAs (image : Image) (script : List Stmt) : Prop where
  body : (builtinCallsOf image.program.body).map image.builtinName? =
    (hostCallees script (script.filter (! ·.isFunction))).map some
  functions : List.Forall₂ (fun d f =>
      (builtinCallsOf f.body).map image.builtinName? = (hostCallees script d.body).map some)
    (script.filterMap Stmt.declaration?) image.program.functions

/-- What the code of the image calls has a name. -/
theorem Image.CallsAs.exists_name {image : Image} {script : List Stmt} (h : image.CallsAs script)
    {id : UInt32} (hid : id ∈ image.program.builtinCalls) : ∃ s, image.builtinName? id = some s := by
  have hnamed {ids : List UInt32} {called : List String} (hmap : ids.map image.builtinName? = called.map some)
      (hmem : id ∈ ids) : ∃ s, image.builtinName? id = some s := by
    have hsome : image.builtinName? id ∈ called.map some := hmap ▸ List.mem_map_of_mem hmem
    obtain ⟨s, -, hs⟩ := List.mem_map.1 hsome
    exact ⟨s, hs.symm⟩
  rcases List.mem_append.1 hid with hid | hid
  · obtain ⟨f, hf, hid⟩ := List.mem_flatMap.1 hid
    obtain ⟨d, -, hd⟩ := exists_of_forall₂_right h.functions hf
    exact hnamed hd hid
  · exact hnamed h.body hid

theorem forall₂_comp {α β γ : Type} {R : α → β → Prop} {S : β → γ → Prop} {T : α → γ → Prop}
    (hT : ∀ a b c, R a b → S b c → T a c) {as : List α} {bs : List β} {cs : List γ}
    (h : List.Forall₂ R as bs) (h' : List.Forall₂ S bs cs) : List.Forall₂ T as cs := by
  induction h generalizing cs with
  | nil =>
    cases h'
    exact .nil
  | cons hab _ ih =>
    cases h' with
    | cons hbc hrest => exact .cons (hT _ _ _ hab hbc) (ih hrest)

/-- The name that an image has recorded for a number. -/
theorem builtinName?_of_linked {image : Image} {p : Program String (List String)}
    (h : ProgramLinked image p image.program) (id : UInt32) :
    image.builtinName? id = p.builtins[id.toNat]?.map (·.name) := by
  unfold Image.builtinName?
  rcases forall₂_getElem? h.builtins id.toNat with ⟨hb, hb'⟩ | ⟨b, b', hb, hb', hlinked⟩
  · rw [hb, hb']
    rfl
  · rw [hb, hb']
    exact hlinked.name

/-- What code calls, linked code calls by the names that the image has recorded. -/
theorem Names.CallsHost.linked {ns : Names} {image : Image} {p : Program String (List String)}
    {called : List String} {code : List Code} {ops : List Op} (h : ns.CallsHost called code)
    (hl : ProgramLinked image p image.program) (hb : p.builtins = ns.builtins)
    (hops : mapInstrsM image.text? image.shape? ops = some code) :
    (builtinCallsOf ops).map image.builtinName? = (called.filter ns.isForeign).map some := by
  rw [← builtinCallsOf_mapInstrsM hops, funext (builtinName?_of_linked hl), hb]
  exact h

/-- A compiled program calls the builtins that its script names, in their order. -/
theorem callsAs_link {features : FeatureSet} {builtins : List (Signature String)} {script : List Stmt}
    {p : Program String (List String)} (h : lowerScript features builtins script = .ok p)
    (hs : p.Storable) : (Image.link p).CallsAs script := by
  have hl := programLinked_link p hs.numbered
  have hc := hs.counted
  obtain ⟨d, functions, code, hd, hf, hcode, rfl⟩ := lowerScript_eq_ok h
  have hfunctions : d.functions = script.filterMap Stmt.declaration? := (Declared.collect_eq_ok hd).1
  have hlower := mapM_ok_forall₂ hf
  let ns : Names := ⟨features, builtins, d.functions, d.globals⟩
  have hn : ns.Numbered := ⟨hlower.length_eq ▸ hc.functions, hc.builtins⟩
  have hforeign (ss : List Stmt) : hostCallees script ss = (calleesOfStmts ss).filter ns.isForeign := by
    rw [hostCallees, ← hfunctions]
    rfl
  refine ⟨?_, ?_⟩
  · rw [hforeign]
    exact ((callsHost_lowerStmts hn hcode).congr (builtinCallsOf_thinBody code)).linked hl rfl hl.body
  · rw [← hfunctions]
    refine forall₂_comp (fun decl f f' hdecl hf' => ?_) hlower hl.functions
    rw [hforeign]
    exact (decl.callsHost_lower hn hdecl).linked hl rfl hf'.body

end TickScript
