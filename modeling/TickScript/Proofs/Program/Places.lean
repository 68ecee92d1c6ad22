import TickScript.Program.Script
import TickScript.Proofs.Program.Origins
import TickScript.Proofs.Program.Resolution

/-!
# Where lowered code stands

This file follows the places through lowering and through the dropping of redundant ones: every body that
lowering makes is `Located` for the origins of its statements. The line is known everywhere. The file is
carried across bodies as if they could not change it, so it is known everywhere as long as no branch or
loop leaves its file (`Stmt.keepsFile`).
-/

namespace TickScript

variable {σ : Type}

/-! ## Dropping redundant places -/

theorem thinAll_cons (k : Marks) (i : Instr String σ) (is : List (Instr String σ)) :
    thinAll k (i :: is) = ((i.thin k).1 ++ (thinAll (i.thin k).2 is).1, (thinAll (i.thin k).2 is).2) :=
  rfl

/-- Code is thinned part by part, with the marks the first part left. -/
theorem thinAll_append (k : Marks) (is js : List (Instr String σ)) :
    thinAll k (is ++ js) =
      ((thinAll k is).1 ++ (thinAll (thinAll k is).2 js).1, (thinAll (thinAll k is).2 js).2) := by
  induction is generalizing k with
  | nil => rfl
  | cons i is ih =>
    rw [List.cons_append, thinAll_cons, ih, thinAll_cons]
    simp only [List.append_assoc]

theorem thinAll_singleton (k : Marks) (i : Instr String σ) : thinAll k [i] = i.thin k := by
  simp only [thinAll, List.append_nil]

/-- A plain instruction is kept and leaves the marks. -/
theorem Instr.thin_of_isPlain {i : Instr String σ} (h : i.isPlain) (k : Marks) :
    i.thin k = ([i], k) := by
  cases i <;> first | rfl | exact nomatch h

/-- A call is kept and leaves the marks. -/
theorem Instr.thin_of_callsBy {calls : UInt32 → String → Prop} {callee : String}
    {i : Instr String σ} (h : i.CallsBy calls callee) (k : Marks) : i.thin k = ([i], k) := by
  cases i <;> first | rfl | exact h.elim

/-- Code with all its places: once the redundant ones are dropped it is located, and this is what is
known after it. -/
structure Traced (calls : UInt32 → String → Prop) (filed : Bool) (pin : Option String) (k : Marks)
    (code : List Code) (os : List Origin) (k' : Marks) : Prop where
  known : (thinAll k code).2 = k'
  located : Located ⟨some, calls, filed⟩ pin (k.seen filed) (thinAll k code).1 os (k'.seen filed)

namespace Traced

variable {calls : UInt32 → String → Prop} {filed : Bool} {pin : Option String} {k k' k'' : Marks}
  {code code' : List Code} {os os' : List Origin}

theorem nil : Traced calls filed pin k [] [] k := ⟨rfl, .nil⟩

/-- Traced code may be put together. -/
theorem append (h : Traced calls filed pin k code os k') (h' : Traced calls filed pin k' code' os' k'') :
    Traced calls filed pin k (code ++ code') (os ++ os') k'' := by
  have hknown := h.known
  refine ⟨?_, ?_⟩
  · rw [thinAll_append, hknown]
    exact h'.known
  · rw [thinAll_append, hknown]
    exact h.located.append h'.located

theorem file {s : String} (hpin : ∀ file, pin = some file → k.file = some s) :
    Traced calls filed pin k [.file s] [] { k with file := some s } := by
  by_cases hs : k.file = some s
  · have hk : ({ k with file := some s } : Marks) = k := by rw [← hs]
    have hthin : thinAll k [(.file s : Code)] = ([], k) := by
      rw [thinAll_singleton, Instr.thin, if_pos hs]
    rw [hk]
    exact ⟨by rw [hthin], by rw [hthin]; exact .nil⟩
  · have hthin : thinAll k [(.file s : Code)] = ([.file s], { k with file := some s }) := by
      rw [thinAll_singleton, Instr.thin, if_neg hs]
    refine ⟨by rw [hthin], ?_⟩
    rw [hthin]
    cases pin with
    | none => exact .file rfl .nil
    | some file => exact absurd (hpin file rfl) hs

theorem line {n : UInt32} : Traced calls filed pin k [.line n] [] { k with line := some n } := by
  by_cases hn : k.line = some n
  · have hk : ({ k with line := some n } : Marks) = k := by rw [← hn]
    have hthin : thinAll k [(.line n : Code)] = ([], k) := by
      rw [thinAll_singleton, Instr.thin, if_pos hn]
    rw [hk]
    exact ⟨by rw [hthin], by rw [hthin]; exact .nil⟩
  · have hthin : thinAll k [(.line n : Code)] = ([.line n], { k with line := some n }) := by
      rw [thinAll_singleton, Instr.thin, if_neg hn]
    refine ⟨by rw [hthin], ?_⟩
    rw [hthin]
    exact .line .nil

/-- Saying where something stands makes all of its place known. -/
theorem placed {loc : Location} (hpin : ∀ file, pin = some file → k.file = some loc.file) :
    Traced calls filed pin k (TickScript.placed loc) [] (.of loc) :=
  (file hpin).append line

/-- A plain instruction is traced where the marks tell its place. -/
theorem plain {i : Code} {o : Origin} (hi : i.isPlain ∧ i.IsFor o)
    (ho : ∀ p, o.place? = some p → (k.seen filed).Tell filed p) :
    Traced calls filed pin k [i] [o] k := by
  have hthin : thinAll k [i] = ([i], k) := by rw [thinAll_singleton, i.thin_of_isPlain hi.1]
  exact ⟨by rw [hthin], by rw [hthin]; exact .plain hi.1 hi.2 ho .nil⟩

/-- After its operands an expression makes its own value, where the last of them ends. -/
theorem node {i : Code} (e : Expr) (h : Traced calls filed pin k code os (.of e.ends))
    (hi : i.isPlain ∧ i.IsFor (.node e)) :
    Traced calls filed pin k (code ++ [i]) (os ++ [.node e]) (.of e.ends) := by
  refine h.append (plain hi ?_)
  rintro p ⟨⟩
  exact Marks.tell_of filed e.ends

/-- After its arguments a call is made, where the last of them ends. -/
theorem call {i : Code} {loc : Location} {callee : String} {args : List Expr}
    (h : Traced calls filed pin k code os (.of (endsOf loc args))) (hi : i.CallsBy calls callee) :
    Traced calls filed pin k (code ++ [i]) (os ++ [.node (.call loc callee args)])
      (.of (endsOf loc args)) := by
  have hthin (k : Marks) : thinAll k [i] = ([i], k) := by rw [thinAll_singleton, i.thin_of_callsBy hi]
  refine h.append ⟨by rw [hthin], ?_⟩
  rw [hthin]
  exact .call hi (Marks.tell_of filed _) .nil

end Traced

/-! ## Expressions -/

/-- An expression that keeps to the file that is pinned, if one is, ends in it. -/
theorem Expr.file_ends {e : Expr} {pin : Option String}
    (h : ∀ file, pin = some file → e.everywhere (·.file == file)) (file : String)
    (hfile : pin = some file) : (Marks.of e.ends).file = some file :=
  congrArg some (LawfulBEq.eq_of_beq (e.everywhere_ends (p := (·.file == file)) (h file hfile)))

namespace Names

/-- The number is that of the first function with the name. -/
def Calls (ns : Names) (id : UInt32) (s : String) : Prop :=
  ∃ d, ns.functions.find? (fun d => d.name == s) = some d ∧ ns.functions[id.toNat]? = some d

/-- A resolved call calls what the name stands for. -/
theorem callsBy_of_resolveCall {ns : Names} (hn : ns.Numbered) {loc : Location} {s : String}
    {given : Nat} {i : Code} (h : ns.resolveCall loc s given = .ok i) : i.CallsBy ns.Calls s := by
  rcases resolveCall_eq_ok hn h with ⟨id, d, rfl, hfind, hget, -⟩ | ⟨id, b, rfl, -⟩
  · exact ⟨d, hfind, hget⟩
  · trivial

/-- Reading a variable stands for the name. -/
theorem isFor_of_load? {ns : Names} {scope : Scope} {s : String} {i : Code}
    (h : ns.load? scope s = some i) (loc : Location) : i.isPlain ∧ i.IsFor (.node (.name loc s)) := by
  unfold load? at h
  split at h <;> cases h <;> exact ⟨rfl, loc, s, rfl⟩

theorem isFor_of_store? {ns : Names} {scope : Scope} {s : String} {i : Code}
    (h : ns.store? scope s = some i) (loc : Location) (value : Expr) :
    i.isPlain ∧ i.IsFor (.store loc value) := by
  unfold store? at h
  split at h <;> cases h <;> exact ⟨rfl, loc, value, rfl⟩

end Names

mutual

/-- The code of an expression stands where the expression stands, and ends where it ends. -/
theorem Expr.traced_lower {ns : Names} (hn : ns.Numbered) {scope : Scope} {filed : Bool}
    {pin : Option String} {k : Marks} {e : Expr} {code : List Code} (h : e.lower ns scope = .ok code)
    (hk : ∀ file, pin = some file → k.file = some file)
    (he : ∀ file, pin = some file → e.everywhere (·.file == file)) :
    Traced ns.Calls filed pin k code e.origins (.of e.ends) := by
  have hof (file : String) (hfile : pin = some file) : (Marks.of e.location).file = some file :=
    congrArg some (LawfulBEq.eq_of_beq (e.everywhere_location (p := (·.file == file)) (he file hfile)))
  have hplaced : Traced ns.Calls filed pin k (placed e.location) [] (.of e.location) :=
    .placed fun file hfile => (hk file hfile).trans (hof file hfile).symm
  -- the first operand says where it stands after the expression has, every other one after the one before
  cases e with
  | name loc s =>
    simp only [Expr.lower, bind_eq_ok, pure_eq_ok, orUnknown_eq_ok] at h
    obtain ⟨load, hl, rfl⟩ := h
    exact .node (.name loc s) hplaced (Names.isFor_of_load? hl loc)
  | null loc =>
    cases h
    exact .node (.null loc) hplaced ⟨rfl, loc, rfl⟩
  | int loc x =>
    cases h
    exact .node (.int loc x) hplaced ⟨rfl, loc, rfl⟩
  | float loc x =>
    simp only [Expr.lower, bind_eq_ok, pure_eq_ok] at h
    obtain ⟨-, -, rfl⟩ := h
    exact .node (.float loc x) hplaced ⟨rfl, loc, x, rfl, rfl⟩
  | text loc s =>
    cases h
    exact .node (.text loc s) hplaced ⟨rfl, loc, s, rfl⟩
  | tuple loc items =>
    simp only [Expr.lower, bind_eq_ok, pure_eq_ok] at h
    obtain ⟨items', hi, rfl⟩ := h
    have hitems file hfile := (Bool.and_eq_true_iff.1 (he file hfile)).2
    exact .node (.tuple loc items) (hplaced.append (traced_lowerExprs hn hi hof hitems))
      ⟨rfl, loc, items, rfl, rfl⟩
  | object loc members =>
    simp only [Expr.lower, bind_eq_ok, pure_eq_ok] at h
    obtain ⟨-, -, values, hv, rfl⟩ := h
    have hmembers file hfile := (Bool.and_eq_true_iff.1 (he file hfile)).2
    exact .node (.object loc members) (hplaced.append (traced_lowerMembers hn hv hof hmembers))
      ⟨rfl, loc, members, rfl⟩
  | array loc items =>
    simp only [Expr.lower, bind_eq_ok, pure_eq_ok] at h
    obtain ⟨-, -, items', hi, rfl⟩ := h
    have hitems file hfile := (Bool.and_eq_true_iff.1 (he file hfile)).2
    exact .node (.array loc items) (hplaced.append (traced_lowerExprs hn hi hof hitems))
      ⟨rfl, loc, items, rfl, rfl⟩
  | call loc callee args =>
    simp only [Expr.lower, bind_eq_ok, pure_eq_ok] at h
    obtain ⟨call, hcall, args', ha, rfl⟩ := h
    have hargs file hfile := (Bool.and_eq_true_iff.1 (he file hfile)).2
    exact (hplaced.append (traced_lowerExprs hn ha hof hargs)).call
      (Names.callsBy_of_resolveCall hn hcall)
  | tupleMember loc base index =>
    simp only [Expr.lower, bind_eq_ok, pure_eq_ok] at h
    obtain ⟨base', hb, rfl⟩ := h
    have hbase file hfile := (Bool.and_eq_true_iff.1 (he file hfile)).2
    exact .node (.tupleMember loc base index) (hplaced.append (base.traced_lower hn hb hof hbase))
      ⟨rfl, loc, base, rfl⟩
  | objectMember loc base member =>
    simp only [Expr.lower, bind_eq_ok, pure_eq_ok] at h
    obtain ⟨-, -, base', hb, rfl⟩ := h
    have hbase file hfile := (Bool.and_eq_true_iff.1 (he file hfile)).2
    exact .node (.objectMember loc base member) (hplaced.append (base.traced_lower hn hb hof hbase))
      ⟨rfl, loc, base, member, rfl⟩
  | element loc base index =>
    simp only [Expr.lower, bind_eq_ok, pure_eq_ok] at h
    obtain ⟨-, -, base', hb, index', hi, rfl⟩ := h
    have hboth file hfile := Bool.and_eq_true_iff.1 (he file hfile)
    have hbase file hfile := (Bool.and_eq_true_iff.1 (hboth file hfile).1).2
    have hindex file hfile := (hboth file hfile).2
    have h := (hplaced.append (base.traced_lower hn hb hof hbase)).append
      (index.traced_lower hn hi (base.file_ends hbase) hindex)
    exact .node (.element loc base index) h ⟨rfl, loc, base, index, rfl⟩
  | unary loc op operand =>
    simp only [Expr.lower, bind_eq_ok, pure_eq_ok] at h
    obtain ⟨operand', ho, rfl⟩ := h
    have hoperand file hfile := (Bool.and_eq_true_iff.1 (he file hfile)).2
    exact .node (.unary loc op operand) (hplaced.append (operand.traced_lower hn ho hof hoperand))
      ⟨rfl, .inl ⟨loc, operand, rfl⟩⟩
  | binary loc op left right =>
    simp only [Expr.lower, bind_eq_ok, pure_eq_ok] at h
    obtain ⟨left', hl, right', hr, rfl⟩ := h
    have hboth file hfile := Bool.and_eq_true_iff.1 (he file hfile)
    have hleft file hfile := (Bool.and_eq_true_iff.1 (hboth file hfile).1).2
    have hright file hfile := (hboth file hfile).2
    have h := (hplaced.append (left.traced_lower hn hl hof hleft)).append
      (right.traced_lower hn hr (left.file_ends hleft) hright)
    exact .node (.binary loc op left right) h ⟨rfl, loc, left, right, rfl⟩

/-- The code of several expressions ends where the last of them ends. -/
theorem traced_lowerExprs {ns : Names} (hn : ns.Numbered) {scope : Scope} {filed : Bool}
    {pin : Option String} {p : Location} {es : List Expr} {code : List Code}
    (h : lowerExprs ns scope es = .ok code) (hp : ∀ file, pin = some file → (Marks.of p).file = some file)
    (he : ∀ file, pin = some file → everywhereIn (·.file == file) es) :
    Traced ns.Calls filed pin (.of p) code (originsOf es) (.of (endsOf p es)) := by
  cases es with
  | nil =>
    cases h
    exact .nil
  | cons e es =>
    simp only [lowerExprs, bind_eq_ok, pure_eq_ok] at h
    obtain ⟨first, hf, others, ho, rfl⟩ := h
    have hfirst file hfile := (Bool.and_eq_true_iff.1 (he file hfile)).1
    have hothers file hfile := (Bool.and_eq_true_iff.1 (he file hfile)).2
    exact (e.traced_lower hn hf hp hfirst).append
      (traced_lowerExprs hn ho (e.file_ends hfirst) hothers)

/-- The code of an object's members ends where the last of them ends. -/
theorem traced_lowerMembers {ns : Names} (hn : ns.Numbered) {scope : Scope} {filed : Bool}
    {pin : Option String} {p : Location} {ms : List (String × Expr)} {code : List Code}
    (h : lowerMembers ns scope ms = .ok code) (hp : ∀ file, pin = some file → (Marks.of p).file = some file)
    (he : ∀ file, pin = some file → everywhereInMembers (·.file == file) ms) :
    Traced ns.Calls filed pin (.of p) code (originsOfMembers ms) (.of (endsOfMembers p ms)) := by
  match ms with
  | [] =>
    cases h
    exact .nil
  | (_, e) :: ms =>
    simp only [lowerMembers, bind_eq_ok, pure_eq_ok] at h
    obtain ⟨first, hf, others, ho, rfl⟩ := h
    have hfirst file hfile := (Bool.and_eq_true_iff.1 (he file hfile)).1
    have hothers file hfile := (Bool.and_eq_true_iff.1 (he file hfile)).2
    exact (e.traced_lower hn hf hp hfirst).append
      (traced_lowerMembers hn ho (e.file_ends hfirst) hothers)

end

/-! ## Statements -/

/-- The file that a body keeps to, if files count. -/
def pinned (filed : Bool) (file : String) : Option String := if filed then some file else none

/-- Only the given file is pinned, and only where code stays in its file. -/
theorem pinned_eq_some {filed : Bool} {file file' : String} (h : pinned filed file = some file') :
    filed = true ∧ file = file' := by
  cases filed with
  | true => exact ⟨rfl, Option.some.inj h⟩
  | false => exact nomatch h

/-- The file that marks tell is one they hold. -/
theorem Marks.file_of_seen {filed : Bool} {k : Marks} {file : String}
    (h : (k.seen filed).file = some file) : k.file = some file := by
  cases filed with
  | true => exact h
  | false => exact nomatch h

namespace Traced

variable {calls : UInt32 → String → Prop} {filed : Bool} {pin : Option String} {k k' k₁ k₂ : Marks}
  {code : List Code} {os : List Origin} {p : Location}

/-- After its value an assignment or declaration stores it, where the value ends. -/
theorem store {i : Code} {loc : Location} {value : Expr}
    (h : Traced calls filed pin k code os (.of value.ends))
    (hi : i.isPlain ∧ i.IsFor (.store loc value)) :
    Traced calls filed pin k (code ++ [i]) (os ++ [.store loc value]) (.of value.ends) := by
  refine h.append (plain hi ?_)
  rintro p ⟨⟩
  exact Marks.tell_of filed value.ends

/-- An instruction that serves no node of its own may stand anywhere. -/
theorem work {i : Code} (hi : i.isPlain ∧ i.IsFor .work) : Traced calls filed pin k [i] [.work] k :=
  plain hi fun _ hp => nomatch hp

/-- A body that keeps to a file leaves it. -/
theorem file_seen {file : String} (h : Traced calls filed (pinned filed file) k code os k')
    (hk : (k.seen filed).file = pinned filed file) : (k'.seen filed).file = pinned filed file := by
  cases filed with
  | true => exact (h.located.file_eq fun hp => nomatch hp).trans hk
  | false => rfl

/-- After a body that keeps to a file, the file is known and the line is not. -/
theorem seen_forgetLine {file : String} (h : Traced calls filed (pinned filed file) k code os k')
    (hk : (k.seen filed).file = pinned filed file) :
    k'.forgetLine.seen filed = ⟨none, pinned filed file⟩ := by
  exact congrArg (Marks.mk none) (h.file_seen hk)

theorem branch {yes no : List Code} {yes' no' : List Origin}
    (hyes : Traced calls filed (pinned filed p.file) (Marks.of p).forgetLine yes yes' k₁)
    (hno : Traced calls filed (pinned filed p.file) k₁.forgetLine no no' k₂) :
    Traced calls filed pin (.of p) [.branch yes no] [.branch yes' no'] k₂.forgetLine := by
  have hbetween := hyes.seen_forgetLine rfl
  have hafter := hno.seen_forgetLine (congrArg Marks.file hbetween)
  have hthin : thinAll (.of p) [(.branch yes no : Code)] =
      ([.branch (thinAll (Marks.of p).forgetLine yes).1 (thinAll k₁.forgetLine no).1], k₂.forgetLine) := by
    rw [thinAll_singleton, ← hno.known, ← hyes.known]
    rfl
  have hlocated := hno.located
  rw [hbetween] at hlocated
  refine ⟨by rw [hthin], ?_⟩
  rw [hthin, hafter]
  exact .branch hyes.located hlocated .nil

/-- A loop is traced with its body, and the line is forgotten before it and behind it. -/
theorem loop {body : List Code} {body' : List Origin}
    (h : Traced calls filed (pinned filed p.file) (Marks.of p).forgetLine body body' k₁) :
    Traced calls filed pin (.of p) [.loop body] [.loop body'] k₁.forgetLine := by
  have hthin : thinAll (.of p) [(.loop body : Code)] =
      ([.loop (thinAll (Marks.of p).forgetLine body).1], k₁.forgetLine) := by
    rw [thinAll_singleton, ← h.known]
    rfl
  refine ⟨by rw [hthin], ?_⟩
  rw [hthin, h.seen_forgetLine rfl]
  exact .loop h.located .nil

theorem tick {body : List Code} {body' : List Origin}
    (h : Traced calls filed (pinned filed p.file) (Marks.of p).forgetLine body body' k₁) :
    Traced calls filed pin (.of p) [.tick body] [.loop body'] k₁.forgetLine := by
  have hthin : thinAll (.of p) [(.tick body : Code)] =
      ([.tick (thinAll (Marks.of p).forgetLine body).1], k₁.forgetLine) := by
    rw [thinAll_singleton, ← h.known]
    rfl
  refine ⟨by rw [hthin], ?_⟩
  rw [hthin, h.seen_forgetLine rfl]
  exact .tick h.located .nil

end Traced

/-- The code of an assignment is traced to the assignment and its sides. -/
theorem traced_lowerAssign {ns : Names} (hn : ns.Numbered) {scope : Scope} {filed : Bool}
    {pin : Option String} {k : Marks} {loc : Location} {target value : Expr} {code : List Code}
    (h : lowerAssign ns scope loc target value = .ok code)
    (hk : ∀ file, pin = some file → k.file = some file)
    (ht : ∀ file, pin = some file → target.everywhere (·.file == file))
    (hv : ∀ file, pin = some file → value.everywhere (·.file == file)) :
    Traced ns.Calls filed pin k code (target.targetOrigins ++ value.origins ++ [.store loc value])
      (.of value.ends) := by
  cases target with
  | name targetLoc s =>
    simp only [lowerAssign, bind_eq_ok, pure_eq_ok, orUnknown_eq_ok] at h
    obtain ⟨value', hvalue, store, hs, rfl⟩ := h
    exact (value.traced_lower hn hvalue hk hv).store (Names.isFor_of_store? hs loc value)
  | objectMember targetLoc base member =>
    simp only [lowerAssign, bind_eq_ok, pure_eq_ok] at h
    obtain ⟨-, -, base', hb, value', hvalue, rfl⟩ := h
    have hbase file hfile := (Bool.and_eq_true_iff.1 (ht file hfile)).2
    exact ((base.traced_lower hn hb hk hbase).append
      (value.traced_lower hn hvalue (base.file_ends hbase) hv)).store ⟨rfl, loc, value, rfl⟩
  | element targetLoc base index =>
    simp only [lowerAssign, bind_eq_ok, pure_eq_ok] at h
    obtain ⟨-, -, base', hb, index', hi, value', hvalue, rfl⟩ := h
    have hboth file hfile := Bool.and_eq_true_iff.1 (ht file hfile)
    have hbase file hfile := (Bool.and_eq_true_iff.1 (hboth file hfile).1).2
    have hindex file hfile := (hboth file hfile).2
    exact (((base.traced_lower hn hb hk hbase).append
      (index.traced_lower hn hi (base.file_ends hbase) hindex)).append
        (value.traced_lower hn hvalue (index.file_ends hindex) hv)).store ⟨rfl, loc, value, rfl⟩
  | _ => exact nomatch h

/-- Declaring a variable stands for the declaration. -/
theorem isFor_of_lowerDeclared {ns : Names} {scope : Scope} {loc : Location} {s : String} {i : Code}
    (h : lowerDeclared ns scope loc s = .ok i) (value : Expr) :
    i.isPlain ∧ i.IsFor (.store loc value) := by
  unfold lowerDeclared at h
  split at h
  · obtain ⟨slot, -, rfl⟩ := Option.map_eq_some_iff.1 (orUnknown_eq_ok.1 h)
    exact ⟨rfl, loc, value, rfl⟩
  · cases h
    exact ⟨rfl, .inl ⟨loc, value, rfl⟩⟩

namespace Stmt

/-- A statement that is all in one file keeps its file. -/
theorem keepsFile_of_everywhere {s : Stmt} {file : String} (h : s.everywhere (·.file == file)) :
    s.keepsFile := by
  have hloc : s.location.file = file :=
    LawfulBEq.eq_of_beq (s.everywhere_location (p := (·.file == file)) h)
  unfold keepsFile
  rw [hloc, h, Bool.or_true]

/-- A block that keeps its file is all in one file. -/
theorem everywhere_of_keepsFile {s : Stmt} (hb : s.isBlock) (h : s.keepsFile) :
    s.everywhere (·.file == s.location.file) := by
  unfold keepsFile at h
  rw [hb] at h
  exact h

end Stmt

mutual

/-- The code of a statement stands where the statement stands. -/
theorem Stmt.traced_lower {ns : Names} (hn : ns.Numbered) {scope : Scope} {filed : Bool}
    {pin : Option String} {k : Marks} {st : Stmt} {code : List Code} (h : st.lower ns scope = .ok code)
    (hk : ∀ file, pin = some file → k.file = some file)
    (hs : ∀ file, pin = some file → st.everywhere (·.file == file))
    (hfiled : filed = true → st.keepsFile) :
    ∃ k', Traced ns.Calls filed pin k code st.origins k' := by
  have hof (file : String) (hfile : pin = some file) : (Marks.of st.location).file = some file :=
    congrArg some (LawfulBEq.eq_of_beq (st.everywhere_location (p := (·.file == file)) (hs file hfile)))
  have hplaced : Traced ns.Calls filed pin k (placed st.location) [] (.of st.location) :=
    .placed fun file hfile => (hk file hfile).trans (hof file hfile).symm
  cases st with
  | assign loc target value =>
    simp only [Stmt.lower, bind_eq_ok, pure_eq_ok] at h
    obtain ⟨code, ha, rfl⟩ := h
    have hboth file hfile := Bool.and_eq_true_iff.1 (hs file hfile)
    have htarget file hfile := (Bool.and_eq_true_iff.1 (hboth file hfile).1).2
    have hvalue file hfile := (hboth file hfile).2
    exact ⟨_, hplaced.append (traced_lowerAssign hn ha hof htarget hvalue)⟩
  | branch loc cond yes no =>
    simp only [Stmt.lower, bind_eq_ok, pure_eq_ok] at h
    obtain ⟨cond', hcond, yes', hyes, no', hno, rfl⟩ := h
    simp only [Stmt.everywhere, Bool.and_eq_true] at hs
    have hin (hf : filed = true) := Stmt.everywhere_of_keepsFile rfl (hfiled hf)
    simp only [Stmt.everywhere, Bool.and_eq_true, Stmt.location] at hin
    -- the bodies are entered where the condition ends, which is in their file
    have hends (hf : filed = true) : cond.ends.file = loc.file :=
      LawfulBEq.eq_of_beq (cond.everywhere_ends (p := (·.file == loc.file)) (hin hf).1.1.2)
    obtain ⟨k₁, hk₁⟩ := traced_body hn (Marks.of cond.ends).forgetLine hyes rfl
      fun hf => by rw [hends hf]; exact (hin hf).1.2
    obtain ⟨k₂, hk₂⟩ := traced_body hn k₁.forgetLine hno (hk₁.file_seen rfl)
      fun hf => by rw [hends hf]; exact (hin hf).2
    exact ⟨_, (hplaced.append (cond.traced_lower hn hcond hof fun file hfile =>
      (hs file hfile).1.1.2)).append (.branch hk₁ hk₂)⟩
  | loop loc body =>
    simp only [Stmt.lower, bind_eq_ok, pure_eq_ok] at h
    obtain ⟨body', hbody, rfl⟩ := h
    have hin (hf : filed = true) :=
      (Bool.and_eq_true_iff.1 (Stmt.everywhere_of_keepsFile rfl (hfiled hf))).2
    obtain ⟨k₁, hk₁⟩ := traced_body hn (Marks.of loc).forgetLine hbody rfl hin
    exact ⟨_, hplaced.append (.loop hk₁)⟩
  | tick loc body =>
    simp only [Stmt.lower, bind_eq_ok, pure_eq_ok] at h
    obtain ⟨body', hbody, rfl⟩ := h
    have hin (hf : filed = true) :=
      (Bool.and_eq_true_iff.1 (Stmt.everywhere_of_keepsFile rfl (hfiled hf))).2
    obtain ⟨k₁, hk₁⟩ := traced_body hn (Marks.of loc).forgetLine hbody rfl hin
    exact ⟨_, hplaced.append (.tick hk₁)⟩
  | whileLoop loc cond body =>
    simp only [Stmt.lower, bind_eq_ok, pure_eq_ok] at h
    obtain ⟨cond', hcond, body', hbody, rfl⟩ := h
    have hin (hf : filed = true) := Stmt.everywhere_of_keepsFile rfl (hfiled hf)
    simp only [Stmt.everywhere, Bool.and_eq_true, Stmt.location] at hin
    have hends : pinned filed cond.ends.file = pinned filed loc.file := by
      cases filed with
      | true =>
        exact congrArg some
          (LawfulBEq.eq_of_beq (cond.everywhere_ends (p := (·.file == loc.file)) (hin rfl).1.2))
      | false => rfl
    have htest : Traced ns.Calls filed (pinned filed loc.file) (Marks.of loc).forgetLine cond'
        cond.origins (.of cond.ends) := by
      refine cond.traced_lower hn hcond ?_ ?_
      · intro file hfile
        exact congrArg some (pinned_eq_some hfile).2
      · intro file hfile
        obtain ⟨hf, rfl⟩ := pinned_eq_some hfile
        exact (hin hf).1.2
    obtain ⟨k₁, hk₁⟩ := traced_body hn (Marks.of cond.ends).forgetLine hbody hends
      fun hf => (hin hf).2
    have hturn : Traced ns.Calls filed (pinned filed loc.file) (.of cond.ends) [.unary .not] [.work]
        (.of cond.ends) := .work ⟨rfl, .inr rfl⟩
    have hleave : Traced ns.Calls filed (pinned filed cond.ends.file) (Marks.of cond.ends).forgetLine
        [.breakLoop] [.work] (Marks.of cond.ends).forgetLine := .work ⟨rfl, rfl⟩
    exact ⟨_, hplaced.append (.loop ((htest.append (hturn.append (.branch hleave .nil))).append hk₁))⟩
  | continueLoop loc | breakLoop loc =>
    simp only [Stmt.lower] at h
    split at h
    · cases h
      exact ⟨_, hplaced.append (.work ⟨rfl, rfl⟩)⟩
    · cases h
  | giveBack loc value =>
    simp only [Stmt.lower] at h
    split at h
    · simp only [bind_eq_ok, pure_eq_ok] at h
      obtain ⟨value', hv, rfl⟩ := h
      have hvalue file hfile := (Bool.and_eq_true_iff.1 (hs file hfile)).2
      exact ⟨_, (hplaced.append (value.traced_lower hn hv hof hvalue)).append (.work ⟨rfl, rfl⟩)⟩
    · cases h
  | declare loc s value =>
    simp only [Stmt.lower, bind_eq_ok, pure_eq_ok] at h
    obtain ⟨value', hv, store, hstore, rfl⟩ := h
    have hvalue file hfile := (Bool.and_eq_true_iff.1 (hs file hfile)).2
    exact ⟨_, (hplaced.append (value.traced_lower hn hv hof hvalue)).store
      (isFor_of_lowerDeclared hstore value)⟩
  | function loc s params body => exact nomatch h
  | expr loc value =>
    simp only [Stmt.lower, bind_eq_ok, pure_eq_ok] at h
    obtain ⟨value', hv, rfl⟩ := h
    have hvalue file hfile := (Bool.and_eq_true_iff.1 (hs file hfile)).2
    exact ⟨_, (hplaced.append (value.traced_lower hn hv hof hvalue)).append (.work ⟨rfl, rfl⟩)⟩
/-- The code of a body stands where its statements stand, as long as they keep to a file. -/
theorem traced_body {ns : Names} (hn : ns.Numbered) {scope : Scope} {filed : Bool} {file : String}
    (k : Marks) {ss : List Stmt} {code : List Code} (h : lowerStmts ns scope ss = .ok code)
    (hk : (k.seen filed).file = pinned filed file)
    (hs : filed = true → everywhereInStmts (·.file == file) ss) :
    ∃ k', Traced ns.Calls filed (pinned filed file) k code (originsOfStmts ss) k' := by
  cases ss with
  | nil =>
    cases h
    exact ⟨k, .nil⟩
  | cons st ss =>
    simp only [lowerStmts, bind_eq_ok, pure_eq_ok] at h
    obtain ⟨first, hf, others, ho, rfl⟩ := h
    have hst (hf : filed = true) := (Bool.and_eq_true_iff.1 (hs hf)).1
    have hss (hf : filed = true) := (Bool.and_eq_true_iff.1 (hs hf)).2
    have hpin (file' : String) (hfile : pinned filed file = some file') :
        st.everywhere (·.file == file') := by
      obtain ⟨hf, rfl⟩ := pinned_eq_some hfile
      exact hst hf
    obtain ⟨k₁, hk₁⟩ := st.traced_lower hn hf
      (fun file' hfile => Marks.file_of_seen (hk.trans hfile)) hpin
      (fun hf => Stmt.keepsFile_of_everywhere (hst hf))
    obtain ⟨k₂, hk₂⟩ := traced_body hn k₁ ho (hk₁.file_seen hk) hss
    exact ⟨k₂, hk₁.append hk₂⟩

end

/-! ## Whole bodies -/

/-- The code of a body stands where its statements stand, as long as none of its blocks leaves its file if
files count. Between its statements the body may. -/
theorem traced_lowerStmts {ns : Names} (hn : ns.Numbered) {scope : Scope} {filed : Bool} (k : Marks)
    {ss : List Stmt} {code : List Code} (h : lowerStmts ns scope ss = .ok code)
    (hfiled : filed = true → ∀ s ∈ ss, s.keepsFile) :
    ∃ k', Traced ns.Calls filed none k code (originsOfStmts ss) k' := by
  induction ss generalizing scope code k with
  | nil =>
    cases h
    exact ⟨k, .nil⟩
  | cons st ss ih =>
    simp only [lowerStmts, bind_eq_ok, pure_eq_ok] at h
    obtain ⟨first, hf, others, ho, rfl⟩ := h
    obtain ⟨k₁, hk₁⟩ : ∃ k₁, Traced ns.Calls filed none k first st.origins k₁ :=
      st.traced_lower hn hf (fun _ hp => nomatch hp) (fun _ hp => nomatch hp)
        fun hf => hfiled hf st List.mem_cons_self
    obtain ⟨k₂, hk₂⟩ := ih k₁ ho fun hf s hs => hfiled hf s (List.mem_cons_of_mem st hs)
    exact ⟨k₂, hk₁.append hk₂⟩

theorem traced_replicate_pushLocal {calls : UInt32 → String → Prop} {filed : Bool}
    {pin : Option String} {k : Marks} (n : Nat) :
    Traced calls filed pin k (List.replicate n .pushLocal) (List.replicate n .work) k := by
  induction n with
  | zero => exact .nil
  | succ n ih =>
    have hfirst : Traced calls filed pin k [.pushLocal] [.work] k := .work ⟨rfl, .inr rfl⟩
    exact hfirst.append ih

/-- The origins of the instructions of a function. -/
def Declaration.origins (d : Declaration) : List Origin :=
  List.replicate d.params.length .work ++ originsOfStmts d.body

/-- A whole body with its redundant places dropped. -/
theorem Traced.thinBody {calls : UInt32 → String → Prop} {filed : Bool} {code : List Code}
    {os : List Origin} {k' : Marks} (h : Traced calls filed none .none code os k') :
    Located ⟨some, calls, filed⟩ none .none (TickScript.thinBody code) os (k'.seen filed) := by
  have hnone : Marks.seen filed .none = .none := by cases filed <;> rfl
  have hlocated := h.located
  rw [hnone] at hlocated
  exact hlocated

/-- The code of a function is located at its origins. -/
theorem Declaration.located_lower {ns : Names} (hn : ns.Numbered) {filed : Bool} {d : Declaration}
    {f : Function String (List String)} (h : d.lower ns = .ok f)
    (hfiled : filed = true → ∀ s ∈ d.body, s.keepsFile) :
    ∃ k', Located ⟨some, ns.Calls, filed⟩ none .none f.body d.origins k' := by
  simp only [Declaration.lower, bind_eq_ok, pure_eq_ok] at h
  obtain ⟨body, hb, rfl⟩ := h
  obtain ⟨k', hk'⟩ := traced_lowerStmts hn .none hb hfiled
  exact ⟨_, ((traced_replicate_pushLocal d.params.length).append hk').thinBody⟩

end TickScript
