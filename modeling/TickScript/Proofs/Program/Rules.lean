import TickScript.Proofs.Meaning.Scripts
import Mathlib.Data.Nat.ModEq

/-!
# The rules of the language

Lowering refuses a script that breaks a rule, and the rules can be read off the script without lowering
it. Each of them is about something that the script mentions at some place: a variable, a call, a `break`
or `continue`, a `return`, the declaration of a function, the target of an assignment. What a place is
inside of (`Context`) is all that a rule needs to know of it. A script is well formed when every mention
obeys its rule, and no two of its functions have the same name (`WellFormed`).

With all features, the scripts that lowering accepts are those that are well formed
(`accepted_iff_wellFormed`). Arguments and parameters are counted in words of four bytes. Where a list of
them is longer than that, the rule for calls is the one that can be counted.
-/

namespace TickScript

/-! ## Mentions -/

/-- What a place is inside of: the names that the blocks around it have declared before it, the parameters
of its function among them, whether there is a function around it, and whether there is a loop around it
in that function. -/
structure Context where
  visible : List String
  inFunction : Bool
  inLoop : Bool
deriving Repr, DecidableEq

namespace Context

/-- Nothing is around a statement of the script's top. -/
def top : Context := ⟨[], false, false⟩

/-- The body of a function. -/
def ofParams (params : List String) : Context := ⟨params, true, false⟩

/-- The body of a loop. -/
def loopBody (c : Context) : Context := { c with inLoop := true }

/-- What follows a statement in its block. -/
def after (c : Context) : Stmt → Context
  | .declare _ declared _ => { c with visible := declared :: c.visible }
  | _ => c

end Context

/-- What the rules of the language are about. -/
inductive Mention where
  /-- A variable that is read or assigned. -/
  | variable (s : String)
  | call (callee : String) (given : Nat)
  /-- A `break` or a `continue`. -/
  | loopControl
  | giveBack
  /-- A function that is declared elsewhere than at the script's top. -/
  | function
  /-- What is assigned to. -/
  | target (e : Expr)

mutual

/-- What an expression mentions, in order. -/
def Expr.mentions : Expr → List Mention
  | .name _ s => [.variable s]
  | .null _ | .int _ _ | .float _ _ | .text _ _ => []
  | .tuple _ items | .array _ items => mentionsOf items
  | .object _ members => mentionsOfMembers members
  | .call _ callee args => .call callee args.length :: mentionsOf args
  | .tupleMember _ base _ | .objectMember _ base _ => base.mentions
  | .element _ base index => base.mentions ++ index.mentions
  | .unary _ _ operand => operand.mentions
  | .binary _ _ left right => left.mentions ++ right.mentions

/-- What several expressions mention. -/
def mentionsOf : List Expr → List Mention
  | [] => []
  | e :: es => e.mentions ++ mentionsOf es

/-- What the values of an object's members mention. -/
def mentionsOfMembers : List (String × Expr) → List Mention
  | [] => []
  | (_, e) :: ms => e.mentions ++ mentionsOfMembers ms

end

mutual

/-- What a statement mentions, with the place of each mention. -/
def Stmt.mentions (c : Context) : Stmt → List (Context × Mention)
  | .assign _ target value =>
    (c, .target target) :: (target.mentions ++ value.mentions).map (c, ·)
  | .branch _ cond yes no =>
    cond.mentions.map (c, ·) ++ (mentionsOfBlock c yes ++ mentionsOfBlock c no)
  | .loop _ body | .tick _ body => mentionsOfBlock c.loopBody body
  -- The condition is a part of every round.
  | .whileLoop _ cond body =>
    cond.mentions.map (c.loopBody, ·) ++ mentionsOfBlock c.loopBody body
  | .continueLoop _ | .breakLoop _ => [(c, .loopControl)]
  | .giveBack _ value => (c, .giveBack) :: value.mentions.map (c, ·)
  | .declare _ _ value | .expr _ value => value.mentions.map (c, ·)
  | .function _ _ _ _ => [(c, .function)]

/-- What the statements of a block mention. -/
def mentionsOfBlock (c : Context) : List Stmt → List (Context × Mention)
  | [] => []
  | s :: ss => s.mentions c ++ mentionsOfBlock (c.after s) ss

end

/-- What a statement of a script's top mentions. A function is declared where it may be, so only its body
counts. -/
def Stmt.topMentions : Stmt → List (Context × Mention)
  | .function _ _ params body => mentionsOfBlock (.ofParams params) body
  | s => s.mentions .top

/-- What a script mentions. -/
def mentionsOfScript (script : List Stmt) : List (Context × Mention) :=
  script.flatMap Stmt.topMentions

/-! ## Rules -/

/-- Whether an expression can be assigned to. -/
def Expr.isAssignable : Expr → Bool
  | .name _ _ | .objectMember _ _ _ | .element _ _ _ => true
  | _ => false

/-- How many arguments a called name takes. A function of the script hides one of the host. -/
def arity? (builtins : List (Signature String)) (script : List Stmt) (s : String) : Option Nat :=
  match (script.filterMap Stmt.declaration?).find? fun d => d.name == s with
  | some d => some d.params.length
  | none => (builtins.find? fun b => b.name == s).map fun b => b.arity.toNat

/-- The rule for a mention at a place. `alike` tells whether so many arguments are as many as a function
takes. -/
def Mention.Obeys (alike : Nat → Nat → Prop) (builtins : List (Signature String)) (script : List Stmt)
    (c : Context) : Mention → Prop
  | .variable s => s ∈ c.visible ∨ script.any (Stmt.declares s)
  | .call callee given => ∃ arity ∈ arity? builtins script callee, alike given arity
  | .loopControl => c.inLoop
  | .giveBack => c.inFunction
  | .function => False
  | .target e => e.isAssignable

instance (alike : Nat → Nat → Prop) [DecidableRel alike] (builtins : List (Signature String))
    (script : List Stmt) (c : Context) : DecidablePred (Mention.Obeys alike builtins script c)
  | .variable s => inferInstanceAs (Decidable (s ∈ c.visible ∨ script.any (Stmt.declares s)))
  | .call callee given =>
    inferInstanceAs (Decidable (∃ arity ∈ arity? builtins script callee, alike given arity))
  | .loopControl => inferInstanceAs (Decidable (c.inLoop = true))
  | .giveBack => inferInstanceAs (Decidable (c.inFunction = true))
  | .function => inferInstanceAs (Decidable False)
  | .target e => inferInstanceAs (Decidable (e.isAssignable = true))

/-- A script that obeys the rules. -/
structure WellFormed (alike : Nat → Nat → Prop) (builtins : List (Signature String))
    (script : List Stmt) : Prop where
  distinct : ((script.filterMap Stmt.declaration?).map Declaration.name).Nodup
  obeyed : ∀ p ∈ mentionsOfScript script, p.2.Obeys alike builtins script p.1

instance (alike : Nat → Nat → Prop) [DecidableRel alike] (builtins : List (Signature String))
    (script : List Stmt) : Decidable (WellFormed alike builtins script) :=
  decidable_of_iff
    (((script.filterMap Stmt.declaration?).map Declaration.name).Nodup ∧
      ∀ p ∈ mentionsOfScript script, p.2.Obeys alike builtins script p.1)
    ⟨fun h => ⟨h.1, h.2⟩, fun h => ⟨h.distinct, h.obeyed⟩⟩

/-- How many arguments a call gives. -/
def Mention.given : Mention → Nat
  | .call _ n => n
  | _ => 0

/-- No list of arguments or parameters is longer than a word can count. -/
structure Countable (script : List Stmt) : Prop where
  given : ∀ p ∈ mentionsOfScript script, p.2.given < UInt32.size
  params : ∀ d ∈ script.filterMap Stmt.declaration?, d.params.length < UInt32.size

/-! ## What is accepted -/

/-- The script is not refused. -/
def Accepted {α : Type} (x : Except Diagnostic α) : Prop := ∃ a, x = .ok a

section Accepted

variable {α β : Type}

theorem accepted_pure (a : α) : Accepted (pure a) := ⟨a, rfl⟩

theorem not_accepted_error (e : Diagnostic) : ¬ Accepted (.error e : Except Diagnostic α) :=
  fun ⟨_, h⟩ => nomatch h

/-- Two steps in a row are accepted when the first gives something that the second accepts. -/
theorem accepted_bind {x : Except Diagnostic α} {f : α → Except Diagnostic β} :
    Accepted (x >>= f) ↔ ∃ a, x = .ok a ∧ Accepted (f a) := by
  constructor
  · rintro ⟨b, h⟩
    obtain ⟨a, ha, hb⟩ := bind_eq_ok.1 h
    exact ⟨a, ha, b, hb⟩
  · rintro ⟨a, ha, b, hb⟩
    exact ⟨b, bind_eq_ok.2 ⟨a, ha, hb⟩⟩

/-- Two steps of which the second is accepted or not whatever the first one makes. -/
theorem accepted_then {x : Except Diagnostic α} {f : α → Except Diagnostic β} {q : Prop}
    (h : ∀ a, Accepted (f a) ↔ q) : Accepted (x >>= f) ↔ Accepted x ∧ q := by
  rw [accepted_bind]
  constructor
  · rintro ⟨a, ha, hf⟩
    exact ⟨⟨a, ha⟩, (h a).1 hf⟩
  · rintro ⟨⟨a, ha⟩, hq⟩
    exact ⟨a, ha, (h a).2 hq⟩

/-- The last step, after which the code is only put together. -/
theorem accepted_last (x : Except Diagnostic α) (f : α → β) :
    Accepted (do let a ← x; return f a) ↔ Accepted x :=
  (accepted_then fun a => iff_true_intro (accepted_pure (f a))).trans (and_iff_left trivial)

/-- A check is accepted when it holds and what follows is accepted. -/
theorem accepted_ite {p : Prop} [Decidable p] {x : Except Diagnostic α} {e : Diagnostic} :
    Accepted (if p then x else .error e) ↔ p ∧ Accepted x := by
  split
  · next hp => exact (and_iff_right hp).symm
  · next hp => exact iff_of_false (not_accepted_error e) fun h => hp h.1

/-- A step for every item is accepted when it is accepted for each. -/
theorem accepted_mapM (f : α → Except Diagnostic β) (xs : List α) :
    Accepted (xs.mapM f) ↔ ∀ a ∈ xs, Accepted (f a) := by
  induction xs with
  | nil => exact iff_of_true (accepted_pure []) (List.forall_mem_nil _)
  | cons a xs ih =>
    rw [List.mapM_cons, accepted_then fun _ => accepted_last _ _, ih, List.forall_mem_cons]

end Accepted

/-- What the names of a script with all features stand for. -/
structure Names.Tell (ns : Names) (builtins : List (Signature String)) (script : List Stmt) : Prop where
  features : ns.features = .full
  builtins : ns.builtins = builtins
  functions : ns.functions = script.filterMap Stmt.declaration?
  globals : ∀ s, s ∈ ns.globals ↔ script.any (Stmt.declares s)

/-- What the rules need to know of a scope. -/
def Scope.context (scope : Scope) : Context := ⟨scope.locals, scope.inFunction, scope.inLoop⟩

/-- The rules that lowering checks: it compares numbers of arguments as words. -/
abbrev Mention.Passes (builtins : List (Signature String)) (script : List Stmt) (c : Context)
    (x : Mention) : Prop :=
  x.Obeys (· ≡ · [MOD UInt32.size]) builtins script c

namespace Scope

variable {scope : Scope}

theorem atTop_after (h : scope.atTop = false) (s : Stmt) : (scope.after s).atTop = false := by
  cases s with
  | declare loc declared value =>
    rw [after, h]
    rfl
  | _ => exact h

/-- What a statement declares comes into the context as it comes into the scope. -/
theorem context_after (h : scope.atTop = false) (s : Stmt) :
    (scope.after s).context = scope.context.after s := by
  cases s with
  | declare loc declared value =>
    rw [after, h]
    rfl
  | _ => rfl

end Scope

section Lowering

variable {ns : Names} {builtins : List (Signature String)} {script : List Stmt}

/-! ### Names -/

theorem Names.isSome_slot? (table : List String) (s : String) : (slot? table s).isSome ↔ s ∈ table := by
  rw [slot?, Option.isSome_map, List.findIdx?_isSome, List.any_eq_true]
  constructor
  · rintro ⟨t, ht, he⟩
    rwa [← LawfulBEq.eq_of_beq he]
  · intro h
    exact ⟨s, h, beq_self_eq_true s⟩

theorem accepted_orUnknown {loc : Location} {found : Option Code} :
    Accepted (orUnknown loc found) ↔ found.isSome := by
  cases found with
  | none => exact iff_of_false (not_accepted_error _) Bool.false_ne_true
  | some i => exact iff_of_true (accepted_pure i) rfl

/-- A variable can be read when it is a local or a global. -/
theorem Names.isSome_load? (ns : Names) (scope : Scope) (s : String) :
    (ns.load? scope s).isSome ↔ s ∈ scope.locals ∨ s ∈ ns.globals := by
  rw [← isSome_slot?, ← isSome_slot?, load?]
  cases slot? scope.locals s <;> cases slot? ns.globals s <;> simp

theorem Names.isSome_store? (ns : Names) (scope : Scope) (s : String) :
    (ns.store? scope s).isSome ↔ s ∈ scope.locals ∨ s ∈ ns.globals := by
  rw [← isSome_slot?, ← isSome_slot?, store?]
  cases slot? scope.locals s <;> cases slot? ns.globals s <;> simp

/-- With all features on none is missing. -/
theorem Names.Tell.accepted_require (h : ns.Tell builtins script) (f : Feature) (loc : Location) :
    Accepted (ns.require f loc) := by
  rw [Names.require, h.features, if_pos (by cases f <;> rfl)]
  exact accepted_pure ()

/-- Words are equal when the numbers are up to multiples of what a word can count. -/
theorem ofNat_eq_ofNat_iff_modEq (a b : Nat) :
    UInt32.ofNat a = UInt32.ofNat b ↔ a ≡ b [MOD UInt32.size] := by
  rw [← UInt32.toNat_inj, UInt32.toNat_ofNat', UInt32.toNat_ofNat']
  exact Iff.rfl

/-- The entry that is found is the first one. -/
theorem Names.map_fst_entryWhere? {α : Type} (p : α → Bool) (table : List α) :
    (entryWhere? p table).map Prod.fst = table.find? p := by
  rw [find?_eq_map_find?_zipIdx, entryWhere?, Option.map_map]
  rfl

/-- The number of arguments that a call is checked against. -/
theorem Names.Tell.map_snd_callee? (h : ns.Tell builtins script) (s : String) :
    (ns.callee? s).map Prod.snd = (arity? builtins script s).map UInt32.ofNat := by
  rw [arity?, ← h.functions, ← h.builtins, ← map_fst_entryWhere?, ← map_fst_entryWhere?, callee?]
  cases entryWhere? (fun d => d.name == s) ns.functions with
  | some d => rfl
  | none =>
    cases entryWhere? (fun b => b.name == s) ns.builtins with
    | none => rfl
    | some b => exact congrArg some UInt32.ofNat_toNat.symm

/-- A call is accepted when its name stands for something of that arity. -/
theorem Names.accepted_resolveCall (ns : Names) (loc : Location) (s : String) (given : Nat) :
    Accepted (ns.resolveCall loc s given) ↔
      UInt32.ofNat given ∈ (ns.callee? s).map Prod.snd := by
  rw [resolveCall]
  cases ns.callee? s with
  | none => exact iff_of_false (not_accepted_error _) (fun h => nomatch h)
  | some callee =>
    obtain ⟨instr, arity⟩ := callee
    rw [Option.map_some, Option.mem_some_iff]
    constructor
    · rintro ⟨i, hi⟩
      dsimp only at hi
      split at hi
      · cases hi
      · next hfew =>
        split at hi
        · cases hi
        · next hmany => exact UInt32.le_antisymm (UInt32.not_lt.1 hfew) (UInt32.not_lt.1 hmany)
    · rintro rfl
      refine ⟨instr, ?_⟩
      dsimp only
      rw [if_neg (UInt32.lt_irrefl _), if_neg (UInt32.lt_irrefl _)]

/-- A call is accepted when it passes the rule for calls. -/
theorem Names.Tell.accepted_resolveCall (h : ns.Tell builtins script) (loc : Location) (s : String)
    (given : Nat) (c : Context) :
    Accepted (ns.resolveCall loc s given) ↔ (Mention.call s given).Passes builtins script c := by
  rw [Names.accepted_resolveCall, h.map_snd_callee?]
  cases hs : arity? builtins script s with
  | none => simp [Mention.Passes, Mention.Obeys, hs]
  | some arity =>
    rw [Option.map_some, Option.mem_some_iff, ofNat_eq_ofNat_iff_modEq]
    simp [Mention.Passes, Mention.Obeys, hs, Nat.ModEq.comm]

/-- A variable is known when it passes the rule for variables. -/
theorem Names.Tell.mem_locals_or_globals (h : ns.Tell builtins script) (scope : Scope) (s : String) :
    s ∈ scope.locals ∨ s ∈ ns.globals ↔ (Mention.variable s).Passes builtins script scope.context := by
  rw [h.globals]
  exact Iff.rfl

/-! ### Expressions -/

mutual

/-- An expression is accepted when all that it mentions passes. -/
theorem Expr.accepted_lower (h : ns.Tell builtins script) (scope : Scope) (e : Expr) :
    Accepted (e.lower ns scope) ↔ ∀ x ∈ e.mentions, x.Passes builtins script scope.context := by
  cases e with
  | null loc | int loc n | text loc s =>
    rw [Expr.mentions]
    exact iff_of_true (accepted_pure _) (List.forall_mem_nil _)
  | float loc x =>
    rw [Expr.lower, Expr.mentions, accepted_last]
    exact iff_of_true (h.accepted_require _ _) (List.forall_mem_nil _)
  | name loc s =>
    rw [Expr.lower, Expr.mentions, accepted_last, accepted_orUnknown, Names.isSome_load?,
      h.mem_locals_or_globals, List.forall_mem_singleton]
  | tuple loc items =>
    rw [Expr.lower, Expr.mentions, accepted_last, accepted_lowerExprs h]
  | object loc members =>
    rw [Expr.lower, Expr.mentions, accepted_then fun _ => accepted_last _ _,
      and_iff_right (h.accepted_require _ _), accepted_lowerMembers h]
  | array loc items =>
    rw [Expr.lower, Expr.mentions, accepted_then fun _ => accepted_last _ _,
      and_iff_right (h.accepted_require _ _), accepted_lowerExprs h]
  | call loc callee args =>
    rw [Expr.lower, Expr.mentions, accepted_then fun _ => accepted_last _ _,
      h.accepted_resolveCall loc callee _ scope.context, accepted_lowerExprs h, List.forall_mem_cons]
  | tupleMember loc base index =>
    rw [Expr.lower, Expr.mentions, accepted_last, base.accepted_lower h]
  | objectMember loc base member =>
    rw [Expr.lower, Expr.mentions, accepted_then fun _ => accepted_last _ _,
      and_iff_right (h.accepted_require _ _), base.accepted_lower h]
  | element loc base index =>
    rw [Expr.lower, Expr.mentions,
      accepted_then fun _ => accepted_then fun _ => accepted_last _ _,
      and_iff_right (h.accepted_require _ _), base.accepted_lower h, index.accepted_lower h,
      List.forall_mem_append]
  | unary loc op operand =>
    rw [Expr.lower, Expr.mentions, accepted_last, operand.accepted_lower h]
  | binary loc op left right =>
    rw [Expr.lower, Expr.mentions, accepted_then fun _ => accepted_last _ _,
      left.accepted_lower h, right.accepted_lower h, List.forall_mem_append]

theorem accepted_lowerExprs (h : ns.Tell builtins script) (scope : Scope) (es : List Expr) :
    Accepted (lowerExprs ns scope es) ↔
      ∀ x ∈ mentionsOf es, x.Passes builtins script scope.context := by
  cases es with
  | nil =>
    rw [mentionsOf]
    exact iff_of_true (accepted_pure _) (List.forall_mem_nil _)
  | cons e es =>
    rw [lowerExprs, mentionsOf, accepted_then fun _ => accepted_last _ _, e.accepted_lower h,
      accepted_lowerExprs h scope es, List.forall_mem_append]

theorem accepted_lowerMembers (h : ns.Tell builtins script) (scope : Scope)
    (ms : List (String × Expr)) :
    Accepted (lowerMembers ns scope ms) ↔
      ∀ x ∈ mentionsOfMembers ms, x.Passes builtins script scope.context := by
  cases ms with
  | nil =>
    rw [mentionsOfMembers]
    exact iff_of_true (accepted_pure _) (List.forall_mem_nil _)
  | cons m ms =>
    obtain ⟨s, e⟩ := m
    rw [lowerMembers, mentionsOfMembers, accepted_then fun _ => accepted_last _ _, e.accepted_lower h,
      accepted_lowerMembers h scope ms, List.forall_mem_append]

end

/-- An assignment is accepted when its target and all that its sides mention pass. -/
theorem accepted_lowerAssign (h : ns.Tell builtins script) (scope : Scope) (loc : Location)
    (target value : Expr) :
    Accepted (lowerAssign ns scope loc target value) ↔
      (Mention.target target).Passes builtins script scope.context ∧
        ∀ x ∈ target.mentions ++ value.mentions, x.Passes builtins script scope.context := by
  unfold lowerAssign
  split
  · next targetLoc s =>
    rw [accepted_then fun _ => accepted_last _ _, value.accepted_lower h, accepted_orUnknown,
      Names.isSome_store?, h.mem_locals_or_globals, Expr.mentions, List.forall_mem_append,
      List.forall_mem_singleton, and_comm]
    exact (and_iff_right rfl).symm
  · next targetLoc base member =>
    rw [accepted_then fun _ => accepted_then fun _ => accepted_last _ _,
      and_iff_right (h.accepted_require _ _), base.accepted_lower h, value.accepted_lower h,
      Expr.mentions, List.forall_mem_append]
    exact (and_iff_right rfl).symm
  · next targetLoc base index =>
    rw [accepted_then fun _ => accepted_then fun _ => accepted_then fun _ => accepted_last _ _,
      and_iff_right (h.accepted_require _ _), base.accepted_lower h, index.accepted_lower h,
      value.accepted_lower h, Expr.mentions, List.forall_mem_append, List.forall_mem_append, and_assoc]
    exact (and_iff_right rfl).symm
  · next hname hmember helement =>
    refine iff_of_false (not_accepted_error _) fun hw => ?_
    have hw := hw.1
    cases target with
    | name l s => exact hname l s rfl
    | objectMember l base member => exact hmember l base member rfl
    | element l base index => exact helement l base index rfl
    | _ => exact Bool.false_ne_true hw

/-! ### Statements -/

mutual

/-- A statement of the script's top declares a variable that is in the table. -/
theorem Stmt.accepted_lower (h : ns.Tell builtins script) (scope : Scope) (s : Stmt)
    (hs : scope.atTop → ∀ t, s.declares t → t ∈ ns.globals) :
    Accepted (s.lower ns scope) ↔
      ∀ p ∈ s.mentions scope.context, p.2.Passes builtins script p.1 := by
  cases s with
  | assign loc target value =>
    rw [Stmt.lower, Stmt.mentions, accepted_last, accepted_lowerAssign h, List.forall_mem_cons,
      List.forall_mem_map]
  | branch loc cond yes no =>
    rw [Stmt.lower, Stmt.mentions, accepted_then fun _ => accepted_then fun _ => accepted_last _ _,
      cond.accepted_lower h, accepted_lowerStmts h _ yes rfl, accepted_lowerStmts h _ no rfl,
      List.forall_mem_append, List.forall_mem_append, List.forall_mem_map]
    rfl
  | loop loc body | tick loc body =>
    rw [Stmt.lower, Stmt.mentions, accepted_last, accepted_lowerStmts h _ body rfl]
    rfl
  | whileLoop loc cond body =>
    rw [Stmt.lower, Stmt.mentions, accepted_then fun _ => accepted_last _ _, cond.accepted_lower h,
      accepted_lowerStmts h _ body rfl, List.forall_mem_append, List.forall_mem_map]
    rfl
  | continueLoop loc | breakLoop loc =>
    rw [Stmt.lower, Stmt.mentions, accepted_ite, and_iff_left (accepted_pure _),
      List.forall_mem_singleton]
    rfl
  | giveBack loc value =>
    rw [Stmt.lower, Stmt.mentions, accepted_ite, accepted_last, value.accepted_lower h,
      List.forall_mem_cons, List.forall_mem_map]
    rfl
  | declare loc declared value =>
    have hd : Accepted (lowerDeclared ns scope loc declared) := by
      unfold lowerDeclared
      split
      · next ht =>
        rw [accepted_orUnknown, Option.isSome_map, Names.isSome_slot?]
        exact hs ht declared (beq_self_eq_true declared)
      · exact accepted_pure _
    rw [Stmt.lower, Stmt.mentions, accepted_then fun _ => accepted_last _ _, and_iff_left hd,
      value.accepted_lower h, List.forall_mem_map]
  | function loc declared params body =>
    rw [Stmt.lower, Stmt.mentions, List.forall_mem_singleton]
    exact iff_of_false (not_accepted_error _) id
  | expr loc value =>
    rw [Stmt.lower, Stmt.mentions, accepted_last, value.accepted_lower h, List.forall_mem_map]

/-- Statements of a block are accepted when all mentions pass, each in the context it is in. -/
theorem accepted_lowerStmts (h : ns.Tell builtins script) (scope : Scope) (ss : List Stmt)
    (hs : scope.atTop = false) :
    Accepted (lowerStmts ns scope ss) ↔
      ∀ p ∈ mentionsOfBlock scope.context ss, p.2.Passes builtins script p.1 := by
  cases ss with
  | nil =>
    rw [mentionsOfBlock]
    exact iff_of_true (accepted_pure _) (List.forall_mem_nil _)
  | cons s ss =>
    rw [lowerStmts, mentionsOfBlock, accepted_then fun _ => accepted_last _ _,
      s.accepted_lower h scope fun ht => absurd (hs.symm.trans ht) Bool.false_ne_true,
      accepted_lowerStmts h (scope.after s) ss (Scope.atTop_after hs s), Scope.context_after hs,
      List.forall_mem_append]

end

/-! ### Scripts -/

/-- At the script's top every statement is accepted or not by itself. -/
theorem accepted_lowerStmts_top (h : ns.Tell builtins script) (ss : List Stmt)
    (hss : ∀ s ∈ ss, ∀ t, s.declares t → t ∈ ns.globals) :
    Accepted (lowerStmts ns .top ss) ↔
      ∀ s ∈ ss, ∀ p ∈ s.mentions .top, p.2.Passes builtins script p.1 := by
  induction ss with
  | nil => exact iff_of_true (accepted_pure _) (List.forall_mem_nil _)
  | cons s ss ih =>
    have htop : Scope.top.after s = .top := by cases s <;> rfl
    obtain ⟨hs, hss⟩ := List.forall_mem_cons.1 hss
    rw [lowerStmts, accepted_then fun _ => accepted_last _ _, htop, ih hss,
      s.accepted_lower h .top fun _ => hs, List.forall_mem_cons]
    rfl

/-- A function is accepted when its body is, in the context of its parameters. -/
theorem Declaration.accepted_lower (h : ns.Tell builtins script) (d : Declaration) :
    Accepted (d.lower ns) ↔
      ∀ p ∈ mentionsOfBlock (.ofParams d.params) d.body, p.2.Passes builtins script p.1 := by
  rw [Declaration.lower, accepted_last, accepted_lowerStmts h _ d.body rfl]
  rfl

/-- Declarations are collected as long as no function is declared twice. -/
theorem Declared.accepted_collect (d : Declared) (script : List Stmt)
    (hd : (d.functions.map Declaration.name).Nodup) :
    Accepted (Declared.collect .full d script) ↔
      ((d.functions ++ script.filterMap Stmt.declaration?).map Declaration.name).Nodup := by
  induction script generalizing d with
  | nil =>
    rw [List.filterMap_nil, List.append_nil]
    exact iff_of_true (accepted_pure d) hd
  | cons stmt script ih =>
    cases stmt with
    | function loc s params body =>
      rw [Declared.collect, if_neg (by decide)]
      have hmem : d.functions.any (fun f => f.name == s) ↔ s ∈ d.functions.map Declaration.name := by
        simp
      split
      · next hs =>
        refine iff_of_false (not_accepted_error _) fun hw => ?_
        rw [List.map_append] at hw
        exact (List.disjoint_of_nodup_append hw) (hmem.1 hs) List.mem_cons_self
      · next hs =>
        rw [ih _ (by
          rw [List.map_append]
          exact List.Nodup.append hd (List.nodup_singleton s)
            (List.disjoint_singleton.2 fun hw => hs (hmem.2 hw)))]
        rw [List.append_assoc]
        rfl
    | declare loc s value =>
      rw [Declared.collect]
      split
      · exact ih d hd
      · exact ih _ hd
    | _ => exact ih d hd

/-- What a script mentions, its functions apart from the rest of its top. -/
theorem forall_mem_mentionsOfScript {q : Context × Mention → Prop} :
    (∀ p ∈ mentionsOfScript script, q p) ↔
      (∀ d ∈ script.filterMap Stmt.declaration?,
          ∀ p ∈ mentionsOfBlock (.ofParams d.params) d.body, q p) ∧
        ∀ s ∈ script.filter (! ·.isFunction), ∀ p ∈ s.mentions .top, q p := by
  induction script with
  | nil => simp [mentionsOfScript]
  | cons stmt script ih =>
    rw [mentionsOfScript, List.flatMap_cons, List.forall_mem_append, ← mentionsOfScript, ih]
    cases stmt with
    | function loc s params body =>
      rw [List.filterMap_cons_some (f := Stmt.declaration?) (b := ⟨loc, s, params, body⟩) rfl,
        List.forall_mem_cons, List.filter_cons_of_neg Bool.false_ne_true, and_assoc]
      rfl
    | _ =>
      rw [List.filterMap_cons_none (f := Stmt.declaration?) rfl, List.filter_cons_of_pos (by rfl),
        List.forall_mem_cons, and_left_comm]
      rfl

end Lowering

section Scripts

variable {builtins : List (Signature String)} {script : List Stmt}

/-- A script is accepted exactly when it is well formed. -/
theorem accepted_lowerScript :
    Accepted (lowerScript .full builtins script) ↔
      WellFormed (· ≡ · [MOD UInt32.size]) builtins script := by
  have hcollect := Declared.accepted_collect ⟨[], []⟩ script List.nodup_nil
  rw [List.nil_append] at hcollect
  rw [lowerScript, accepted_bind]
  -- What is left to check once the declarations are collected.
  have hrest {d : Declared} (hd : Declared.collect .full ⟨[], []⟩ script = .ok d) :
      Accepted (do
        let ns : Names := ⟨.full, builtins, d.functions, d.globals⟩
        let functions ← d.functions.mapM (Declaration.lower ns)
        let body ← lowerStmts ns .top (script.filter (! ·.isFunction))
        return ({ builtins, globals := d.globals, functions, body := thinBody body } :
          Program String (List String))) ↔
        ∀ p ∈ mentionsOfScript script, p.2.Passes builtins script p.1 := by
    obtain ⟨hfunctions, hglobals⟩ := Declared.collect_eq_ok hd
    have hns : Names.Tell ⟨.full, builtins, d.functions, d.globals⟩ builtins script :=
      ⟨rfl, rfl, hfunctions, fun s => (hglobals s).trans (or_iff_right List.not_mem_nil)⟩
    dsimp only
    rw [accepted_then fun _ => accepted_last _ _, accepted_mapM, accepted_lowerStmts_top hns,
      forall_mem_mentionsOfScript, ← hns.functions]
    · exact and_congr_left' (forall₂_congr fun f _ => Declaration.accepted_lower hns f)
    · intro s hs t ht
      exact (hns.globals t).2 (List.any_eq_true.2 ⟨s, List.mem_of_mem_filter hs, ht⟩)
  constructor
  · rintro ⟨d, hd, hp⟩
    exact ⟨hcollect.1 ⟨d, hd⟩, (hrest hd).1 hp⟩
  · intro h
    obtain ⟨d, hd⟩ := hcollect.2 h.distinct
    exact ⟨d, hd, (hrest hd).2 h.obeyed⟩

/-- The arity of a countable function is a word. -/
theorem arity?_lt (h : Countable script) {s : String} {arity : Nat}
    (hs : arity ∈ arity? builtins script s) : arity < UInt32.size := by
  unfold arity? at hs
  split at hs
  · next d hd =>
    cases hs
    exact h.params d (List.mem_of_find?_eq_some hd)
  · obtain ⟨b, -, rfl⟩ := Option.map_eq_some_iff.1 hs
    exact b.arity.toNat_lt

/-- Words tell two numbers apart that both fit. -/
theorem Countable.wellFormed_iff (h : Countable script) :
    WellFormed (· ≡ · [MOD UInt32.size]) builtins script ↔ WellFormed (· = ·) builtins script := by
  have hobeys : ∀ p ∈ mentionsOfScript script,
      (p.2.Passes builtins script p.1 ↔ p.2.Obeys (· = ·) builtins script p.1) := by
    rintro ⟨c, x⟩ hp
    cases x with
    | call callee given =>
      have hg : given < UInt32.size := h.given _ hp
      refine exists_congr fun arity => and_congr_right fun ha => ?_
      constructor
      · exact fun he => he.eq_of_lt_of_lt hg (arity?_lt h ha)
      · exact fun he => congrArg (· % UInt32.size) he
    | _ => exact Iff.rfl
  constructor
  · intro hw
    exact ⟨hw.distinct, fun p hp => (hobeys p hp).1 (hw.obeyed p hp)⟩
  · intro hw
    exact ⟨hw.distinct, fun p hp => (hobeys p hp).2 (hw.obeyed p hp)⟩

/-- Lowering accepts a script exactly if it is well formed. Where its lists of arguments and parameters
can be counted, a call gives exactly as many arguments as its callee takes; in longer ones the numbers
are as words the same. -/
theorem accepted_iff_wellFormed (builtins : List (Signature String)) (script : List Stmt) :
    ((∃ p, lowerScript .full builtins script = .ok p) ↔
        WellFormed (· ≡ · [MOD UInt32.size]) builtins script) ∧
      (Countable script →
        ((∃ p, lowerScript .full builtins script = .ok p) ↔ WellFormed (· = ·) builtins script)) :=
  ⟨accepted_lowerScript, fun h => accepted_lowerScript.trans h.wellFormed_iff⟩

/-- A function that calls itself with a global of its script, and a loop that is left in a branch. -/
theorem accepted_countdown :
    let l : Location := ⟨1, "main"⟩
    let script : List Stmt :=
      [.function l "f" ["n"] [.declare l "m" (.call l "f" [.name l "x"]), .giveBack l (.name l "m")],
        .whileLoop l (.name l "x") [.branch l (.name l "x") [.breakLoop l] []],
        .declare l "x" (.call l "f" [.int l 1])]
    Countable script ∧ WellFormed (· = ·) [] script ∧ ∃ p, lowerScript .full [] script = .ok p := by
  intro l script
  have hc : Countable script := ⟨by decide +kernel, by decide +kernel⟩
  have hw : WellFormed (· = ·) [] script := by decide +kernel
  exact ⟨hc, hw, ((accepted_iff_wellFormed [] script).2 hc).2 hw⟩

end Scripts

end TickScript
