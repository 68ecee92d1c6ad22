import TickScript.Program.Script
import TickScript.Proofs.Program.Bare
import TickScript.Proofs.Program.Resolution
import TickScript.Proofs.Meaning.Scripts

/-!
# What a processor without some features accepts

Lowering refuses a construct whose feature is not supported where it meets the construct. What it makes
of a script with all features tells what it makes of it with fewer (`lowerScript_gated`): the same
program, as long as no instruction of it, in whatever body it stands, belongs to a feature that is
missing. Otherwise it refuses the script for that feature.

Two runs of lowering on the same script, one with some features and one with all, are compared step by
step (`Gated`). What the steps up to some point have made may only mention supported features for the
first run to get there; the comparison carries this along as a condition.
-/

namespace TickScript

/-! ## The features of a program -/

section Features

variable {ν σ : Type}

mutual

/-- The features that an instruction belongs to, and those inside it. -/
def Instr.features : Instr ν σ → List Feature
  | .pushFloat _ => [.floats]
  | .makeObject _ | .objectMember _ | .storeMember _ => [.objects]
  | .makeArray _ | .element | .storeElement => [.arrays]
  | .branch yes no => featuresOf yes ++ featuresOf no
  | .loop body | .tick body => featuresOf body
  | _ => []

/-- The features of several instructions. -/
def featuresOf : List (Instr ν σ) → List Feature
  | [] => []
  | i :: is => i.features ++ featuresOf is

end

/-- The features of a program. Its functions are one of them. -/
def Program.features (p : Program ν σ) : List Feature :=
  (if p.functions.isEmpty then [] else [.functions]) ++
    p.functions.flatMap (fun f => featuresOf f.body) ++ featuresOf p.body

/-- The features of code are those of its parts. -/
@[simp] theorem featuresOf_append (is js : List (Instr ν σ)) :
    featuresOf (is ++ js) = featuresOf is ++ featuresOf js := by
  induction is with
  | nil => rw [List.nil_append, featuresOf, List.nil_append]
  | cons i is ih => rw [List.cons_append, featuresOf, ih, featuresOf, List.append_assoc]

mutual

theorem Instr.features_bare (i : Instr ν σ) : featuresOf i.bare = i.features := by
  cases i with
  | branch yes no =>
    rw [Instr.bare, featuresOf, featuresOf, List.append_nil, Instr.features, Instr.features,
      featuresOf_bareAll, featuresOf_bareAll]
  | loop body | tick body =>
    rw [Instr.bare, featuresOf, featuresOf, List.append_nil, Instr.features, Instr.features,
      featuresOf_bareAll]
  | _ => rfl

/-- Marks need no feature. -/
theorem featuresOf_bareAll (is : List (Instr ν σ)) : featuresOf (bareAll is) = featuresOf is := by
  cases is with
  | nil => rfl
  | cons i is => rw [bareAll, featuresOf_append, i.features_bare, featuresOf_bareAll, featuresOf]

end

/-- Dropping redundant places drops no feature. -/
@[simp] theorem featuresOf_thinBody (body : List (Instr String σ)) :
    featuresOf (thinBody body) = featuresOf body := by
  rw [← featuresOf_bareAll, thinBody, bareAll_thinAll, featuresOf_bareAll]

@[simp] theorem featuresOf_replicate_pushLocal (n : Nat) :
    featuresOf (List.replicate n (.pushLocal : Instr ν σ)) = [] := by
  induction n with
  | zero => rfl
  | succ n ih =>
    rw [List.replicate_succ, featuresOf, ih]
    rfl

end Features

/-- All features of a list are in the set. -/
def FeatureSet.Supports (s : FeatureSet) (fs : List Feature) : Prop := ∀ f ∈ fs, s.contains f

namespace FeatureSet

variable {s : FeatureSet}

@[simp] theorem supports_nil : s.Supports [] := List.forall_mem_nil _

@[simp] theorem supports_singleton {f : Feature} : s.Supports [f] ↔ s.contains f :=
  List.forall_mem_singleton

@[simp] theorem supports_append {fs gs : List Feature} :
    s.Supports (fs ++ gs) ↔ s.Supports fs ∧ s.Supports gs :=
  List.forall_mem_append

/-- The full set has every feature. -/
theorem contains_full (f : Feature) : full.contains f := by cases f <;> rfl

end FeatureSet

/-! ## Comparing two runs -/

/-- A run with fewer features against the run with all of them. The first gives what the second gives if
that `fits`, and if what was made before fits (`before`). Otherwise it refuses a feature. -/
structure Gated {α : Type} (before : Prop) (fits : α → Prop) (x y : Except Diagnostic α) : Prop where
  ok : ∀ a, x = .ok a ∧ before ↔ y = .ok a ∧ fits a
  refused : x = y ∨ ∃ loc, x = .error ⟨.featureUnsupported, loc⟩

namespace Gated

variable {α β : Type} {before : Prop} {fits : α → Prop} {fits' : β → Prop}
  {x y : Except Diagnostic α} {f g : α → Except Diagnostic β}

theorem pure {a : α} (h : before ↔ fits a) : Gated before fits (Pure.pure a) (Pure.pure a) := by
  refine ⟨fun b => and_congr_right fun hb => ?_, .inl rfl⟩
  rw [← pure_eq_ok.1 hb, h]

theorem error (e : Diagnostic) : Gated before fits (.error e) (.error e) :=
  ⟨fun _ => iff_of_false (fun h => nomatch h.1) (fun h => nomatch h.1), .inl rfl⟩

/-- What the second run does after a step may be compared for what the step gives there only. -/
theorem bind_of_eq (h : Gated True fits x y)
    (hf : ∀ a, y = .ok a → Gated (before ∧ fits a) fits' (f a) (g a)) :
    Gated before fits' (x >>= f) (y >>= g) := by
  have hx (a : α) : x = .ok a ↔ y = .ok a ∧ fits a := (and_iff_left trivial).symm.trans (h.ok a)
  refine ⟨fun b => ?_, ?_⟩
  · rw [bind_eq_ok, bind_eq_ok]
    constructor
    · rintro ⟨⟨a, ha, hb⟩, hbefore⟩
      obtain ⟨ha, hfits⟩ := (hx a).1 ha
      obtain ⟨hb, hfits'⟩ := ((hf a ha).ok b).1 ⟨hb, hbefore, hfits⟩
      exact ⟨⟨a, ha, hb⟩, hfits'⟩
    · rintro ⟨⟨a, ha, hb⟩, hfits'⟩
      obtain ⟨hb, hbefore, hfits⟩ := ((hf a ha).ok b).2 ⟨hb, hfits'⟩
      exact ⟨⟨a, (hx a).2 ⟨ha, hfits⟩, hb⟩, hbefore⟩
  · rcases h.refused with rfl | ⟨loc, rfl⟩
    · cases x with
      | error e => exact .inl rfl
      | ok a => exact (hf a rfl).refused
    · exact .inr ⟨loc, rfl⟩

/-- Two gated steps in a row are gated. -/
theorem bind (h : Gated True fits x y) (hf : ∀ a, Gated (before ∧ fits a) fits' (f a) (g a)) :
    Gated before fits' (x >>= f) (y >>= g) :=
  h.bind_of_eq fun a _ => hf a

/-- A gated step for every item is gated. -/
theorem mapM {f g : α → Except Diagnostic β} (h : ∀ a, Gated True fits' (f a) (g a)) (xs : List α) :
    Gated True (fun bs => ∀ b ∈ bs, fits' b) (xs.mapM f) (xs.mapM g) := by
  induction xs with
  | nil => exact .pure (iff_of_true trivial (List.forall_mem_nil _))
  | cons a xs ih =>
    rw [List.mapM_cons, List.mapM_cons]
    refine (h a).bind fun b => ih.bind fun bs => .pure ?_
    rw [true_and, List.forall_mem_cons]

end Gated

/-! ## Lowering -/

section Lowering

/-- The same names with all features. -/
def Names.unrestricted (ns : Names) : Names := { ns with features := .full }

/-- Lowering with the features of some names against lowering with all of them. -/
abbrev Names.Gates (ns : Names) (x y : Except Diagnostic (List Code)) : Prop :=
  Gated True (fun code => ns.features.Supports (featuresOf code)) x y

variable (ns : Names) (scope : Scope)

/-- A required feature is refused when it is not on, and only then. -/
theorem Names.gated_require (f : Feature) (loc : Location) :
    Gated True (fun _ => ns.features.contains f) (ns.require f loc)
      (ns.unrestricted.require f loc) := by
  have hfull : ns.unrestricted.require f loc = .ok () := if_pos (FeatureSet.contains_full f)
  rw [hfull, Names.require]
  split
  · next h => exact .pure (iff_of_true trivial h)
  · next h =>
    exact ⟨fun _ => iff_of_false (fun hw => nomatch hw.1) (fun hw => h hw.2), .inr ⟨loc, rfl⟩⟩

@[simp] theorem featuresOf_singleton {ν σ : Type} (i : Instr ν σ) : featuresOf [i] = i.features := by
  rw [featuresOf, featuresOf, List.append_nil]

@[simp] theorem featuresOf_placed (loc : Location) : featuresOf (placed loc) = [] := rfl

/-- What is lowered to one instruction that needs no feature, whatever the features are. -/
theorem Names.gated_plain {x : Except Diagnostic Code} (h : ∀ i, x = .ok i → i.features = []) :
    Gated True (fun i => ns.features.Supports i.features) x x := by
  refine ⟨fun i => and_congr_right fun hi => ?_, .inl rfl⟩
  rw [h i hi]
  exact iff_of_true trivial FeatureSet.supports_nil

/-- Reading a variable needs no feature. -/
theorem Names.gated_load (loc : Location) (s : String) :
    Gated True (fun i => ns.features.Supports i.features) (orUnknown loc (ns.load? scope s))
      (orUnknown loc (ns.unrestricted.load? scope s)) := by
  refine ns.gated_plain fun i hi => ?_
  rw [orUnknown_eq_ok, Names.load?] at hi
  split at hi <;> cases hi <;> rfl

theorem Names.gated_store (loc : Location) (s : String) :
    Gated True (fun i => ns.features.Supports i.features) (orUnknown loc (ns.store? scope s))
      (orUnknown loc (ns.unrestricted.store? scope s)) := by
  refine ns.gated_plain fun i hi => ?_
  rw [orUnknown_eq_ok, Names.store?] at hi
  split at hi <;> cases hi <;> rfl

/-- A call of a known function needs no feature. -/
theorem Names.features_callee? {s : String} {i : Code} {arity : UInt32}
    (h : ns.callee? s = some (i, arity)) : i.features = [] := by
  unfold Names.callee? at h
  split at h
  · cases h
    rfl
  · obtain ⟨b, -, hb⟩ := Option.map_eq_some_iff.1 h
    cases hb
    rfl

/-- Resolving a call asks for the features that the call needs. -/
theorem Names.gated_resolveCall (loc : Location) (s : String) (given : Nat) :
    Gated True (fun i => ns.features.Supports i.features) (ns.resolveCall loc s given)
      (ns.unrestricted.resolveCall loc s given) := by
  refine ns.gated_plain fun i hi => ?_
  unfold Names.resolveCall at hi
  split at hi
  · cases hi
  · next instr arity hc =>
    split at hi
    · cases hi
    · split at hi
      · cases hi
      · cases hi
        exact ns.features_callee? hc

/-- Declaring a variable asks for the features that storing it needs. -/
theorem gated_lowerDeclared (loc : Location) (s : String) :
    Gated True (fun i => ns.features.Supports i.features) (lowerDeclared ns scope loc s)
      (lowerDeclared ns.unrestricted scope loc s) := by
  refine ns.gated_plain fun i hi => ?_
  unfold lowerDeclared at hi
  split at hi
  · obtain ⟨slot, -, rfl⟩ := Option.map_eq_some_iff.1 (orUnknown_eq_ok.1 hi)
    rfl
  · cases hi
    rfl

mutual

/-- An expression is refused when its code needs a feature that is not on, and only then. -/
theorem Expr.gated_lower (e : Expr) : ns.Gates (e.lower ns scope) (e.lower ns.unrestricted scope) := by
  cases e with
  | null loc | int loc n | text loc s => exact .pure (iff_of_true trivial FeatureSet.supports_nil)
  | name loc s =>
    rw [Expr.lower, Expr.lower]
    refine (ns.gated_load scope loc s).bind fun load => .pure ?_
    simp
  | float loc x =>
    rw [Expr.lower, Expr.lower]
    refine (ns.gated_require .floats loc).bind fun _ => .pure ?_
    simp [Instr.features]
  | tuple loc items =>
    rw [Expr.lower, Expr.lower]
    refine (gated_lowerExprs items).bind fun _ => .pure ?_
    simp [Instr.features]
  | object loc members =>
    rw [Expr.lower, Expr.lower]
    refine (ns.gated_require .objects loc).bind fun _ => ?_
    refine (gated_lowerMembers members).bind fun _ => .pure ?_
    simp [Instr.features, and_comm]
  | array loc items =>
    rw [Expr.lower, Expr.lower]
    refine (ns.gated_require .arrays loc).bind fun _ => ?_
    refine (gated_lowerExprs items).bind fun _ => .pure ?_
    simp [Instr.features, and_comm]
  | call loc callee args =>
    rw [Expr.lower, Expr.lower]
    refine (ns.gated_resolveCall loc callee args.length).bind fun _ => ?_
    refine (gated_lowerExprs args).bind fun _ => .pure ?_
    simp [and_comm]
  | tupleMember loc base index =>
    rw [Expr.lower, Expr.lower]
    refine base.gated_lower.bind fun _ => .pure ?_
    simp [Instr.features]
  | objectMember loc base member =>
    rw [Expr.lower, Expr.lower]
    refine (ns.gated_require .objects loc).bind fun _ => ?_
    refine base.gated_lower.bind fun _ => .pure ?_
    simp [Instr.features, and_comm]
  | element loc base index =>
    rw [Expr.lower, Expr.lower]
    refine (ns.gated_require .arrays loc).bind fun _ => ?_
    refine base.gated_lower.bind fun _ => index.gated_lower.bind fun _ => .pure ?_
    simp [Instr.features, and_comm, and_left_comm]
  | unary loc op operand =>
    rw [Expr.lower, Expr.lower]
    refine operand.gated_lower.bind fun _ => .pure ?_
    simp [Instr.features]
  | binary loc op left right =>
    rw [Expr.lower, Expr.lower]
    refine left.gated_lower.bind fun _ => right.gated_lower.bind fun _ => .pure ?_
    simp [Instr.features]

theorem gated_lowerExprs (es : List Expr) :
    ns.Gates (lowerExprs ns scope es) (lowerExprs ns.unrestricted scope es) := by
  cases es with
  | nil => exact .pure (iff_of_true trivial FeatureSet.supports_nil)
  | cons e es =>
    rw [lowerExprs, lowerExprs]
    refine e.gated_lower.bind fun _ => (gated_lowerExprs es).bind fun _ => .pure ?_
    simp

theorem gated_lowerMembers (ms : List (String × Expr)) :
    ns.Gates (lowerMembers ns scope ms) (lowerMembers ns.unrestricted scope ms) := by
  cases ms with
  | nil => exact .pure (iff_of_true trivial FeatureSet.supports_nil)
  | cons m ms =>
    rw [lowerMembers, lowerMembers]
    refine m.2.gated_lower.bind fun _ => (gated_lowerMembers ms).bind fun _ => .pure ?_
    simp

end

/-- An assignment is refused when its code needs a feature that is not on, and only then. -/
theorem gated_lowerAssign (loc : Location) (target value : Expr) :
    ns.Gates (lowerAssign ns scope loc target value)
      (lowerAssign ns.unrestricted scope loc target value) := by
  cases target with
  | name targetLoc s =>
    refine (value.gated_lower ns scope).bind fun _ => ?_
    refine (ns.gated_store scope targetLoc s).bind fun _ => .pure ?_
    simp
  | objectMember targetLoc base member =>
    refine (ns.gated_require .objects targetLoc).bind fun _ => ?_
    refine (base.gated_lower ns scope).bind fun _ => ?_
    refine (value.gated_lower ns scope).bind fun _ => .pure ?_
    simp [Instr.features, and_comm, and_left_comm]
  | element targetLoc base index =>
    refine (ns.gated_require .arrays targetLoc).bind fun _ => ?_
    refine (base.gated_lower ns scope).bind fun _ => (index.gated_lower ns scope).bind fun _ => ?_
    refine (value.gated_lower ns scope).bind fun _ => .pure ?_
    simp [Instr.features, and_comm, and_left_comm]
  | _ => exact .error _

mutual

/-- A statement is refused when its code needs a feature that is not on, and only then. -/
theorem Stmt.gated_lower (scope : Scope) (s : Stmt) :
    ns.Gates (s.lower ns scope) (s.lower ns.unrestricted scope) := by
  cases s with
  | assign loc target value =>
    rw [Stmt.lower, Stmt.lower]
    refine (gated_lowerAssign ns scope loc target value).bind fun _ => .pure ?_
    simp
  | branch loc cond yes no =>
    rw [Stmt.lower, Stmt.lower]
    refine (cond.gated_lower ns scope).bind fun _ => ?_
    refine (gated_lowerStmts _ yes).bind fun _ => (gated_lowerStmts _ no).bind fun _ => .pure ?_
    simp [Instr.features, and_assoc]
  | loop loc body | tick loc body =>
    rw [Stmt.lower, Stmt.lower]
    refine (gated_lowerStmts _ body).bind fun _ => .pure ?_
    simp [Instr.features]
  | whileLoop loc cond body =>
    rw [Stmt.lower, Stmt.lower]
    refine (cond.gated_lower ns _).bind fun _ => (gated_lowerStmts _ body).bind fun _ => .pure ?_
    simp [Instr.features, featuresOf]
  | continueLoop loc | breakLoop loc =>
    rw [Stmt.lower, Stmt.lower]
    split
    · exact .pure (iff_of_true trivial FeatureSet.supports_nil)
    · exact .error _
  | giveBack loc value =>
    rw [Stmt.lower, Stmt.lower]
    split
    · refine (value.gated_lower ns scope).bind fun _ => .pure ?_
      simp [Instr.features]
    · exact .error _
  | declare loc declared value =>
    rw [Stmt.lower, Stmt.lower]
    refine (value.gated_lower ns scope).bind fun _ => ?_
    refine (gated_lowerDeclared ns scope loc declared).bind fun _ => .pure ?_
    simp
  | function loc declared params body => exact .error _
  | expr loc value =>
    rw [Stmt.lower, Stmt.lower]
    refine (value.gated_lower ns scope).bind fun _ => .pure ?_
    simp [Instr.features]

/-- Statements are refused when their code needs a feature that is not on, and only then. -/
theorem gated_lowerStmts (scope : Scope) (ss : List Stmt) :
    ns.Gates (lowerStmts ns scope ss) (lowerStmts ns.unrestricted scope ss) := by
  cases ss with
  | nil => exact .pure (iff_of_true trivial FeatureSet.supports_nil)
  | cons s ss =>
    rw [lowerStmts, lowerStmts]
    refine (s.gated_lower scope).bind fun _ => (gated_lowerStmts (scope.after s) ss).bind fun _ => .pure ?_
    simp

end

/-- A function is refused when its code needs a feature that is not on, and only then. -/
theorem Declaration.gated_lower (d : Declaration) :
    Gated True (fun f => ns.features.Supports (featuresOf f.body)) (d.lower ns)
      (d.lower ns.unrestricted) := by
  refine (gated_lowerStmts ns (.ofParams d.params) d.body).bind fun _ => .pure ?_
  simp

end Lowering

/-! ## Scripts -/

/-- A script is refused at its first function, if functions are not supported. -/
theorem Declared.gated_collect (features : FeatureSet) (d : Declared) (hd : d.functions = [])
    (script : List Stmt) :
    Gated True (fun d' => d'.functions = [] ∨ features.contains .functions)
      (Declared.collect features d script) (Declared.collect .full d script) := by
  by_cases hf : features.contains .functions
  · have hsame : Declared.collect features d script = Declared.collect .full d script := by
      clear hd
      induction script generalizing d with
      | nil => rfl
      | cons stmt script ih =>
        cases stmt with
        | function loc s params body =>
          rw [Declared.collect, Declared.collect, hf, ih]
          rfl
        | declare loc s value =>
          rw [Declared.collect, Declared.collect, ih]
        | _ => exact ih d
    rw [hsame]
    exact ⟨fun _ => and_congr_right fun _ => iff_of_true trivial (.inr hf), .inl rfl⟩
  · induction script generalizing d with
    | nil => exact .pure (iff_of_true trivial (.inl hd))
    | cons stmt script ih =>
      cases stmt with
      | function loc s params body =>
        rw [Declared.collect, if_pos (by rw [Bool.not_eq_true'] ; exact Bool.eq_false_iff.2 hf)]
        refine ⟨fun d' => iff_of_false (by rintro ⟨⟨⟩, -⟩) ?_, .inr ⟨loc, rfl⟩⟩
        rintro ⟨hd', hfits⟩
        rw [(Declared.collect_eq_ok hd').1] at hfits
        exact hfits.elim (fun h => List.cons_ne_nil _ _ (List.append_eq_nil_iff.1 h).2) hf
      | declare loc s value =>
        rw [Declared.collect, Declared.collect]
        refine ih _ ?_
        split <;> exact hd
      | _ => exact ih d hd

/-- When the program of a script is supported. -/
theorem FeatureSet.supports_features {features : FeatureSet} {p : Program String (List String)} :
    features.Supports p.features ↔
      ((p.functions = [] ∨ features.contains .functions) ∧
        ∀ f ∈ p.functions, features.Supports (featuresOf f.body)) ∧
      features.Supports (featuresOf p.body) := by
  rw [Program.features, supports_append, supports_append]
  refine and_congr_left' (and_congr ?_ ?_)
  · cases p.functions with
    | nil => exact iff_of_true supports_nil (.inl rfl)
    | cons f fs => exact supports_singleton.trans (or_iff_right (List.cons_ne_nil f fs)).symm
  · exact List.forall_mem_flatMap

/-- A script is refused when its program needs a feature that is not on, and only then. -/
theorem gated_lowerScript (features : FeatureSet) (builtins : List (Signature String))
    (script : List Stmt) :
    Gated True (fun p => features.Supports p.features) (lowerScript features builtins script)
      (lowerScript .full builtins script) := by
  refine (Declared.gated_collect features ⟨[], []⟩ rfl script).bind fun d => ?_
  let ns : Names := ⟨features, builtins, d.functions, d.globals⟩
  refine (Gated.mapM (Declaration.gated_lower ns) d.functions).bind_of_eq fun functions hf => ?_
  refine (gated_lowerStmts ns .top (script.filter (! ·.isFunction))).bind fun code => .pure ?_
  have hlength := (mapM_ok_forall₂ hf).length_eq
  have hnil : d.functions = [] ↔ functions = [] := by
    rw [← List.length_eq_zero_iff, ← List.length_eq_zero_iff, hlength]
  rw [FeatureSet.supports_features, featuresOf_thinBody, true_and, hnil]

/-- A processor with some features accepts a script exactly if a processor with all features does, and
makes the same program of it, as long as this program needs no other features. A script that is refused
although it has a program is refused for a feature. -/
theorem lowerScript_gated (features : FeatureSet) (builtins : List (Signature String))
    (script : List Stmt) (p : Program String (List String)) :
    (lowerScript features builtins script = .ok p ↔
        lowerScript .full builtins script = .ok p ∧ ∀ f ∈ p.features, features.contains f) ∧
      (lowerScript .full builtins script = .ok p → (∃ f ∈ p.features, ¬ features.contains f) →
        ∃ loc, lowerScript features builtins script = .error ⟨.featureUnsupported, loc⟩) := by
  obtain ⟨hok, hrefused⟩ := gated_lowerScript features builtins script
  have hp := (and_iff_left trivial).symm.trans (hok p)
  refine ⟨hp, ?_⟩
  rintro hfull ⟨f, hf, hmissing⟩
  refine hrefused.resolve_left fun hsame => ?_
  exact hmissing ((hp.1 (hsame.trans hfull)).2 f hf)

/-- An element that is read in a loop in a function. Without arrays the script is refused, though it
holds no array literal. -/
theorem refused_element :
    let l : Location := ⟨1, "main"⟩
    let script : List Stmt :=
      [.function l "f" ["a"] [.loop l [.giveBack l (.element l (.name l "a") (.int l 0))]]]
    ∃ p, lowerScript .full [] script = .ok p ∧ p.features = [.functions, .arrays] ∧
      ∃ loc, lowerScript ⟨true, true, false, true⟩ [] script = .error ⟨.featureUnsupported, loc⟩ := by
  intro l script
  have hfull : lowerScript .full [] script = .ok _ := rfl
  refine ⟨_, hfull, rfl, ?_⟩
  exact (lowerScript_gated ⟨true, true, false, true⟩ [] script _).2 hfull ⟨.arrays, by decide, by decide⟩

end TickScript
