import TickScript.Processor
import TickScript.Proofs.Program.Gating
import TickScript.Proofs.Tick.Soundness

/-!
# Upgrading a processor

A host with more functions, registered behind those that it had, changes nothing about a script that was
accepted: a called name is looked up in the script first and then from the front of the table, so a name
that was found is found at the same place, and the number of a function is its place. With the rules about
features (`lowerScript_gated`) this says what a better processor makes of a script: the same program, with
the longer table.

The tiers are made that way. Each has the features and the modules of the one below it and registers the
new modules last, and no two functions of the modules share a name, so none replaces another.
-/

namespace TickScript

/-! ## More functions of the host -/

/-- The same names and more functions of the host. -/
def Names.offering (ns : Names) (more : List (Signature String)) : Names :=
  { ns with builtins := ns.builtins ++ more }

namespace Names

/-- An entry that was found stays where it is when the table grows behind it. -/
theorem entryWhere?_append {α : Type} {p : α → Bool} {table : List α} {found : α × UInt32}
    (h : entryWhere? p table = some found) (more : List α) :
    entryWhere? p (table ++ more) = some found := by
  obtain ⟨entry, hentry, rfl⟩ := Option.map_eq_some_iff.1 h
  unfold entryWhere?
  rw [List.zipIdx_append, List.find?_append, hentry]
  rfl

variable (ns : Names) (more : List (Signature String))

/-- A name that stands for something stands for it when the host offers more. -/
theorem callee?_offering {s : String} {found : Code × UInt32} (h : ns.callee? s = some found) :
    (ns.offering more).callee? s = some found := by
  unfold callee? at h ⊢
  rw [show (ns.offering more).functions = ns.functions from rfl]
  cases hd : entryWhere? (fun d => d.name == s) ns.functions with
  | some d =>
    rw [hd] at h
    exact h
  | none =>
    rw [hd] at h
    obtain ⟨entry, hentry, rfl⟩ := Option.map_eq_some_iff.1 h
    exact Option.map_eq_some_iff.2 ⟨entry, entryWhere?_append hentry more, rfl⟩

/-- A call is resolved in the same way when the host offers more. -/
theorem carries_resolveCall (loc : Location) (s : String) (given : Nat) :
    Carries Eq (ns.resolveCall loc s given) ((ns.offering more).resolveCall loc s given) := by
  unfold resolveCall
  cases h : ns.callee? s with
  | none => exact .error _
  | some found =>
    rw [ns.callee?_offering more h]
    exact .refl _

end Names

section Lowering

variable (ns : Names) (more : List (Signature String)) (scope : Scope)

mutual

/-- Only calls look at the functions of the host. -/
theorem Expr.carries_lower (e : Expr) :
    Carries Eq (e.lower ns scope) (e.lower (ns.offering more) scope) := by
  cases e with
  | null loc | int loc n | text loc s | name loc s | float loc x => exact .refl _
  | tuple loc items =>
    rw [Expr.lower, Expr.lower]
    exact (carries_lowerExprs items).bind_of_eq fun _ => .refl _
  | object loc members =>
    rw [Expr.lower, Expr.lower]
    refine (Carries.refl (ns.require .objects loc)).bind_of_eq fun _ => ?_
    exact (carries_lowerMembers members).bind_of_eq fun _ => .refl _
  | array loc items =>
    rw [Expr.lower, Expr.lower]
    refine (Carries.refl (ns.require .arrays loc)).bind_of_eq fun _ => ?_
    exact (carries_lowerExprs items).bind_of_eq fun _ => .refl _
  | call loc callee args =>
    rw [Expr.lower, Expr.lower]
    refine (ns.carries_resolveCall more loc callee args.length).bind_of_eq fun _ => ?_
    exact (carries_lowerExprs args).bind_of_eq fun _ => .refl _
  | tupleMember loc base index =>
    rw [Expr.lower, Expr.lower]
    exact base.carries_lower.bind_of_eq fun _ => .refl _
  | objectMember loc base member =>
    rw [Expr.lower, Expr.lower]
    refine (Carries.refl (ns.require .objects loc)).bind_of_eq fun _ => ?_
    exact base.carries_lower.bind_of_eq fun _ => .refl _
  | element loc base index =>
    rw [Expr.lower, Expr.lower]
    refine (Carries.refl (ns.require .arrays loc)).bind_of_eq fun _ => ?_
    refine base.carries_lower.bind_of_eq fun _ => ?_
    exact index.carries_lower.bind_of_eq fun _ => .refl _
  | unary loc op operand =>
    rw [Expr.lower, Expr.lower]
    exact operand.carries_lower.bind_of_eq fun _ => .refl _
  | binary loc op left right =>
    rw [Expr.lower, Expr.lower]
    refine left.carries_lower.bind_of_eq fun _ => ?_
    exact right.carries_lower.bind_of_eq fun _ => .refl _

theorem carries_lowerExprs (es : List Expr) :
    Carries Eq (lowerExprs ns scope es) (lowerExprs (ns.offering more) scope es) := by
  cases es with
  | nil => exact .refl _
  | cons e es =>
    rw [lowerExprs, lowerExprs]
    refine e.carries_lower.bind_of_eq fun _ => ?_
    exact (carries_lowerExprs es).bind_of_eq fun _ => .refl _

theorem carries_lowerMembers (ms : List (String × Expr)) :
    Carries Eq (lowerMembers ns scope ms) (lowerMembers (ns.offering more) scope ms) := by
  cases ms with
  | nil => exact .refl _
  | cons m ms =>
    rw [lowerMembers, lowerMembers]
    refine m.2.carries_lower.bind_of_eq fun _ => ?_
    exact (carries_lowerMembers ms).bind_of_eq fun _ => .refl _

end

/-- An assignment has the same code when the host offers more. -/
theorem carries_lowerAssign (loc : Location) (target value : Expr) :
    Carries Eq (lowerAssign ns scope loc target value)
      (lowerAssign (ns.offering more) scope loc target value) := by
  cases target with
  | name targetLoc s => exact (value.carries_lower ns more scope).bind_of_eq fun _ => .refl _
  | objectMember targetLoc base member =>
    refine (Carries.refl (ns.require .objects targetLoc)).bind_of_eq fun _ => ?_
    refine (base.carries_lower ns more scope).bind_of_eq fun _ => ?_
    exact (value.carries_lower ns more scope).bind_of_eq fun _ => .refl _
  | element targetLoc base index =>
    refine (Carries.refl (ns.require .arrays targetLoc)).bind_of_eq fun _ => ?_
    refine (base.carries_lower ns more scope).bind_of_eq fun _ => ?_
    refine (index.carries_lower ns more scope).bind_of_eq fun _ => ?_
    exact (value.carries_lower ns more scope).bind_of_eq fun _ => .refl _
  | _ => exact .error _

mutual

/-- A statement has the same code when the host offers more. -/
theorem Stmt.carries_lower (scope : Scope) (s : Stmt) :
    Carries Eq (s.lower ns scope) (s.lower (ns.offering more) scope) := by
  cases s with
  | assign loc target value =>
    rw [Stmt.lower, Stmt.lower]
    exact (carries_lowerAssign ns more scope loc target value).bind_of_eq fun _ => .refl _
  | branch loc cond yes no =>
    rw [Stmt.lower, Stmt.lower]
    refine (cond.carries_lower ns more scope).bind_of_eq fun _ => ?_
    refine (carries_lowerStmts _ yes).bind_of_eq fun _ => ?_
    exact (carries_lowerStmts _ no).bind_of_eq fun _ => .refl _
  | loop loc body | tick loc body =>
    rw [Stmt.lower, Stmt.lower]
    exact (carries_lowerStmts _ body).bind_of_eq fun _ => .refl _
  | whileLoop loc cond body =>
    rw [Stmt.lower, Stmt.lower]
    refine (cond.carries_lower ns more _).bind_of_eq fun _ => ?_
    exact (carries_lowerStmts _ body).bind_of_eq fun _ => .refl _
  | continueLoop loc | breakLoop loc =>
    rw [Stmt.lower, Stmt.lower]
    exact .refl _
  | giveBack loc value =>
    rw [Stmt.lower, Stmt.lower]
    split
    · exact (value.carries_lower ns more scope).bind_of_eq fun _ => .refl _
    · exact .error _
  | declare loc declared value =>
    rw [Stmt.lower, Stmt.lower]
    exact (value.carries_lower ns more scope).bind_of_eq fun _ => .refl _
  | function loc declared params body => exact .error _
  | expr loc value =>
    rw [Stmt.lower, Stmt.lower]
    exact (value.carries_lower ns more scope).bind_of_eq fun _ => .refl _

/-- Statements have the same code when the host offers more. -/
theorem carries_lowerStmts (scope : Scope) (ss : List Stmt) :
    Carries Eq (lowerStmts ns scope ss) (lowerStmts (ns.offering more) scope ss) := by
  cases ss with
  | nil => exact .refl _
  | cons s ss =>
    rw [lowerStmts, lowerStmts]
    refine (s.carries_lower scope).bind_of_eq fun _ => ?_
    exact (carries_lowerStmts (scope.after s) ss).bind_of_eq fun _ => .refl _

end

/-- A function has the same code when the host offers more. -/
theorem Declaration.carries_lower (d : Declaration) :
    Carries Eq (d.lower ns) (d.lower (ns.offering more)) :=
  (carries_lowerStmts ns more (.ofParams d.params) d.body).bind_of_eq fun _ => .refl _

end Lowering

/-- A script has the same program, except for its builtins, when the host offers more. -/
theorem carries_lowerScript (features : FeatureSet) (builtins more : List (Signature String))
    (script : List Stmt) :
    Carries (fun p p' => p' = { p with builtins := builtins ++ more })
      (lowerScript features builtins script) (lowerScript features (builtins ++ more) script) := by
  refine (Carries.refl (Declared.collect features ⟨[], []⟩ script)).bind_of_eq fun d => ?_
  let ns : Names := ⟨features, builtins, d.functions, d.globals⟩
  refine (Carries.mapM (Declaration.carries_lower ns more) d.functions).bind_of_eq fun _ => ?_
  exact (carries_lowerStmts ns more .top _).bind_of_eq fun _ => .pure rfl

/-- A processor with more features and more functions of the host accepts what another one accepts. -/
theorem lowerScript_mono {features features' : FeatureSet} {builtins builtins' : List (Signature String)}
    (hf : ∀ f, features.contains f → features'.contains f) (hb : builtins <+: builtins')
    {script : List Stmt} {p : Program String (List String)}
    (h : lowerScript features builtins script = .ok p) :
    lowerScript features' builtins' script = .ok { p with builtins := builtins' } := by
  obtain ⟨more, rfl⟩ := hb
  have hgated (features : FeatureSet) (builtins : List (Signature String))
      (p : Program String (List String)) :=
    (and_iff_left trivial).symm.trans ((gated_lowerScript features builtins script).ok p)
  obtain ⟨hfull, hsupports⟩ := (hgated features builtins p).1 h
  obtain ⟨p', hp', rfl⟩ := carries_lowerScript .full builtins more script p hfull
  refine (hgated features' (builtins ++ more) _).2 ⟨hp', fun f hmem => ?_⟩
  exact hf f (hsupports f hmem)

/-! ## Tiers -/

namespace Registry

variable {κ : Type}

/-- Functions with new names are registered behind the others. -/
theorem builtins_foldl_insert (bs : List (Builtin κ)) (r : Registry κ)
    (h : ((r.builtins ++ bs).map Builtin.name).Nodup) :
    (bs.foldl insert r).builtins = r.builtins ++ bs := by
  induction bs generalizing r with
  | nil => exact (List.append_nil r.builtins).symm
  | cons b bs ih =>
    have hnew : r.id? b.name = none := by
      rw [id?, List.findIdx?_eq_none_iff]
      intro x hx
      rw [List.map_append, List.map_cons, List.nodup_append] at h
      have hne := h.2.2 x.name (List.mem_map_of_mem hx) b.name List.mem_cons_self
      simpa using hne
    have hinsert : r.insert b = ⟨r.builtins ++ [b]⟩ := by
      rw [insert, hnew]
    rw [List.foldl_cons, hinsert, ih]
    · rw [List.append_assoc, List.singleton_append]
    · rw [List.append_assoc, List.singleton_append]
      exact h

/-- Modules without a common name are registered one behind the other. -/
theorem builtins_ofModules (modules : List (Module κ))
    (h : ((modules.flatMap Module.builtins).map Builtin.name).Nodup) :
    (ofModules modules).builtins = modules.flatMap Module.builtins := by
  have hfold : ofModules modules = (modules.flatMap Module.builtins).foldl insert empty := by
    rw [List.foldl_flatMap]
    rfl
  rw [hfold, builtins_foldl_insert _ _ h]
  rfl

end Registry

namespace Tier

variable {κ : Type} {t t' : Tier}

/-- A higher processor has the features of a lower one. -/
theorem contains_features (h : t.rank ≤ t'.rank) (f : Feature) (hf : t.features.contains f) :
    t'.features.contains f := by
  revert h hf
  cases t <;> cases t' <;> cases f <;> decide

/-- The modules of a processor are the first ones of a higher one. -/
theorem prefix_modules (h : t.rank ≤ t'.rank) : t.modules <+: (t'.modules : List (Module κ)) := by
  cases t <;> cases t' <;> first
    | exact List.prefix_rfl
    | exact ⟨_, rfl⟩
    | exact absurd h (by decide)

/-- No two functions of a tier have the same name. -/
theorem nodup_names (t : Tier) :
    (((t.modules : List (Module κ)).flatMap Module.builtins).map Builtin.name).Nodup := by
  have hfull : (((full.modules : List (Module κ)).flatMap Module.builtins).map Builtin.name).Nodup := by
    -- The names are the same whatever the host keeps.
    show (((full.modules : List (Module Unit)).flatMap Module.builtins).map Builtin.name).Nodup
    decide +kernel
  have htop : t.rank ≤ full.rank := by cases t <;> decide
  exact hfull.sublist (((prefix_modules htop).flatMap _).map _).sublist

/-- The builtins of a processor are the first ones of a higher one. -/
theorem prefix_signatures (h : t.rank ≤ t'.rank) :
    (Registry.ofModules t.modules : Registry κ).signatures <+:
      (Registry.ofModules t'.modules : Registry κ).signatures := by
  rw [Registry.signatures, Registry.signatures, Registry.builtins_ofModules _ t.nodup_names,
    Registry.builtins_ofModules _ t'.nodup_names]
  exact ((prefix_modules h).flatMap _).map _

end Tier

/-! ## Upgrades -/

/-- **Upgrading never breaks a script.** What is accepted with some features and functions of the host is
accepted with more features and further functions behind them, as the same program with the longer table.
In particular a script that compiles for a model compiles for every model of the same or a higher tier, and
functions, globals and body of the two programs are the same. -/
theorem compile_upgraded {κ : Type} :
    (∀ (features features' : FeatureSet) (builtins builtins' : List (Signature String))
        (script : List Stmt) (p : Program String (List String)),
      (∀ f, features.contains f → features'.contains f) → builtins <+: builtins' →
      lowerScript features builtins script = .ok p →
      lowerScript features' builtins' script = .ok { p with builtins := builtins' }) ∧
    ∀ (files : List SourceFile) (m m' : Model) (binary : List UInt8), m.tier.rank ≤ m'.tier.rank →
      compile files (Processor.ofModel m).features
        ((Processor.ofModel m).registry [] : Registry κ).signatures = .ok binary →
      ∃ script p p', (tokenizeFiles files >>= Parser.parse) = .ok script ∧
        lowerScript (Processor.ofModel m).features
          ((Processor.ofModel m).registry [] : Registry κ).signatures script = .ok p ∧
        lowerScript (Processor.ofModel m').features
          ((Processor.ofModel m').registry [] : Registry κ).signatures script = .ok p' ∧
        binary = (Image.link p).encode ∧
        compile files (Processor.ofModel m').features
          ((Processor.ofModel m').registry [] : Registry κ).signatures = .ok (Image.link p').encode ∧
        p'.functions = p.functions ∧ p'.globals = p.globals ∧ p'.body = p.body := by
  constructor
  · intro features features' builtins builtins' script p hf hb hp
    exact lowerScript_mono hf hb hp
  · intro files m m' binary hrank hc
    obtain ⟨p, hcompiled, rfl⟩ := compile_eq_ok hc
    obtain ⟨script, hparse, hp⟩ := compileProgram_eq_ok.1 hcompiled
    have hb : ((Processor.ofModel m).registry [] : Registry κ).signatures <+:
        ((Processor.ofModel m').registry [] : Registry κ).signatures := by
      rw [Processor.registry, Processor.registry, List.append_nil, List.append_nil]
      exact Tier.prefix_signatures hrank
    have hp' := lowerScript_mono (Tier.contains_features hrank) hb hp
    exact ⟨script, p, _, hparse, hp, hp', rfl, compile_of_parse hparse hp', rfl, rfl, rfl⟩

/-- A script that declares a function of its own under a name that only a better host has. -/
theorem compile_upgraded_sqrt :
    ∃ p p', compile [⟨"a", "fun sqrt(x) \x7b return x \x7d\nprint(sqrt(4))"⟩]
        (Processor.ofModel ⟨.extended, .low⟩).features
        ((Processor.ofModel ⟨.extended, .low⟩).registry [] : Registry Unit).signatures =
          .ok (Image.link p).encode ∧
      compile [⟨"a", "fun sqrt(x) \x7b return x \x7d\nprint(sqrt(4))"⟩]
        (Processor.ofModel ⟨.full, .low⟩).features
        ((Processor.ofModel ⟨.full, .low⟩).registry [] : Registry Unit).signatures =
          .ok (Image.link p').encode ∧
      p'.body = [.file "a", .line 2, .pushInt 4, .call 0, .callBuiltin 0, .discard] := by
  have hparse : (tokenizeFiles [⟨"a", "fun sqrt(x) \x7b return x \x7d\nprint(sqrt(4))"⟩] >>=
      Parser.parse) = .ok
        [.function ⟨1, "a"⟩ "sqrt" ["x"] [.giveBack ⟨1, "a"⟩ (.name ⟨1, "a"⟩ "x")],
          .expr ⟨2, "a"⟩ (.call ⟨2, "a"⟩ "print" [.call ⟨2, "a"⟩ "sqrt" [.int ⟨2, "a"⟩ 4]])] := by
    cbv
  have hc : compile [⟨"a", "fun sqrt(x) \x7b return x \x7d\nprint(sqrt(4))"⟩]
      (Processor.ofModel ⟨.extended, .low⟩).features
      ((Processor.ofModel ⟨.extended, .low⟩).registry [] : Registry Unit).signatures = .ok _ :=
    compile_of_parse hparse rfl
  obtain ⟨script, p, p', hscript, hp, -, hbinary, hc', -, -, hbody⟩ :=
    compile_upgraded.2 _ ⟨.extended, .low⟩ ⟨.full, .low⟩ _ (by decide) hc
  refine ⟨p, p', hbinary ▸ hc, hc', ?_⟩
  cases hparse.symm.trans hscript
  rw [hbody]
  cases hp
  rfl

end TickScript
