import Mathlib.Tactic.Ring
import TickScript.Proofs.Program.Resolution
import TickScript.Proofs.Syntax.Statements

/-!
# How high the trees of the reader are

The limit of nesting bounds the count of the reader, and the count bounds the tree, but not one to
one. An operand gives its levels back before the operator that takes it in is counted, so with `n`
levels left the first `n - 1` of them can be spent on an operand and then once more on folds around
it. The trees that are read with `n` levels left are thus of height `1 + 2 + ... + n` at most
(`Parser.highest`), and some are that high.
-/

namespace TickScript

/-! ## Heights -/

mutual

/-- The longest path from an expression to a leaf, counted in expressions. -/
def Expr.height : Expr → Nat
  | .name _ _ | .null _ | .int _ _ | .float _ _ | .text _ _ => 1
  | .tuple _ items | .array _ items | .call _ _ items => heightItems items + 1
  | .object _ members => heightMembers members + 1
  | .tupleMember _ base _ | .objectMember _ base _ => base.height + 1
  | .element _ base index => max base.height index.height + 1
  | .unary _ _ operand => operand.height + 1
  | .binary _ _ left right => max left.height right.height + 1

/-- The longest path in expressions. -/
def Expr.heightItems : List Expr → Nat
  | [] => 0
  | e :: es => max e.height (heightItems es)

/-- The longest path in an object's members. -/
def Expr.heightMembers : List (String × Expr) → Nat
  | [] => 0
  | (_, e) :: more => max e.height (heightMembers more)

end

mutual

/-- The longest path in a statement: a level for each expression, each block and each chained
`else if`. -/
def Stmt.height : Stmt → Nat
  | .assign _ target value => max target.height value.height
  | .branch _ cond yes no => max cond.height (max (heightAll yes) (heightAll no) + 1)
  | .loop _ body | .tick _ body | .function _ _ _ body => heightAll body + 1
  | .whileLoop _ cond body => max cond.height (heightAll body + 1)
  | .continueLoop _ | .breakLoop _ => 0
  | .giveBack _ value | .declare _ _ value | .expr _ value => value.height

/-- The longest path in statements. -/
def Stmt.heightAll : List Stmt → Nat
  | [] => 0
  | s :: ss => max s.height (heightAll ss)

end

namespace Parser

/-- The height that `n` levels allow. -/
def highest : Nat → Nat
  | 0 => 0
  | n + 1 => highest n + (n + 1)

/-- One level spent is one level of height at least. -/
theorem highest_succ {d : Nat} (hd : d < maxNesting) :
    highest (maxNesting - d) = highest (maxNesting - (d + 1)) + (maxNesting - d) := by
  obtain ⟨n, hn⟩ : ∃ n, maxNesting - d = n + 1 := ⟨maxNesting - d - 1, by omega⟩
  rw [hn, highest, show maxNesting - (d + 1) = n by omega]

/-! ## What a reader yields -/

/-- Every value a reader accepts satisfies `P`. -/
def Yields {α : Type} {bound : Nat} (r : Except Diagnostic (Read α bound)) (P : α → Prop) : Prop :=
  ∀ x, r = .ok x → P x.value

section Yields

variable {α β : Type} {a b : Nat} {P : α → Prop} {Q : β → Prop}

theorem Yields.ok {v : α} {rest : List Lexeme} (h : rest.length < a) (hv : P v) :
    Yields (.ok ⟨v, rest, h⟩) P := by
  rintro x ⟨⟩
  exact hv

theorem Yields.error (d : Diagnostic) : Yields (.error d : Except Diagnostic (Read α a)) P :=
  fun _ h => nomatch h

/-- What is made of a part yields what it makes of what the part yields. -/
theorem Yields.bind {r : Except Diagnostic (Read α a)} {k : Read α a → Except Diagnostic (Read β b)}
    (h : Yields r P) (hk : ∀ v rest hlt, P v → Yields (k ⟨v, rest, hlt⟩) Q) : Yields (r >>= k) Q := by
  cases r with
  | error e => exact .error e
  | ok x => exact hk x.value x.rest x.shorter (h x rfl)

/-- What does not matter for the result may be anything. -/
theorem Yields.after {γ : Type} {r : Except Diagnostic γ} {k : γ → Except Diagnostic (Read β b)}
    (hk : ∀ x, r = .ok x → Yields (k x) Q) : Yields (r >>= k) Q := by
  cases r with
  | error e => exact .error e
  | ok x => exact hk x rfl

/-- Reading one level further in yields nothing where there is no level left. -/
theorem Yields.nest {eof : Location} {ts : List Lexeme} {d : Nat} {r : Except Diagnostic (Read α a)}
    (h : d < maxNesting → Yields r P) :
    Yields (if maxNesting ≤ d then refuse eof ts .nestedTooDeep else r) P := by
  split
  · exact .error _
  · exact h (by omega)

end Yields

/-! ## Expressions -/

/-- A token that is an expression has height one. -/
theorem height_of_leaf {t : Token} {make : Location → Expr} (h : opening? t = some (.leaf make))
    (loc : Location) : (make loc).height = 1 := by
  cases t with
  | keyword k =>
    cases k with
    | kwNull =>
      cases h
      rfl
    | _ => cases h
  | symbol s => cases s <;> cases h
  | _ =>
    cases h
    rfl

/-- What stands in parentheses is as high as its items, or a tuple above them. -/
theorem height_parenthesized {loc : Location} {es : List Expr} {e : Expr}
    (h : parenthesized loc es = .ok e) : e.height ≤ Expr.heightItems es + 1 := by
  match es, h with
  | [e'], h =>
    cases h
    rw [Expr.heightItems, Expr.heightItems]
    omega
  | e₁ :: e₂ :: es, h =>
    cases h
    exact Nat.le_refl _

/-- Taking a member puts one level on top. -/
theorem yields_parseMember (eof : Location) (acc : Expr) (loc : Location) (ts : List Lexeme) :
    Yields (parseMember eof acc loc ts) (·.height = acc.height + 1) := by
  unfold parseMember
  split
  · split
    · exact .ok _ rfl
    · exact .error _
  · exact .ok _ rfl
  · exact .error _

mutual

/-- An expression is no higher than the levels that are left allow. -/
theorem yields_parseExpr (eof : Location) (d q : Nat) (ts : List Lexeme) :
    Yields (parseExpr eof d q ts) (·.height ≤ highest (maxNesting - d)) := by
  rw [parseExpr]
  refine .nest fun hd => ?_
  refine (yields_parseValue eof (d + 1) ts).bind fun value rest hlt hvalue => ?_
  refine (yields_foldExpr eof (d + 1) q value rest).bind fun e _ _ he => .ok _ ?_
  have := highest_succ hd
  omega
termination_by (ts.length, 2)

/-- Each fold counts, so there are no more of them than levels. -/
theorem yields_foldExpr (eof : Location) (d q : Nat) (acc : Expr) (ts : List Lexeme) :
    Yields (foldExpr eof d q acc ts)
      (·.height ≤ max acc.height (highest (maxNesting - d)) + (maxNesting - d)) := by
  match ts with
  | [] =>
    rw [foldExpr]
    exact .ok _ (by omega)
  | ⟨t, loc⟩ :: rest =>
    rw [foldExpr]
    split
    · exact .ok _ (by omega)
    · split
      · exact .ok _ (by omega)
      · refine .nest fun hd => ?_
        refine (yields_parseFollower eof (d + 1) _ acc _ loc rest).bind fun acc' rest' hlt hacc => ?_
        refine (yields_foldExpr eof (d + 1) q acc' rest').bind fun e _ _ he => .ok _ ?_
        have := highest_succ hd
        omega
termination_by (ts.length, 0)

/-- What takes an expression in is one level above it and what else it takes. -/
theorem yields_parseFollower (eof : Location) (d p : Nat) (acc : Expr) (f : Follower)
    (loc : Location) (ts : List Lexeme) :
    Yields (parseFollower eof d p acc f loc ts)
      (·.height ≤ max acc.height (highest (maxNesting - d)) + 1) := by
  unfold parseFollower
  split
  · split
    · refine (yields_parseItems eof d .closeParen ts).bind fun args _ _ hargs => .ok _ ?_
      simp only [Expr.height]
      omega
    · exact .error _
  · refine fun x hx => Nat.le_trans (Nat.le_of_eq (yields_parseMember eof acc loc ts x hx)) ?_
    omega
  · refine (yields_parseExpr eof d 0 ts).bind fun index _ _ hindex => ?_
    refine .after fun _ _ => .ok _ ?_
    rw [Expr.height]
    omega
  · refine (yields_parseExpr eof d p ts).bind fun right _ _ hright => .ok _ ?_
    rw [Expr.height]
    omega
termination_by (ts.length, 4)

/-- A value is at most one level above what stands inside it. -/
theorem yields_parseValue (eof : Location) (d : Nat) (ts : List Lexeme) :
    Yields (parseValue eof d ts) (·.height ≤ highest (maxNesting - d) + 1) := by
  match ts with
  | [] =>
    rw [parseValue]
    exact .error _
  | ⟨t, loc⟩ :: rest =>
    rw [parseValue]
    split
    · exact .error _
    · exact .ok _ (by rw [height_of_leaf ‹_›]; omega)
    · refine (yields_parseItems eof d .closeParen rest).bind fun es _ _ hes => ?_
      refine .after fun e he => .ok _ ?_
      have := height_parenthesized he
      omega
    · refine (yields_parseItems eof d .closeBracket rest).bind fun es _ _ hes => .ok _ ?_
      rw [Expr.height]
      omega
    · refine (yields_parseMembers eof d rest).bind fun members _ _ hmembers => .ok _ ?_
      rw [Expr.height]
      omega
    · refine (yields_parseExpr eof d _ rest).bind fun operand _ _ hoperand => .ok _ ?_
      rw [Expr.height]
      omega
termination_by (ts.length, 0)

theorem yields_parseItems (eof : Location) (d : Nat) (close : Symbol) (ts : List Lexeme) :
    Yields (parseItems eof d close ts) (Expr.heightItems · ≤ highest (maxNesting - d)) := by
  rw [parseItems]
  split
  · exact .ok _ (Nat.zero_le _)
  · refine (yields_parseExpr eof d 0 ts).bind fun e rest₁ h₁ he => ?_
    refine .after fun ⟨_, rest₂, h₂⟩ _ => ?_
    refine (yields_parseItems eof d close rest₂).bind fun es _ _ hes => .ok _ ?_
    rw [Expr.heightItems]
    omega
termination_by (ts.length, 3)

theorem yields_parseMembers (eof : Location) (d : Nat) (ts : List Lexeme) :
    Yields (parseMembers eof d ts) (Expr.heightMembers · ≤ highest (maxNesting - d)) := by
  rw [parseMembers]
  split
  · exact .ok _ (Nat.zero_le _)
  · refine .after fun ⟨s, rest₁, h₁⟩ _ => ?_
    refine .after fun ⟨_, rest₂, h₂⟩ _ => ?_
    refine (yields_parseExpr eof d 0 rest₂).bind fun e rest₃ h₃ he => ?_
    refine .after fun ⟨_, rest₄, h₄⟩ _ => ?_
    refine (yields_parseMembers eof d rest₄).bind fun more _ _ hmore => .ok _ ?_
    rw [Expr.heightMembers]
    omega
termination_by (ts.length, 3)

end

/-! ## Statements -/

mutual

/-- A statement is no higher than the levels that are left allow. -/
theorem yields_parseStmt (eof : Location) (d : Nat) (ts : List Lexeme) :
    Yields (parseStmt eof d ts) (·.height ≤ highest (maxNesting - d)) := by
  unfold parseStmt
  split
  · exact .ok _ (Nat.zero_le _)
  · exact .ok _ (Nat.zero_le _)
  · exact (yields_parseExpr eof d 0 _).bind fun value _ _ hvalue => .ok _ hvalue
  · exact (yields_parseBlock eof d _).bind fun body _ _ hbody => .ok _ hbody
  · exact (yields_parseBlock eof d _).bind fun body _ _ hbody => .ok _ hbody
  · refine (yields_parseExpr eof d 0 _).bind fun cond rest hlt hcond => ?_
    refine (yields_parseBlock eof d rest).bind fun body _ _ hbody => .ok _ ?_
    exact Nat.max_le.2 ⟨hcond, hbody⟩
  · refine .after fun ⟨s, rest₁, h₁⟩ _ => .after fun ⟨_, rest₂, h₂⟩ _ => ?_
    exact (yields_parseExpr eof d 0 rest₂).bind fun value _ _ hvalue => .ok _ hvalue
  · refine (yields_parseExpr eof d 0 _).bind fun cond rest₁ h₁ hcond => ?_
    refine (yields_parseBlock eof d rest₁).bind fun yes rest₂ h₂ hyes => ?_
    refine (yields_parseElse eof d rest₂).bind fun no _ _ hno => .ok _ ?_
    rw [Stmt.height]
    omega
  · refine .after fun ⟨s, rest₁, h₁⟩ _ => .after fun ⟨_, rest₂, h₂⟩ _ => ?_
    refine .after fun ⟨params, rest₃, h₃⟩ _ => ?_
    exact (yields_parseBlock eof d rest₃).bind fun body _ _ hbody => .ok _ hbody
  · refine (yields_parseExpr eof d 0 _).bind fun target rest hlt htarget => ?_
    dsimp only
    split
    · refine (yields_parseExpr eof d 0 _).bind fun value _ _ hvalue => .ok _ ?_
      exact Nat.max_le.2 ⟨htarget, hvalue⟩
    · exact .ok _ htarget
termination_by (ts.length, 3)
decreasing_by
  all_goals
    subst_vars
    simp only [Prod.lex_def, List.length_cons]
    omega

theorem yields_parseElse (eof : Location) (d : Nat) (ts : List Lexeme) :
    Yields (parseElse eof d ts) (Stmt.heightAll · ≤ highest (maxNesting - d) - 1) := by
  unfold parseElse
  split
  · split
    · refine .nest fun hd => ?_
      refine (yields_parseStmt eof (d + 1) _).bind fun s _ _ hs => .ok _ ?_
      have := highest_succ hd
      rw [Stmt.heightAll, Stmt.heightAll]
      omega
    · refine (yields_parseBlock eof d _).bind fun no _ _ hno => .ok _ ?_
      omega
  · exact .ok _ (Nat.zero_le _)
termination_by (ts.length, 0)
decreasing_by
  all_goals
    subst_vars
    simp only [Prod.lex_def, List.length_cons]
    omega

/-- A block counts a level itself. -/
theorem yields_parseBlock (eof : Location) (d : Nat) (ts : List Lexeme) :
    Yields (parseBlock eof d ts) (Stmt.heightAll · + 1 ≤ highest (maxNesting - d)) := by
  rw [parseBlock]
  refine .after fun ⟨_, rest, hlt⟩ _ => .nest fun hd => ?_
  refine (yields_parseStmts eof (d + 1) rest).bind fun body _ _ hbody => ?_
  refine .after fun _ _ => .ok _ ?_
  have := highest_succ hd
  omega
termination_by (ts.length, 0)

/-- Statements are no higher than the levels that are left allow. -/
theorem yields_parseStmts (eof : Location) (d : Nat) (ts : List Lexeme) :
    Yields (parseStmts eof d ts) (Stmt.heightAll · ≤ highest (maxNesting - d)) := by
  rw [parseStmts]
  split
  · exact .ok _ (Nat.zero_le _)
  · refine (yields_parseStmt eof d ts).bind fun s rest hlt hs => ?_
    refine (yields_parseStmts eof d rest).bind fun more _ _ hmore => .ok _ ?_
    exact Nat.max_le.2 ⟨hs, hmore⟩
termination_by (ts.length, 4)

end

/-! ## Scripts -/

/-- The greatest height is a triangular number. -/
theorem highest_eq (n : Nat) : highest n = n * (n + 1) / 2 := by
  have h : 2 * highest n = n * (n + 1) := by
    induction n with
    | zero => rfl
    | succ n ih =>
      rw [highest, Nat.mul_add, ih]
      ring
  omega

/-- **Accepted trees are bounded in height**, by what the levels add up to. -/
theorem heightAll_le_of_parse {ls : List Lexeme} {ss : List Stmt} (h : parse ls = .ok ss) :
    Stmt.heightAll ss ≤ maxNesting * (maxNesting + 1) / 2 := by
  obtain ⟨⟨stmts, rest, hlt⟩, hparse, h⟩ := bind_eq_ok.1 h
  have hheight : Stmt.heightAll stmts ≤ highest maxNesting :=
    yields_parseStmts (endOf ls) 0 ls _ hparse
  rw [← highest_eq]
  cases rest with
  | nil =>
    cases h
    exact hheight
  | cons l rest => cases h

end Parser

/-! ## Trees as high as can be -/

mutual

/-- The height of an expression does not depend on its places. -/
theorem Expr.height_unlocated (e : Expr) : e.unlocated.height = e.height := by
  cases e with
  | name | null | int | float | text => rfl
  | tuple _ items | array _ items | call _ _ items =>
    rw [unlocated, height, height, heightItems_unlocatedItems]
  | object _ members => rw [unlocated, height, height, heightMembers_unlocatedMembers]
  | tupleMember _ base _ | objectMember _ base _ => rw [unlocated, height, height, base.height_unlocated]
  | element _ base index =>
    rw [unlocated, height, height, base.height_unlocated, index.height_unlocated]
  | unary _ _ operand => rw [unlocated, height, height, operand.height_unlocated]
  | binary _ _ left right =>
    rw [unlocated, height, height, left.height_unlocated, right.height_unlocated]

theorem Expr.heightItems_unlocatedItems (es : List Expr) :
    heightItems (unlocatedItems es) = heightItems es := by
  cases es with
  | nil => rfl
  | cons e es =>
    rw [unlocatedItems, heightItems, heightItems, e.height_unlocated, heightItems_unlocatedItems es]

theorem Expr.heightMembers_unlocatedMembers (members : List (String × Expr)) :
    heightMembers (unlocatedMembers members) = heightMembers members := by
  cases members with
  | nil => rfl
  | cons p more =>
    obtain ⟨s, e⟩ := p
    rw [unlocatedMembers, heightMembers, heightMembers, e.height_unlocated,
      heightMembers_unlocatedMembers more]

end

mutual

/-- The height of a statement does not depend on its places. -/
theorem Stmt.height_unlocated (s : Stmt) : s.unlocated.height = s.height := by
  cases s with
  | assign _ target value =>
    rw [unlocated, height, height, target.height_unlocated, value.height_unlocated]
  | branch _ cond yes no =>
    rw [unlocated, height, height, cond.height_unlocated, heightAll_unlocatedAll yes,
      heightAll_unlocatedAll no]
  | loop _ body | tick _ body | function _ _ _ body =>
    rw [unlocated, height, height, heightAll_unlocatedAll body]
  | whileLoop _ cond body =>
    rw [unlocated, height, height, cond.height_unlocated, heightAll_unlocatedAll body]
  | continueLoop | breakLoop => rfl
  | giveBack _ value | declare _ _ value | expr _ value =>
    rw [unlocated, height, height, value.height_unlocated]

theorem Stmt.heightAll_unlocatedAll (ss : List Stmt) :
    heightAll (unlocatedAll ss) = heightAll ss := by
  cases ss with
  | nil => rfl
  | cons s ss => rw [unlocatedAll, heightAll, heightAll, s.height_unlocated, heightAll_unlocatedAll ss]

end

namespace Expr

/-- An expression and the first items of `n` tuples in it. -/
def firsts (e : Expr) : Nat → Expr
  | 0 => e
  | n + 1 => .tupleMember default (firsts e n) 0

/-- The highest tree that is read with `n + 1` levels: `n` of them are spent on the array and again on
the folds around it. -/
def tower : Nat → Expr
  | 0 => .null default
  | n + 1 => firsts (.array default [tower n]) (n + 1)

/-- Every element taken adds one to the height. -/
theorem height_firsts (e : Expr) (n : Nat) : (firsts e n).height = e.height + n := by
  induction n with
  | zero => rfl
  | succ n ih => rw [firsts, height, ih, Nat.add_assoc]

theorem full_firsts (e : Expr) (n : Nat) : (firsts e n).full = e.full := by
  induction n with
  | zero => rfl
  | succ n ih => rw [firsts, full, ih]

/-- Every element taken adds one to the spine. -/
theorem spine_firsts (loc : Location) (es : List Expr) (n least : Nat) :
    (firsts (.array loc es) n).spine least = n + 1 := by
  induction n generalizing least with
  | zero => rfl
  | succ n ih => rw [firsts, spine, ih]

/-- Taking elements needs a level for each of them, or those of the items if these are more. -/
theorem levels_firsts (loc : Location) (es : List Expr) (n least : Nat) :
    (firsts (.array loc es) n).levels least = max (itemLevels es + 1) (n + 1) := by
  induction n generalizing least with
  | zero =>
    rw [firsts, levels]
    omega
  | succ n ih =>
    rw [firsts, levels, ih, spine_firsts]
    omega

/-- A tower reaches the greatest height there can be. -/
theorem height_tower (n : Nat) : (tower n).height = Parser.highest (n + 1) := by
  induction n with
  | zero => rfl
  | succ n ih =>
    rw [tower, height_firsts, height, heightItems, heightItems, ih]
    simp only [Parser.highest]
    omega

/-- A tower can be written. -/
theorem full_tower (n : Nat) : (tower n).full = true := by
  induction n with
  | zero => rfl
  | succ n ih => rw [tower, full_firsts, full, fullItems, fullItems, ih, Bool.and_true]

/-- A tower takes one level more than its number. -/
theorem levels_tower (n : Nat) : (tower n).levels 0 = n + 1 := by
  induction n with
  | zero => rfl
  | succ n ih =>
    rw [tower, levels_firsts, itemLevels, itemLevels, ih]
    omega

end Expr

namespace Parser

/-- Levels that an operand gave back are spent again: 128 signs in front of a number and 128 sums
around them make a path of 257 expressions. -/
theorem exists_height_gt_maxNesting :
    ∃ ss, parse ((List.replicate 128 (Token.symbol .minus) ++
        Token.int 1 :: (List.replicate 128 [Token.symbol .plus, Token.int 1]).flatten).map
          (⟨·, ⟨1, "main.bt"⟩⟩)) = .ok ss ∧ maxNesting < Stmt.heightAll ss := by
  let signed : Expr := Nat.repeat (.unary default .negate ·) 128 (.int default 1)
  let summed : Expr := Nat.repeat (.binary default .add · (.int default 1)) 128 signed
  refine (exists_parse_eq_ok [.expr default summed] _ (by decide +kernel) (by decide +kernel)
    (by decide +kernel)).imp fun ss ⟨hparse, hss⟩ => ⟨hparse, ?_⟩
  rw [← Stmt.heightAll_unlocatedAll, hss]
  decide +kernel

/-- The bound on the height is attained. -/
theorem heightAll_le_of_parse_tower :
    ∃ ss, parse ((Expr.tokens 0 (.tower (maxNesting - 1))).map (⟨·, ⟨1, "main.bt"⟩⟩)) = .ok ss ∧
      Stmt.heightAll ss = maxNesting * (maxNesting + 1) / 2 := by
  have hprintable : Stmt.printableAll [.expr default (.tower (maxNesting - 1))] = true := by
    rw [Stmt.printableAll, Stmt.printable, Expr.full_tower]
    rfl
  have hlevels : Stmt.levelsAll [.expr default (.tower (maxNesting - 1))] ≤ maxNesting := by
    rw [Stmt.levelsAll, Stmt.levels, Expr.levels_tower, Stmt.levelsAll]
    decide
  obtain ⟨ss, hparse, hss⟩ := exists_parse_eq_ok [.expr default (.tower (maxNesting - 1))]
    ((Expr.tokens 0 (.tower (maxNesting - 1))).map (⟨·, ⟨1, "main.bt"⟩⟩)) hprintable
    (by simp [Stmt.tokensAll, Stmt.tokens, Function.comp_def]) hlevels
  refine ⟨ss, hparse, Nat.le_antisymm (heightAll_le_of_parse hparse) ?_⟩
  rw [← Stmt.heightAll_unlocatedAll, hss, Stmt.heightAll_unlocatedAll, Stmt.heightAll, Stmt.height,
    Expr.height_tower, ← highest_eq]
  exact Nat.le_max_left _ _

end Parser

end TickScript
