import TickScript.Proofs.Success
import TickScript.Proofs.Syntax.Statements

/-!
# Scripts after one another

What a reader accepts at the front of its input it accepts before any further input that is **fresh**,
that is, begins with nothing an expression or an `if` before it could take in (`Parser.Extends`). The
reader stops where it stopped before, and the tree has the same locations. The end of the input is only
looked at in a failure and where an expression, an `if` or a list of statements may end.

A statement starts with a fresh token unless it starts with `(`, `[` or `-`. Two scripts are thus read
one after the other as they are each by itself (`Parser.parse_append`), with the count of nesting at
zero before the second as before the first.
-/

namespace TickScript.Parser

/-! ## Further input -/

/-- Input that does not go on with what is before it. -/
def Fresh : List Lexeme → Prop
  | [] => True
  | l :: _ => follower? l.token = none ∧ l.token ≠ .symbol .assign ∧ l.token ≠ .keyword .kwElse

/-- What the first reader accepts the second accepts with more input behind, which it leaves. -/
def Extends {α : Type} {a b : Nat} (more : List Lexeme) (r : Except Diagnostic (Read α a))
    (r' : Except Diagnostic (Read α b)) : Prop :=
  ∀ x, r = .ok x → ∃ h, r' = .ok ⟨x.value, x.rest ++ more, h⟩

section Extends

variable {α β : Type} {a a' b b' : Nat} {more : List Lexeme} {r : Except Diagnostic (Read α a)}
  {r' : Except Diagnostic (Read α a')} {k : Read α a → Except Diagnostic (Read β b)}
  {k' : Read α a' → Except Diagnostic (Read β b')}

/-- What was read is read with more behind it. -/
theorem Extends.ok {v : α} {rest : List Lexeme} (h : rest.length < a)
    (h' : (rest ++ more).length < a') :
    Extends more (.ok ⟨v, rest, h⟩ : Except Diagnostic (Read α a)) (.ok ⟨v, rest ++ more, h'⟩) := by
  rintro x ⟨⟩
  exact ⟨h', rfl⟩

theorem Extends.error (d : Diagnostic) :
    Extends more (.error d : Except Diagnostic (Read α a)) r' := fun _ h => nomatch h

/-- Nothing is read off empty input. -/
theorem Extends.nil {r : Except Diagnostic (Read α 0)} : Extends more r r' :=
  fun x _ => absurd x.shorter (Nat.not_lt_zero _)

/-- How the first link is extended may depend on how the chain goes on. -/
theorem Extends.bind_of_ok
    (h : ∀ x y, r = .ok x → k x = .ok y → ∃ x', r' = .ok x' ∧ Extends more (k x) (k' x')) :
    Extends more (r >>= k) (r' >>= k') := by
  intro y hy
  obtain ⟨x, hx, hy⟩ := bind_eq_ok.1 hy
  obtain ⟨x', hx', hk⟩ := h x y hx hy
  obtain ⟨hlt, hy'⟩ := hk y hy
  exact ⟨hlt, bind_eq_ok.2 ⟨x', hx', hy'⟩⟩

/-- Two parts in a row extend as each does. -/
theorem Extends.bind (h : Extends more r r')
    (hk : ∀ v rest hlt hlt', Extends more (k ⟨v, rest, hlt⟩) (k' ⟨v, rest ++ more, hlt'⟩)) :
    Extends more (r >>= k) (r' >>= k') := by
  refine .bind_of_ok fun x _ hx _ => ?_
  obtain ⟨hlt', hx'⟩ := h x hx
  exact ⟨_, hx', hk x.value x.rest x.shorter hlt'⟩

/-- What is computed without reading. -/
theorem Extends.after {γ : Type} {c : Except Diagnostic γ} {k : γ → Except Diagnostic (Read β b)}
    {k' : γ → Except Diagnostic (Read β b')} (hk : ∀ x, Extends more (k x) (k' x)) :
    Extends more (c >>= k) (c >>= k') := by
  cases c with
  | error e => exact .error e
  | ok x => exact hk x

/-- Reading one level further in extends as what is read there. -/
theorem Extends.nest {eof eof' : Location} {ts ts' : List Lexeme} {d : Nat} (h : Extends more r r') :
    Extends more (if maxNesting ≤ d then refuse eof ts .nestedTooDeep else r)
      (if maxNesting ≤ d then refuse eof' ts' .nestedTooDeep else r') := by
  split
  · exact .error _
  · exact h

end Extends

variable {more : List Lexeme} (eof eof' : Location)

/-- Where there is a first lexeme, it does not come from behind. -/
theorem exists_eq_cons_of_append {ts rest : List Lexeme} {l : Lexeme} (hts : ts ≠ [])
    (h : ts ++ more = l :: rest) : ∃ rest', ts = l :: rest' := by
  obtain ⟨l', rest', rfl⟩ := List.exists_cons_of_ne_nil hts
  cases h
  exact ⟨rest', rfl⟩

/-- What is not fresh does not come from the further input. -/
theorem Fresh.exists_eq_cons {ts rest : List Lexeme} {l : Lexeme} (hmore : Fresh more)
    (hl : ¬Fresh [l]) (h : ts ++ more = l :: rest) : ∃ rest', ts = l :: rest' := by
  refine exists_eq_cons_of_append ?_ h
  rintro rfl
  rw [List.nil_append] at h
  rw [h] at hmore
  exact hl hmore

/-- Where the next lexeme stands does not depend on what comes later. -/
theorem here_append {ts : List Lexeme} (hts : ts ≠ []) : here eof ts = here eof' (ts ++ more) := by
  obtain ⟨l, rest, rfl⟩ := List.exists_cons_of_ne_nil hts
  rfl

/-! ## Single tokens -/

/-- Whether a symbol comes next does not depend on what comes later. -/
theorem take?_append (s : Symbol) {ts : List Lexeme} (hts : ts ≠ []) (more : List Lexeme) :
    (∃ x hlt, take? s ts = some x ∧ take? s (ts ++ more) = some ⟨(), x.rest ++ more, hlt⟩) ∨
      (take? s ts = none ∧ take? s (ts ++ more) = none) := by
  obtain ⟨⟨t, loc⟩, ts, rfl⟩ := List.exists_cons_of_ne_nil hts
  by_cases ht : t = .symbol s
  · subst ht
    exact .inl ⟨_, _, take?_self .., take?_self ..⟩
  · exact .inr ⟨take?_eq_none ht, take?_eq_none ht⟩

theorem extends_expect (s : Symbol) (cause : Cause) (ts : List Lexeme) :
    Extends more (expect eof s cause ts) (expect eof' s cause (ts ++ more)) := by
  by_cases hts : ts = []
  · subst hts
    exact .nil
  rw [expect, expect]
  obtain ⟨x, _, hx, hx'⟩ | ⟨hx, hx'⟩ := take?_append s hts more <;> rw [hx, hx']
  · exact .ok _ _
  · exact .error _

theorem extends_expectName (cause : Cause) (ts : List Lexeme) :
    Extends more (expectName eof cause ts) (expectName eof' cause (ts ++ more)) := by
  unfold expectName
  split
  · exact .ok _ _
  · exact .error _

theorem extends_separator (close : Symbol) (ts : List Lexeme) :
    Extends more (separator eof close ts) (separator eof' close (ts ++ more)) := by
  by_cases hts : ts = []
  · subst hts
    exact .error _
  rw [separator, separator]
  obtain ⟨x, _, hx, hx'⟩ | ⟨hx, hx'⟩ := take?_append .comma hts more <;> rw [hx, hx']
  · exact .ok _ _
  · obtain ⟨y, _, hy, hy'⟩ | ⟨hy, hy'⟩ := take?_append close hts more <;> rw [hy, hy']
    · exact .ok _ _
    · exact .error _

theorem extends_parseParams (ts : List Lexeme) :
    Extends more (parseParams eof ts) (parseParams eof' (ts ++ more)) := by
  by_cases hts : ts = []
  · subst hts
    exact .nil
  rw [parseParams, parseParams]
  obtain ⟨x, _, hx, hx'⟩ | ⟨hx, hx'⟩ := take?_append .closeParen hts more <;> rw [hx, hx']
  · exact .ok _ _
  · refine (extends_expectName eof eof' _ _).bind fun s rest₁ h₁ _ => ?_
    refine (extends_separator eof eof' _ rest₁).bind fun _ rest₂ h₂ _ => ?_
    exact (extends_parseParams rest₂).bind fun params rest₃ h₃ _ => .ok _ _
termination_by ts.length

theorem extends_parseMember (acc : Expr) (loc : Location) (ts : List Lexeme) :
    Extends more (parseMember eof acc loc ts) (parseMember eof' acc loc (ts ++ more)) := by
  unfold parseMember
  split
  · simp only [List.cons_append]
    split
    · exact .ok _ _
    · exact .error _
  · exact .ok _ _
  · exact .error _

/-! ## Expressions -/

/-- An expression is complete before fresh input. -/
theorem foldExpr_of_fresh (hmore : Fresh more) (d q : Nat) (acc : Expr) :
    foldExpr eof d q acc more = .ok ⟨acc, more, Nat.lt_succ_self _⟩ := by
  cases more with
  | nil => rw [foldExpr]
  | cons l more =>
    obtain ⟨t, loc⟩ := l
    rw [foldExpr, hmore.1]

mutual

/-- An expression that was read is read with a fresh line of tokens behind it. -/
theorem extends_parseExpr (hmore : Fresh more) (d q : Nat) (ts : List Lexeme) :
    Extends more (parseExpr eof d q ts) (parseExpr eof' d q (ts ++ more)) := by
  rw [parseExpr, parseExpr]
  refine .nest ((extends_parseValue hmore (d + 1) ts).bind fun value rest hlt _ => ?_)
  exact (extends_foldExpr hmore (d + 1) q value rest).bind fun e _ _ _ => .ok _ _
termination_by (ts.length, 2)

/-- What an expression is taken into does not reach into the fresh tokens behind it. -/
theorem extends_foldExpr (hmore : Fresh more) (d q : Nat) (acc : Expr) (ts : List Lexeme) :
    Extends more (foldExpr eof d q acc ts) (foldExpr eof' d q acc (ts ++ more)) := by
  match ts with
  | [] =>
    rw [List.nil_append, foldExpr_of_fresh eof' hmore, foldExpr]
    exact .ok _ _
  | ⟨t, loc⟩ :: rest =>
    rw [List.cons_append, foldExpr, foldExpr]
    split
    · exact .ok _ _
    · split
      · exact .ok _ _
      · refine .nest ?_
        refine (extends_parseFollower hmore (d + 1) _ acc _ loc rest).bind fun acc' rest' hlt _ => ?_
        exact (extends_foldExpr hmore (d + 1) q acc' rest').bind fun e _ _ _ => .ok _ _
termination_by (ts.length, 0)

/-- What takes an expression in is read with fresh tokens behind it. -/
theorem extends_parseFollower (hmore : Fresh more) (d p : Nat) (acc : Expr) (f : Follower) (loc : Location)
    (ts : List Lexeme) :
    Extends more (parseFollower eof d p acc f loc ts) (parseFollower eof' d p acc f loc (ts ++ more)) := by
  unfold parseFollower
  split
  · split
    · exact (extends_parseItems hmore d .closeParen ts).bind fun args _ _ _ => .ok _ _
    · exact .error _
  · exact extends_parseMember eof eof' acc loc ts
  · refine (extends_parseExpr hmore d 0 ts).bind fun index rest hlt _ => ?_
    exact (extends_expect eof eof' _ _ rest).bind fun _ _ _ _ => .ok _ _
  · exact (extends_parseExpr hmore d p ts).bind fun right _ _ _ => .ok _ _
termination_by (ts.length, 4)

theorem extends_parseValue (hmore : Fresh more) (d : Nat) (ts : List Lexeme) :
    Extends more (parseValue eof d ts) (parseValue eof' d (ts ++ more)) := by
  match ts with
  | [] => exact .nil
  | ⟨t, loc⟩ :: rest =>
    rw [List.cons_append, parseValue, parseValue]
    split
    · exact .error _
    · exact .ok _ _
    · refine (extends_parseItems hmore d .closeParen rest).bind fun es _ _ _ => ?_
      exact .after fun e => .ok _ _
    · exact (extends_parseItems hmore d .closeBracket rest).bind fun es _ _ _ => .ok _ _
    · exact (extends_parseMembers hmore d rest).bind fun members _ _ _ => .ok _ _
    · exact (extends_parseExpr hmore d _ rest).bind fun operand _ _ _ => .ok _ _
termination_by (ts.length, 0)

theorem extends_parseItems (hmore : Fresh more) (d : Nat) (close : Symbol) (ts : List Lexeme) :
    Extends more (parseItems eof d close ts) (parseItems eof' d close (ts ++ more)) := by
  by_cases hts : ts = []
  · subst hts
    exact .nil
  rw [parseItems, parseItems]
  obtain ⟨x, _, hx, hx'⟩ | ⟨hx, hx'⟩ := take?_append close hts more <;> rw [hx, hx']
  · exact .ok _ _
  · refine (extends_parseExpr hmore d 0 ts).bind fun e rest₁ h₁ _ => ?_
    refine (extends_separator eof eof' close rest₁).bind fun _ rest₂ h₂ _ => ?_
    exact (extends_parseItems hmore d close rest₂).bind fun es _ _ _ => .ok _ _
termination_by (ts.length, 3)

theorem extends_parseMembers (hmore : Fresh more) (d : Nat) (ts : List Lexeme) :
    Extends more (parseMembers eof d ts) (parseMembers eof' d (ts ++ more)) := by
  by_cases hts : ts = []
  · subst hts
    exact .nil
  rw [parseMembers, parseMembers]
  obtain ⟨x, _, hx, hx'⟩ | ⟨hx, hx'⟩ := take?_append .closeBrace hts more <;> rw [hx, hx']
  · exact .ok _ _
  · refine (extends_expectName eof eof' _ _).bind fun s rest₁ h₁ _ => ?_
    refine (extends_expect eof eof' _ _ rest₁).bind fun _ rest₂ h₂ _ => ?_
    refine (extends_parseExpr hmore d 0 rest₂).bind fun e rest₃ h₃ _ => ?_
    refine (extends_separator eof eof' _ rest₃).bind fun _ rest₄ h₄ _ => ?_
    exact (extends_parseMembers hmore d rest₄).bind fun more _ _ _ => .ok _ _
termination_by (ts.length, 3)

end

/-! ## Statements -/

/-- At the end of a block there are no statements. -/
theorem parseStmts_of_atEnd (d : Nat) {ts : List Lexeme} (h : Stmt.AtEnd ts) :
    parseStmts eof d ts = .ok ⟨[], ts, Nat.lt_succ_self _⟩ := by
  rw [Stmt.AtEnd] at h
  rw [parseStmts, if_pos h]

/-- Before the end, statements are a first one and others. -/
theorem parseStmts_eq_ok (d : Nat) {ts : List Lexeme} (h : ¬Stmt.AtEnd ts)
    {x : Read (List Stmt) (ts.length + 1)} : parseStmts eof d ts = .ok x ↔
      ∃ (s : Read Stmt ts.length) (y : Read (List Stmt) (s.rest.length + 1)),
        parseStmt eof d ts = .ok s ∧ parseStmts eof d s.rest = .ok y ∧
          x = ⟨s.value :: y.value, y.rest, Nat.lt_of_lt_of_le y.shorter (Nat.succ_le_succ
            (Nat.le_of_lt s.shorter))⟩ := by
  rw [Stmt.AtEnd] at h
  rw [parseStmts, if_neg h, bind_eq_ok]
  constructor
  · rintro ⟨s, hs, hx⟩
    obtain ⟨y, hy, hx⟩ := bind_eq_ok.1 hx
    exact ⟨s, y, hs, hy, (pure_eq_ok.1 hx).symm⟩
  · rintro ⟨s, y, hs, hy, rfl⟩
    exact ⟨s, hs, bind_eq_ok.2 ⟨y, hy, rfl⟩⟩

/-- A closing brace ends a block, whatever comes behind it. -/
theorem atEnd_append_of_expect {cause : Cause} {ts : List Lexeme} {x : Read Unit ts.length}
    (h : expect eof .closeBrace cause ts = .ok x) (more : List Lexeme) : Stmt.AtEnd (ts ++ more) := by
  have hts : ts ≠ [] := List.ne_nil_of_length_pos (Nat.zero_lt_of_lt x.shorter)
  obtain ⟨_, _, _, hx'⟩ | ⟨hx, _⟩ := take?_append .closeBrace hts more
  · rw [Stmt.AtEnd, hx', Option.isSome_some, Bool.or_true]
  · rw [expect, hx] at h
    cases h

/-- What is not the end of a block is not its end with more behind it. -/
theorem not_atEnd_append {ts : List Lexeme} (h : ¬Stmt.AtEnd ts) (more : List Lexeme) :
    ¬Stmt.AtEnd (ts ++ more) := by
  have hts : ts ≠ [] := fun heq => h (heq ▸ Stmt.atEnd_nil)
  obtain ⟨_, _, hx, _⟩ | ⟨_, hx'⟩ := take?_append .closeBrace hts more
  · refine absurd ?_ h
    rw [Stmt.AtEnd, hx, Option.isSome_some, Bool.or_true]
  · rw [Stmt.AtEnd, hx', List.isEmpty_eq_false_iff.2 (by simp [hts])]
    exact Bool.false_ne_true

mutual

/-- A statement that was read is read with fresh tokens behind it. -/
theorem extends_parseStmt (hmore : Fresh more) (d : Nat) (ts : List Lexeme) :
    Extends more (parseStmt eof d ts) (parseStmt eof' d (ts ++ more)) := by
  by_cases hts : ts = []
  · subst hts
    exact .nil
  rw [parseStmt.eq_def eof d ts]
  split
  · rw [List.cons_append, parseStmt]
    exact .ok _ _
  · rw [List.cons_append, parseStmt]
    exact .ok _ _
  · rw [List.cons_append, parseStmt]
    exact (extends_parseExpr eof eof' hmore d 0 _).bind fun value _ _ _ => .ok _ _
  · rw [List.cons_append, parseStmt]
    exact (extends_parseBlock hmore d _).bind fun body _ _ _ => .ok _ _
  · rw [List.cons_append, parseStmt]
    exact (extends_parseBlock hmore d _).bind fun body _ _ _ => .ok _ _
  · rw [List.cons_append, parseStmt]
    refine (extends_parseExpr eof eof' hmore d 0 _).bind fun cond rest hlt _ => ?_
    exact (extends_parseBlock hmore d rest).bind fun body _ _ _ => .ok _ _
  · rw [List.cons_append, parseStmt]
    refine (extends_expectName eof eof' _ _).bind fun s rest₁ h₁ _ => ?_
    refine (extends_expect eof eof' _ _ rest₁).bind fun _ rest₂ h₂ _ => ?_
    exact (extends_parseExpr eof eof' hmore d 0 rest₂).bind fun value _ _ _ => .ok _ _
  · rw [List.cons_append, parseStmt]
    refine (extends_parseExpr eof eof' hmore d 0 _).bind fun cond rest₁ h₁ _ => ?_
    refine (extends_parseBlock hmore d rest₁).bind fun yes rest₂ h₂ _ => ?_
    exact (extends_parseElse hmore d rest₂).bind fun no _ _ _ => .ok _ _
  · rw [List.cons_append, parseStmt]
    refine (extends_expectName eof eof' _ _).bind fun s rest₁ h₁ _ => ?_
    refine (extends_expect eof eof' _ _ rest₁).bind fun _ rest₂ h₂ _ => ?_
    refine (extends_parseParams eof eof' rest₂).bind fun params rest₃ h₃ _ => ?_
    exact (extends_parseBlock hmore d rest₃).bind fun body _ _ _ => .ok _ _
  · rw [parseStmt]
    · refine (extends_parseExpr eof eof' hmore d 0 _).bind fun target rest hlt _ => ?_
      dsimp only
      split
      · dsimp only [List.cons_append]
        exact (extends_parseExpr eof eof' hmore d 0 _).bind fun value _ _ _ => .ok _ _
      next hassign =>
        split
        next heq _ =>
          -- an equals sign stands at the front of neither part
          obtain ⟨_, rfl⟩ := hmore.exists_eq_cons (fun h => h.2.1 rfl) heq
          exact absurd HEq.rfl (hassign _ _ hlt rfl)
        next =>
          rw [here_append eof eof' hts]
          exact .ok _ _
    -- no keyword that makes another statement stands in front
    all_goals
      intro loc rest heq
      obtain ⟨_, rfl⟩ := exists_eq_cons_of_append hts heq
      solve_by_elim
termination_by (ts.length, 3)
decreasing_by
  all_goals
    subst_vars
    simp only [Prod.lex_def, List.length_cons]
    omega

theorem extends_parseElse (hmore : Fresh more) (d : Nat) (ts : List Lexeme) :
    Extends more (parseElse eof d ts) (parseElse eof' d (ts ++ more)) := by
  rw [parseElse.eq_def eof d ts]
  split
  next loc rest =>
    rw [List.cons_append]
    split
    · rw [List.cons_append, parseElse]
      exact .nest ((extends_parseStmt hmore (d + 1) _).bind fun s _ _ _ => .ok _ _)
    next hif =>
      by_cases hrest : rest = []
      · subst hrest
        intro y hy
        obtain ⟨x, -, -⟩ := bind_eq_ok.1 hy
        exact absurd x.shorter (Nat.not_lt_zero _)
      rw [parseElse]
      · exact (extends_parseBlock hmore d rest).bind fun no _ _ _ => .ok _ _
      · intro loc' rest' heq
        obtain ⟨_, rfl⟩ := exists_eq_cons_of_append hrest heq
        exact hif _ _ rfl
  next helse =>
    rw [parseElse]
    · exact .ok _ _
    · intro loc rest heq
      obtain ⟨_, rfl⟩ := hmore.exists_eq_cons (fun h => h.2.2 rfl) heq
      exact helse _ _ rfl
termination_by (ts.length, 0)
decreasing_by
  all_goals
    subst_vars
    simp only [Prod.lex_def, List.length_cons]
    omega

theorem extends_parseBlock (hmore : Fresh more) (d : Nat) (ts : List Lexeme) :
    Extends more (parseBlock eof d ts) (parseBlock eof' d (ts ++ more)) := by
  rw [parseBlock, parseBlock]
  refine (extends_expect eof eof' _ _ ts).bind fun _ rest hlt _ => .nest (.bind_of_ok ?_)
  rintro ⟨body, rest', hlt'⟩ y hbody hy
  -- the statements end at the closing brace, further input or not
  obtain ⟨_, hclose, -⟩ := bind_eq_ok.1 hy
  have hend := parseStmts_of_atEnd eof' (d + 1) (atEnd_append_of_expect eof hclose more)
  obtain ⟨_, hbody'⟩ := parseStmts_append hmore (d + 1) rest hbody hend
  dsimp only at hbody'
  rw [List.append_nil] at hbody'
  exact ⟨_, hbody', (extends_expect eof eof' _ _ rest').bind fun _ _ _ _ => .ok _ _⟩
termination_by (ts.length, 0)

/-- Statements that are read up to their end are read on with those that follow. -/
theorem parseStmts_append (hmore : Fresh more) (d : Nat) (ts : List Lexeme) {x : Read (List Stmt) _}
    (hx : parseStmts eof d ts = .ok x) {y : Read (List Stmt) _}
    (hy : parseStmts eof' d (x.rest ++ more) = .ok y) :
    ∃ h, parseStmts eof' d (ts ++ more) = .ok ⟨x.value ++ y.value, y.rest, h⟩ := by
  by_cases hend : Stmt.AtEnd ts
  · rw [parseStmts_of_atEnd eof d hend] at hx
    cases hx
    exact ⟨_, hy⟩
  · obtain ⟨⟨s, rest, hlt⟩, z, hs, hz, rfl⟩ := (parseStmts_eq_ok eof d hend).1 hx
    obtain ⟨_, hs'⟩ := extends_parseStmt hmore d ts _ hs
    obtain ⟨_, hz'⟩ := parseStmts_append hmore d rest hz hy
    exact ⟨_, (parseStmts_eq_ok eof' d (not_atEnd_append hend more)).2 ⟨_, _, hs', hz', rfl⟩⟩
termination_by (ts.length, 4)

end

/-! ## Scripts -/

/-- What was read as an expression begins with a token that may start a statement. -/
theorem starts_of_parseExpr {d q : Nat} {l : Lexeme} {ls : List Lexeme} {x : Read Expr _}
    (h : parseExpr eof d q (l :: ls) = .ok x) : Stmt.Starts l.token := by
  rw [parseExpr] at h
  split at h
  · cases h
  · obtain ⟨_, hvalue, -⟩ := bind_eq_ok.1 h
    obtain ⟨t, loc⟩ := l
    rw [parseValue] at hvalue
    split at hvalue
    · cases hvalue
    all_goals exact Stmt.starts_of_opening (Option.isSome_of_eq_some ‹_›)

/-- What was read as a statement begins with a token that may start one. -/
theorem starts_of_parseStmt {d : Nat} {ls : List Lexeme} {x : Read Stmt ls.length}
    (h : parseStmt eof d ls = .ok x) : ∀ l ∈ ls.head?, Stmt.Starts l.token := by
  unfold parseStmt at h
  split at h
  case h_10 =>
    obtain ⟨y, htarget, -⟩ := bind_eq_ok.1 h
    cases ls with
    | nil => exact absurd y.shorter (Nat.not_lt_zero _)
    | cons l ls =>
      rintro _ ⟨⟩
      exact starts_of_parseExpr eof htarget
  all_goals
    rintro _ ⟨⟩
    exact ⟨by simp, by simp, by simp, fun _ => rfl⟩

/-- A script is accepted when all of it is read as statements. -/
theorem parse_eq_ok {ls : List Lexeme} {ss : List Stmt} :
    parse ls = .ok ss ↔ ∃ h, parseStmts (endOf ls) 0 ls = .ok ⟨ss, [], h⟩ := by
  rw [parse, bind_eq_ok]
  constructor
  · rintro ⟨⟨ss', rest, h⟩, hparse, hend⟩
    cases rest with
    | nil =>
      cases pure_eq_ok.1 hend
      exact ⟨h, hparse⟩
    | cons l rest => cases hend
  · rintro ⟨h, hparse⟩
    exact ⟨_, hparse, rfl⟩

theorem endOf_append (ls : List Lexeme) {ls' : List Lexeme} (h : ls' ≠ []) :
    endOf (ls ++ ls') = endOf ls' := by
  rw [endOf, endOf, List.getLast?_append_of_ne_nil ls h]

/-- A script that is read by itself is fresh, but for the three symbols that join. -/
theorem fresh_of_parse {ls : List Lexeme} {ss : List Stmt} (h : parse ls = .ok ss)
    (hjoins : ∀ l ∈ ls.head?, l.token.joins = false) : Fresh ls := by
  cases ls with
  | nil => trivial
  | cons l ls =>
    obtain ⟨_, hparse⟩ := parse_eq_ok.1 h
    by_cases hend : Stmt.AtEnd (l :: ls)
    · rw [parseStmts_of_atEnd _ _ hend] at hparse
      cases hparse
    · obtain ⟨_, _, hs, -, -⟩ := (parseStmts_eq_ok _ 0 hend).1 hparse
      have hstarts := starts_of_parseStmt _ hs l rfl
      exact ⟨hstarts.follower (hjoins l rfl), hstarts.ne_assign, hstarts.ne_else⟩

/-- **Scripts are read one after the other** as each is by itself. -/
theorem parse_append {ls ls' : List Lexeme} {ss ss' : List Stmt} (h : parse ls = .ok ss)
    (h' : parse ls' = .ok ss') (hjoins : ∀ l ∈ ls'.head?, l.token.joins = false) :
    parse (ls ++ ls') = .ok (ss ++ ss') := by
  have hmore := fresh_of_parse h' hjoins
  obtain ⟨_, hss⟩ := parse_eq_ok.1 h
  obtain ⟨_, hss'⟩ := parse_eq_ok.1 h'
  by_cases hls : ls' = []
  · subst hls
    rw [parseStmts_of_atEnd _ _ Stmt.atEnd_nil] at hss'
    cases hss'
    rw [List.append_nil, List.append_nil, h]
  · obtain ⟨_, happend⟩ := parseStmts_append (endOf ls) (endOf ls') hmore 0 ls hss hss'
    exact parse_eq_ok.2 ⟨_, by rw [endOf_append ls hls]; exact happend⟩

/-- An `if` at the end of one file, where an `else` could follow, before the statements of another. -/
theorem parse_append_files :
    ∃ ls ls' ss ss', parse ls = .ok ss ∧ parse ls' = .ok ss' ∧ parse (ls ++ ls') = .ok (ss ++ ss') ∧
      (ss ++ ss').map Stmt.location = [⟨1, "a.bt"⟩, ⟨2, "a.bt"⟩, ⟨1, "b.bt"⟩] := by
  let ls : List Lexeme := [⟨.keyword .kwVar, ⟨1, "a.bt"⟩⟩, ⟨.name "x", ⟨1, "a.bt"⟩⟩,
    ⟨.symbol .assign, ⟨1, "a.bt"⟩⟩, ⟨.int 1, ⟨1, "a.bt"⟩⟩, ⟨.keyword .kwIf, ⟨2, "a.bt"⟩⟩,
    ⟨.name "x", ⟨2, "a.bt"⟩⟩, ⟨.symbol .openBrace, ⟨2, "a.bt"⟩⟩, ⟨.symbol .closeBrace, ⟨2, "a.bt"⟩⟩]
  let ls' : List Lexeme := [⟨.name "x", ⟨1, "b.bt"⟩⟩, ⟨.symbol .assign, ⟨1, "b.bt"⟩⟩,
    ⟨.name "x", ⟨2, "b.bt"⟩⟩, ⟨.symbol .minus, ⟨2, "b.bt"⟩⟩, ⟨.int 2, ⟨2, "b.bt"⟩⟩]
  obtain ⟨ss, hss, hlocations⟩ : ∃ ss, parse ls = .ok ss ∧
      ss.map Stmt.location = [⟨1, "a.bt"⟩, ⟨2, "a.bt"⟩] := ⟨_, by cbv, rfl⟩
  obtain ⟨ss', hss', hlocations'⟩ : ∃ ss', parse ls' = .ok ss' ∧
      ss'.map Stmt.location = [⟨1, "b.bt"⟩] := ⟨_, by cbv, rfl⟩
  refine ⟨ls, ls', ss, ss', hss, hss', parse_append hss hss' ?_, ?_⟩
  · rintro _ ⟨⟩
    rfl
  · rw [List.map_append, hlocations, hlocations']
    rfl

end TickScript.Parser
