import TickScript.Proofs.Syntax.Expressions

/-!
# Printed scripts are read back

Reading the tokens of a script gives the script again, up to locations, as long as no count passes the
limit of nesting; otherwise it is refused for its nesting and for nothing else
(`Parser.parse_tokensAll`).

Nothing separates statements. One that ends in an expression ends where the next token cannot go on
with it, and an `if` without an `else` where the next token is no `else` (`Stmt.EndsAt`).
-/

namespace TickScript

open TickScript.Parser

variable {eof : Location} {d : Nat} {ls mid rest : List Lexeme}

/-! ## Parameters -/

/-- Written parameters are read back. -/
theorem reads_parseParams {params : List String}
    (hls : Spells (paramTokens params ++ [.symbol .closeParen]) ls rest) :
    Reads (parseParams eof ls) 0 (· = params) rest := by
  induction params generalizing ls with
  | nil =>
    obtain ⟨loc, mid, rfl, rfl⟩ := hls
    rw [parseParams, take?_self]
    exact .done _ rfl
  | cons s params ih =>
    obtain ⟨loc, mid, rfl, hmid⟩ := hls
    obtain ⟨mid', hsep, hmid'⟩ := exists_reads_separator eof (by decide) hmid
    rw [parseParams, take?_eq_none (by simp)]
    refine (reads_expectName ..).next fun s' _ hs' => ?_
    refine hsep.next fun _ _ _ => ?_
    refine (ih hmid').map fun more _ hmore => ?_
    exact .done _ (by rw [hs', hmore])

namespace Stmt

/-! ## Where statements end -/

/-- Input at which a statement is complete. -/
def EndsAt (s : Stmt) : List Lexeme → Prop
  | [] => True
  | l :: _ => l.token ≠ .keyword .kwElse ∧
    (s.endsOpen = true → follower? l.token = none ∧ l.token ≠ .symbol .assign)

/-- Behind a statement that ends in an expression comes nothing that takes the expression in. -/
theorem EndsAt.stops {s : Stmt} (h : s.EndsAt rest) (hopen : s.endsOpen = true) : Stops 0 rest := by
  cases rest with
  | nil => trivial
  | cons l rest => exact stops_of_none (h.2 hopen).1

/-- Input at which a list of statements is complete. -/
def AtEnd (ls : List Lexeme) : Prop := (ls.isEmpty || (take? .closeBrace ls).isSome) = true

theorem atEnd_nil : AtEnd [] := rfl

/-- Every statement may stand at the end of its block. -/
theorem endsAt_of_atEnd (s : Stmt) (h : AtEnd rest) : s.EndsAt rest := by
  match rest, h with
  | [], _ => trivial
  | ⟨.symbol s', _⟩ :: _, h =>
    by_cases hs : s' = .closeBrace
    · subst hs
      exact ⟨by simp, fun _ => ⟨rfl, by simp⟩⟩
    · rw [AtEnd, take?_eq_none (by simpa using hs)] at h
      cases h

/-- One statement, as it is read before any input at which it is complete. -/
def Legible (eof : Location) (s : Stmt) : Prop :=
  ∀ ⦃d : Nat⦄ ⦃ls rest : List Lexeme⦄, d ≤ maxNesting → s.EndsAt rest → Spells s.tokens ls rest →
    Reads (parseStmt eof d ls) (d + s.levels) (·.unlocated = s.unlocated) rest

/-- Statements, as they are read before a closing brace or the end. -/
def LegibleAll (eof : Location) (ss : List Stmt) : Prop :=
  ∀ ⦃d : Nat⦄ ⦃ls rest : List Lexeme⦄, d ≤ maxNesting → AtEnd rest → Spells (tokensAll ss) ls rest →
    Reads (parseStmts eof d ls) (d + levelsAll ss) (unlocatedAll · = unlocatedAll ss) rest

/-! ## Statements that are or begin with an expression -/

/-- No keyword that makes a statement starts an expression. -/
theorem opening?_of_spells {e : Expr} {least : Nat} {k : Keyword} {loc : Location}
    (hls : Spells (e.tokens least) (⟨.keyword k, loc⟩ :: ls) mid) :
    (opening? (.keyword k)).isSome = true := by
  obtain ⟨t, ts, htokens, ht⟩ := e.exists_tokens_eq_cons least
  rw [htokens] at hls
  obtain ⟨_, _, heq, -⟩ := hls
  cases heq
  exact ht

/-- An assignment is read back. -/
theorem legible_assign {target value : Expr} (htarget : target.Legible eof)
    (hvalue : value.Legible eof) (loc : Location) : (assign loc target value).Legible eof := by
  intro d ls rest hd hends hls
  obtain ⟨_, hfirst, loc', _, rfl, hsecond⟩ := spells_append.1 hls
  unfold parseStmt
  split
  case h_10 =>
    rw [levels, ← Nat.add_max_add_left]
    refine (htarget.whole (stops_of_none rfl) hfirst).bind fun target' _ htarget' _ => ?_
    refine (hvalue.whole (hends.stops rfl) hsecond).map fun value' _ hvalue' => ?_
    exact .done _ (by rw [unlocated, unlocated, htarget', hvalue'])
  all_goals cases opening?_of_spells hfirst

/-- An expression on a line of its own is read back. -/
theorem legible_expr {value : Expr} (h : value.Legible eof) (loc : Location) :
    (expr loc value).Legible eof := by
  intro d ls rest hd hends hls
  have hfirst : Spells (value.tokens 0) ls rest := hls
  unfold parseStmt
  split
  case h_10 =>
    refine (h.whole (hends.stops rfl) hfirst).map fun value' hlt hvalue' => ?_
    dsimp only
    split
    · exact absurd rfl (hends.2 rfl).2
    · exact .done _ (by rw [unlocated, unlocated, hvalue'])
  all_goals cases opening?_of_spells hfirst

/-! ## Blocks -/

/-- A block of statements that can be read back is read back, one level further in. -/
theorem reads_parseBlock {ss : List Stmt} (h : LegibleAll eof ss)
    (hls : Spells (braced (tokensAll ss)) ls rest) :
    Reads (parseBlock eof d ls) (d + (levelsAll ss + 1)) (unlocatedAll · = unlocatedAll ss) rest := by
  obtain ⟨_, _, rfl, hbody⟩ := hls
  obtain ⟨_, hinner, _, _, rfl, rfl⟩ := spells_append.1 hbody
  rw [parseBlock]
  refine (reads_expect ..).next fun _ _ _ => ?_
  refine Reads.cast (Reads.nest fun hd => ?_) (m := max (d + 1) (d + 1 + levelsAll ss)) (by omega)
  refine (h hd (by rw [AtEnd, take?_self]; rfl) hinner).map fun body _ hbody => ?_
  refine (reads_expect ..).map fun _ _ _ => ?_
  exact .done _ hbody

/-- What stands after the first block of an `if`. A single `if` there is not put in braces, but it
counts a level all the same. -/
theorem reads_parseElse {loc : Location} {cond : Expr} {yes no : List Stmt} (hall : LegibleAll eof no)
    (hno : ∀ s ∈ no, s.Legible eof) (hd : d ≤ maxNesting) (hends : (branch loc cond yes no).EndsAt rest)
    (hls : Spells (elseTokens no (tokensAll no)) ls rest) :
    Reads (parseElse eof d ls) (d + if no.isEmpty then 0 else levelsAll no + 1)
      (unlocatedAll · = unlocatedAll no) rest := by
  unfold elseTokens at hls
  split at hls
  next =>
    obtain rfl : ls = rest := hls
    rw [parseElse]
    · exact .ok _ hd rfl
    · rintro loc rest rfl
      exact hends.1 rfl
  next loc' cond' yes' no' =>
    -- the chained `if` ends where the whole statement does
    obtain ⟨_, ts, rfl, hchained⟩ := hls
    rw [tokensAll, tokensAll, List.append_nil] at hchained
    have hread : d < maxNesting → Reads (parseStmt eof (d + 1) ts)
        (d + 1 + (branch loc' cond' yes' no').levels) _ rest :=
      fun hd => hno _ (List.mem_singleton_self _) hd hends hchained
    obtain ⟨_, _, rfl, -⟩ := hchained
    rw [parseElse]
    refine Reads.cast (Reads.nest fun hd => (hread hd).map fun s _ hs => ?_)
      (by simp only [List.isEmpty_cons, levelsAll, Bool.false_eq_true, if_false]; omega)
    exact .done _ (by rw [unlocatedAll, unlocatedAll, hs]; rfl)
  next no _ hne _ =>
    obtain ⟨_, _, rfl, hblock⟩ := hls
    have hread := reads_parseBlock (d := d) hall hblock
    obtain ⟨_, _, rfl, -⟩ := hblock
    rw [parseElse]
    · rw [List.isEmpty_eq_false_iff.2 hne]
      exact hread.map fun ss _ hss => .done _ hss
    · intro loc rest heq
      cases heq

theorem legible_loop {body : List Stmt} (h : LegibleAll eof body) (loc : Location) :
    (loop loc body).Legible eof := by
  intro d ls rest _ _ hls
  obtain ⟨_, _, rfl, hls⟩ := hls
  rw [parseStmt, levels]
  refine (reads_parseBlock h hls).map fun body' _ hbody' => ?_
  exact .done _ (by rw [unlocated, unlocated, hbody'])

theorem legible_tick {body : List Stmt} (h : LegibleAll eof body) (loc : Location) :
    (tick loc body).Legible eof := by
  intro d ls rest _ _ hls
  obtain ⟨_, _, rfl, hls⟩ := hls
  rw [parseStmt, levels]
  refine (reads_parseBlock h hls).map fun body' _ hbody' => ?_
  exact .done _ (by rw [unlocated, unlocated, hbody'])

/-- A loop with a condition is read back. -/
theorem legible_whileLoop {cond : Expr} {body : List Stmt} (hcond : cond.Legible eof)
    (hbody : LegibleAll eof body) (loc : Location) : (whileLoop loc cond body).Legible eof := by
  intro d ls rest _ _ hls
  obtain ⟨_, _, rfl, hls⟩ := hls
  obtain ⟨mid, hfirst, hsecond⟩ := spells_append.1 hls
  have hstops : Stops 0 mid := by
    obtain ⟨_, _, rfl, -⟩ := hsecond
    exact stops_of_none rfl
  rw [parseStmt, levels, ← Nat.add_max_add_left]
  refine (hcond.whole hstops hfirst).bind fun cond' _ hcond' _ => ?_
  refine (reads_parseBlock hbody hsecond).map fun body' _ hbody' => ?_
  exact .done _ (by rw [unlocated, unlocated, hcond', hbody'])

/-- A branch is read back with its alternative. -/
theorem legible_branch {cond : Expr} {yes no : List Stmt} (hcond : cond.Legible eof)
    (hyes : LegibleAll eof yes) (hall : LegibleAll eof no) (hno : ∀ s ∈ no, s.Legible eof)
    (loc : Location) : (branch loc cond yes no).Legible eof := by
  intro d ls rest hd hends hls
  obtain ⟨_, _, rfl, hls⟩ := hls
  obtain ⟨mid, hfirst, hsecond⟩ := spells_append.1 hls
  obtain ⟨mid', hblock, helse⟩ := spells_append.1 hsecond
  have hstops : Stops 0 mid := by
    obtain ⟨_, _, rfl, -⟩ := hblock
    exact stops_of_none rfl
  rw [parseStmt, levels, ← Nat.add_max_add_left, ← Nat.add_max_add_left]
  refine (hcond.whole hstops hfirst).bind fun cond' _ hcond' _ => ?_
  refine (reads_parseBlock hyes hblock).bind fun yes' _ hyes' _ => ?_
  refine (reads_parseElse hall hno hd hends helse).map fun no' _ hno' => ?_
  exact .done _ (by rw [unlocated, unlocated, hcond', hyes', hno'])

/-- A function is read back. -/
theorem legible_function {body : List Stmt} (h : LegibleAll eof body) (loc : Location)
    (declared : String) (params : List String) : (function loc declared params body).Legible eof := by
  intro d ls rest _ _ hls
  obtain ⟨_, _, rfl, _, _, rfl, _, _, rfl, hls⟩ := hls
  rw [List.append_cons] at hls
  obtain ⟨mid, hparams, hbody⟩ := spells_append.1 hls
  rw [parseStmt, levels]
  refine (reads_expectName ..).next fun s _ hs => ?_
  refine (reads_expect ..).next fun _ _ _ => ?_
  refine (reads_parseParams hparams).next fun params' _ hparams' => ?_
  refine (reads_parseBlock h hbody).map fun body' _ hbody' => ?_
  exact .done _ (by rw [unlocated, unlocated, hs, hparams', hbody'])

/-! ## Other statements -/

theorem legible_continueLoop (loc : Location) : (continueLoop loc).Legible eof := by
  intro d ls rest hd _ hls
  obtain ⟨_, _, rfl, rfl⟩ := hls
  rw [parseStmt]
  exact .ok _ hd rfl

theorem legible_breakLoop (loc : Location) : (breakLoop loc).Legible eof := by
  intro d ls rest hd _ hls
  obtain ⟨_, _, rfl, rfl⟩ := hls
  rw [parseStmt]
  exact .ok _ hd rfl

theorem legible_giveBack {value : Expr} (h : value.Legible eof) (loc : Location) :
    (giveBack loc value).Legible eof := by
  intro d ls rest _ hends hls
  obtain ⟨_, _, rfl, hls⟩ := hls
  rw [parseStmt, levels]
  refine (h.whole (hends.stops rfl) hls).map fun value' _ hvalue' => ?_
  exact .done _ (by rw [unlocated, unlocated, hvalue'])

/-- A declaration is read back. -/
theorem legible_declare {value : Expr} (h : value.Legible eof) (loc : Location) (declared : String) :
    (declare loc declared value).Legible eof := by
  intro d ls rest _ hends hls
  obtain ⟨_, _, rfl, _, _, rfl, _, _, rfl, hls⟩ := hls
  rw [parseStmt, levels]
  refine (reads_expectName ..).next fun s _ hs => ?_
  refine (reads_expect ..).next fun _ _ _ => ?_
  refine (h.whole (hends.stops rfl) hls).map fun value' _ hvalue' => ?_
  exact .done _ (by rw [unlocated, unlocated, hs, hvalue'])

/-! ## Statements after one another -/

/-- A token that starts a statement: it ends no list, and if it goes on with a statement before it, it
is one of those that join expressions. -/
structure Starts (t : Token) : Prop where
  ne_closeBrace : t ≠ .symbol .closeBrace
  ne_else : t ≠ .keyword .kwElse
  ne_assign : t ≠ .symbol .assign
  follower : t.joins = false → follower? t = none

theorem starts_of_opening {t : Token} (ht : (opening? t).isSome = true) : Starts t where
  ne_closeBrace := by
    rintro rfl
    cases ht
  ne_else := by
    rintro rfl
    cases ht
  ne_assign := by
    rintro rfl
    cases ht
  follower hjoins := by
    cases t with
    | keyword k => cases k <;> simp_all [opening?, follower?]
    | symbol s => cases s <;> simp_all [opening?, follower?, Token.joins]
    | _ => rfl

/-- Every statement begins with a token that may start one. -/
theorem exists_tokens_eq_cons (s : Stmt) : ∃ t ts, s.tokens = t :: ts ∧ Starts t := by
  have hexpr : ∀ e : Expr, ∃ t ts, e.tokens 0 = t :: ts ∧ Starts t := fun e =>
    let ⟨t, ts, h, ht⟩ := e.exists_tokens_eq_cons 0
    ⟨t, ts, h, starts_of_opening ht⟩
  cases s with
  | assign loc target value =>
    obtain ⟨t, ts, h, ht⟩ := hexpr target
    rw [tokens, h]
    exact ⟨t, _, rfl, ht⟩
  | expr loc value => exact hexpr value
  | _ => exact ⟨_, _, rfl, by simp, by simp, by simp, fun _ => rfl⟩

/-- A statement ends before the start of another one that it does not join. -/
theorem Starts.endsAt {t : Token} (ht : Starts t) {s : Stmt} (hs : s.endsOpen = true → t.joins = false)
    (loc : Location) (ls : List Lexeme) : s.EndsAt (⟨t, loc⟩ :: ls) :=
  ⟨ht.ne_else, fun hopen => ⟨ht.follower (hs hopen), ht.ne_assign⟩⟩

/-- A statement ends where the next one starts. -/
theorem endsAt_of_spells {s : Stmt} {ss : List Stmt} (hjoins : (s.endsOpen && ss.head?.any joins) = false)
    (hend : AtEnd rest) (hls : Spells (tokensAll ss) ls rest) : s.EndsAt ls := by
  cases ss with
  | nil =>
    obtain rfl : ls = rest := hls
    exact endsAt_of_atEnd s hend
  | cons s' ss =>
    obtain ⟨t, ts, htokens, ht⟩ := s'.exists_tokens_eq_cons
    rw [tokensAll, htokens] at hls
    obtain ⟨loc, mid, rfl, -⟩ := hls
    refine ht.endsAt (fun hopen => ?_) loc mid
    simpa [hopen, joins, htokens] using hjoins

/-- Statements that can be read back one by one are read back as a list. -/
theorem legibleAll_of_forall {ss : List Stmt} (hss : ∀ s ∈ ss, s.Legible eof)
    (hprintable : printableAll ss = true) : LegibleAll eof ss := by
  induction ss with
  | nil =>
    intro d ls rest hd hend hls
    obtain rfl : ls = rest := hls
    rw [AtEnd] at hend
    rw [parseStmts, if_pos hend]
    exact .ok _ hd rfl
  | cons s ss ih =>
    intro d ls rest hd hend hls
    simp only [printableAll, Bool.and_eq_true, Bool.not_eq_true'] at hprintable
    obtain ⟨⟨-, hjoins⟩, hmore⟩ := hprintable
    obtain ⟨mid, hfirst, hsecond⟩ := spells_append.1 hls
    have hread := hss s (List.mem_cons_self ..) hd (endsAt_of_spells hjoins hend hsecond) hfirst
    have hstart : ¬(ls.isEmpty || (take? .closeBrace ls).isSome) = true := by
      obtain ⟨t, ts, htokens, ht⟩ := s.exists_tokens_eq_cons
      rw [htokens] at hfirst
      obtain ⟨loc, mid, rfl, -⟩ := hfirst
      rw [take?_eq_none ht.ne_closeBrace]
      exact Bool.false_ne_true
    rw [parseStmts, if_neg hstart, levelsAll, ← Nat.add_max_add_left]
    refine hread.bind fun s' _ hs' _ => ?_
    refine (ih (fun s hs => hss s (List.mem_cons_of_mem _ hs)) hmore hd hend hsecond).map
      fun ss' _ hss' => ?_
    exact .done _ (by rw [unlocatedAll, unlocatedAll, hs', hss'])

/-! ## Every statement -/

mutual

/-- Every statement that can be printed is read back. -/
theorem legible (s : Stmt) (h : s.printable = true) : s.Legible eof := by
  cases s with
  | assign loc target value =>
    obtain ⟨htarget, hvalue⟩ := Bool.and_eq_true_iff.1 h
    exact legible_assign (target.legible htarget) (value.legible hvalue) loc
  | branch loc cond yes no =>
    obtain ⟨hfirst, hno⟩ := Bool.and_eq_true_iff.1 h
    obtain ⟨hcond, hyes⟩ := Bool.and_eq_true_iff.1 hfirst
    exact legible_branch (cond.legible hcond) (legibleAll_of_forall (legible_all yes hyes) hyes)
      (legibleAll_of_forall (legible_all no hno) hno) (legible_all no hno) loc
  | loop loc body =>
    exact legible_loop (legibleAll_of_forall (legible_all body h) h) loc
  | tick loc body =>
    exact legible_tick (legibleAll_of_forall (legible_all body h) h) loc
  | whileLoop loc cond body =>
    obtain ⟨hcond, hbody⟩ := Bool.and_eq_true_iff.1 h
    exact legible_whileLoop (cond.legible hcond)
      (legibleAll_of_forall (legible_all body hbody) hbody) loc
  | continueLoop loc => exact legible_continueLoop loc
  | breakLoop loc => exact legible_breakLoop loc
  | giveBack loc value => exact legible_giveBack (value.legible h) loc
  | declare loc declared value => exact legible_declare (value.legible h) loc declared
  | function loc declared params body =>
    exact legible_function (legibleAll_of_forall (legible_all body h) h) loc declared params
  | expr loc value => exact legible_expr (value.legible h) loc

theorem legible_all (ss : List Stmt) (h : printableAll ss = true) : ∀ s ∈ ss, s.Legible eof := by
  cases ss with
  | nil => exact fun _ hs => nomatch hs
  | cons s ss =>
    obtain ⟨hfirst, hss⟩ := Bool.and_eq_true_iff.1 h
    obtain ⟨hs, -⟩ := Bool.and_eq_true_iff.1 hfirst
    exact List.forall_mem_cons.2 ⟨s.legible hs, legible_all ss hss⟩

end

end Stmt

/-! ## Scripts -/

namespace Parser

/-- A printed script is read back, whatever the locations of its tokens. -/
theorem reads_tokensAll {ss : List Stmt} {ls : List Lexeme} (h : Stmt.printableAll ss = true)
    (hls : ls.map Lexeme.token = Stmt.tokensAll ss) (eof : Location) :
    Reads (parseStmts eof 0 ls) (Stmt.levelsAll ss)
      (Stmt.unlocatedAll · = Stmt.unlocatedAll ss) [] := by
  have hspells : Spells (Stmt.tokensAll ss) ls [] := hls ▸ spells_map ls
  exact (Stmt.legibleAll_of_forall (Stmt.legible_all ss h) h (Nat.zero_le _) Stmt.atEnd_nil
    hspells).cast (Nat.zero_add _)

/-- A printed script within the levels is accepted and is the script up to its locations. -/
theorem exists_parse_eq_ok (ss : List Stmt) (ls : List Lexeme) (h : Stmt.printableAll ss = true)
    (hls : ls.map Lexeme.token = Stmt.tokensAll ss) (hle : Stmt.levelsAll ss ≤ maxNesting) :
    ∃ ss', parse ls = .ok ss' ∧ Stmt.unlocatedAll ss' = Stmt.unlocatedAll ss := by
  obtain ⟨ss', hlt, hparse, hss'⟩ := (reads_tokensAll h hls (endOf ls)).accepts hle
  refine ⟨ss', ?_, hss'⟩
  rw [parse, hparse]
  rfl

/-- **Reading undoes printing.** The tokens of a printable script are read as the script, wherever they
stand, unless its levels are past the limit; then they are refused for that. -/
theorem parse_tokensAll (ss : List Stmt) (ls : List Lexeme) (h : Stmt.printableAll ss = true)
    (hls : ls.map Lexeme.token = Stmt.tokensAll ss) :
    (Stmt.levelsAll ss ≤ maxNesting →
      ∃ ss', parse ls = .ok ss' ∧ Stmt.unlocatedAll ss' = Stmt.unlocatedAll ss) ∧
    (maxNesting < Stmt.levelsAll ss → ∃ loc, parse ls = .error ⟨.nestedTooDeep, loc⟩) := by
  refine ⟨exists_parse_eq_ok ss ls h hls, fun hlt => ?_⟩
  obtain ⟨loc, hparse⟩ := (reads_tokensAll h hls (endOf ls)).refuses hlt
  refine ⟨loc, ?_⟩
  rw [parse, hparse]
  rfl

/-- `if not a and b { return (x - (y - z)) * -v.f } else if c == (1, 2).0 { }`: parentheses stand where a
lesser power or the right side asks for them, and nowhere else. -/
theorem parse_tokensAll_branching :
    ∃ ss', parse ([.keyword .kwIf, .keyword .kwNot, .name "a", .keyword .kwAnd, .name "b",
        .symbol .openBrace, .keyword .kwReturn, .symbol .openParen, .name "x", .symbol .minus,
        .symbol .openParen, .name "y", .symbol .minus, .name "z", .symbol .closeParen,
        .symbol .closeParen, .symbol .star, .symbol .minus, .name "v", .symbol .dot, .name "f",
        .symbol .closeBrace, .keyword .kwElse, .keyword .kwIf, .name "c", .symbol .equal,
        .symbol .openParen, .int 1, .symbol .comma, .int 2, .symbol .closeParen, .symbol .dot, .int 0,
        .symbol .openBrace, .symbol .closeBrace].map (⟨·, ⟨1, "main.bt"⟩⟩)) = .ok ss' ∧
      Stmt.unlocatedAll ss' = Stmt.unlocatedAll
        [.branch default
          (.binary default .and (.unary default .not (.name default "a")) (.name default "b"))
          [.giveBack default
            (.binary default .mul
              (.binary default .sub (.name default "x")
                (.binary default .sub (.name default "y") (.name default "z")))
              (.unary default .negate (.objectMember default (.name default "v") "f")))]
          [.branch default
            (.binary default .equal (.name default "c")
              (.tupleMember default (.tuple default [.int default 1, .int default 2]) 0)) [] []]] :=
  (parse_tokensAll _ _ (by rfl) (by rfl)).1 (by decide)

end Parser

end TickScript
