import Mathlib
import TickScript.Proofs.Success
import TickScript.Proofs.Syntax.Printing

/-!
# Trees list what was read

A token that is not mere punctuation is a **word**: it names, states or does something, and it stands in
the tree. The **listing** of a tree goes through it in the order of the script. Whatever the parser
accepts, be it spelled with more parentheses, commas or `else` than the tree needs, its words are the
listing of what came out (`Parser.words_eq_listingAll`): no word is dropped, made up or moved.

A reader takes words off the front of its input, and the value it comes to lists just those
(`Parser.Lists`). The proofs recurse as the readers do, one for each of them.
-/

namespace TickScript

/-! ## Words -/

/-- Whether the token only groups and separates others. -/
def Token.punctuates : Token → Bool
  | .symbol .openParen | .symbol .closeParen | .symbol .openBracket | .symbol .closeBracket
  | .symbol .openBrace | .symbol .closeBrace | .symbol .comma | .symbol .dot | .symbol .assign
  | .keyword .kwElse => true
  | _ => false

/-- The words of the input. -/
def words (ls : List Lexeme) : List Token := (ls.map Lexeme.token).filter (!·.punctuates)

theorem words_nil : words [] = [] := rfl

/-- Punctuation is no word. -/
theorem words_cons_of_punctuates {t : Token} {loc : Location} {ls : List Lexeme}
    (h : t.punctuates = true) : words (⟨t, loc⟩ :: ls) = words ls := by
  rw [words, List.map_cons, List.filter_cons_of_neg (by rw [h]; decide), words]

theorem words_cons {t : Token} {loc : Location} {ls : List Lexeme} (h : t.punctuates = false) :
    words (⟨t, loc⟩ :: ls) = t :: words ls := by
  rw [words, List.map_cons, List.filter_cons_of_pos (by rw [h]; decide), words]

/-! ## Listings -/

mutual

/-- The words of an expression from left to right. -/
def Expr.listing : Expr → List Token
  | .name _ s => [.name s]
  | .null _ => [.keyword .kwNull]
  | .int _ n => [.int n]
  | .float _ x => [.float x]
  | .text _ s => [.text s]
  | .tuple _ items | .array _ items => listingItems items
  | .object _ members => listingMembers members
  | .call _ callee args => .name callee :: listingItems args
  | .tupleMember _ base index => base.listing ++ [.int (Int64.ofNat index.toNat)]
  | .objectMember _ base member => base.listing ++ [.name member]
  | .element _ base index => base.listing ++ index.listing
  | .unary _ op operand => op.token :: operand.listing
  | .binary _ op left right => left.listing ++ op.token :: right.listing

/-- The words of expressions. -/
def Expr.listingItems : List Expr → List Token
  | [] => []
  | e :: es => e.listing ++ listingItems es

/-- The words of an object's members. -/
def Expr.listingMembers : List (String × Expr) → List Token
  | [] => []
  | (s, e) :: more => .name s :: (e.listing ++ listingMembers more)

end

mutual

/-- The words of a statement from left to right. -/
def Stmt.listing : Stmt → List Token
  | .assign _ target value => target.listing ++ value.listing
  | .branch _ cond yes no => .keyword .kwIf :: (cond.listing ++ (listingAll yes ++ listingAll no))
  | .loop _ body => .keyword .kwLoop :: listingAll body
  | .tick _ body => .keyword .kwTick :: listingAll body
  | .whileLoop _ cond body => .keyword .kwWhile :: (cond.listing ++ listingAll body)
  | .continueLoop _ => [.keyword .kwContinue]
  | .breakLoop _ => [.keyword .kwBreak]
  | .giveBack _ value => .keyword .kwReturn :: value.listing
  | .declare _ declared value => .keyword .kwVar :: .name declared :: value.listing
  | .function _ declared params body =>
    .keyword .kwFun :: .name declared :: (params.map .name ++ listingAll body)
  | .expr _ value => value.listing

/-- The words of statements. -/
def Stmt.listingAll : List Stmt → List Token
  | [] => []
  | s :: ss => s.listing ++ listingAll ss

end

namespace Parser

/-! ## What a reader lists -/

/-- Of the words `before` a reader leaves those of the rest, and its value lists the others. -/
def Lists {α : Type} {bound : Nat} (before : List Token) (listing : α → List Token)
    (r : Except Diagnostic (Read α bound)) : Prop :=
  ∀ x, r = .ok x → before = listing x.value ++ words x.rest

section Lists

variable {α β : Type} {a b : Nat} {before before' : List Token} {f : α → List Token}
  {g : β → List Token}

/-- What was read lists its words if they come before those that are left. -/
theorem Lists.ok {v : α} {rest : List Lexeme} (h : rest.length < a)
    (hlists : before = f v ++ words rest) : Lists before f (.ok ⟨v, rest, h⟩) := by
  rintro x ⟨⟩
  exact hlists

theorem Lists.error (d : Diagnostic) : Lists before f (.error d : Except Diagnostic (Read α a)) :=
  fun _ h => nomatch h

/-- What is made of a part goes on where the part left off. -/
theorem Lists.bind {r : Except Diagnostic (Read α a)} {k : Read α a → Except Diagnostic (Read β b)}
    (h : Lists before f r)
    (hk : ∀ v rest hlt, before = f v ++ words rest → Lists before' g (k ⟨v, rest, hlt⟩)) :
    Lists before' g (r >>= k) := by
  cases r with
  | error e => exact .error e
  | ok x => exact hk x.value x.rest x.shorter (h x rfl)

/-- A reader whose value lists nothing has only read punctuation. -/
theorem Lists.skip {r : Except Diagnostic (Read α a)} {k : Read α a → Except Diagnostic (Read β b)}
    (h : Lists before (fun _ => []) r)
    (hk : ∀ v rest hlt, before = words rest → Lists before' g (k ⟨v, rest, hlt⟩)) :
    Lists before' g (r >>= k) := h.bind hk

/-- What is computed without reading. -/
theorem Lists.after {γ : Type} {r : Except Diagnostic γ} {k : γ → Except Diagnostic (Read β b)}
    (hk : ∀ x, r = .ok x → Lists before g (k x)) : Lists before g (r >>= k) := by
  cases r with
  | error e => exact .error e
  | ok x => exact hk x rfl

/-- Reading one level further in lists what is read there. -/
theorem Lists.nest {eof : Location} {ts : List Lexeme} {d : Nat} {r : Except Diagnostic (Read α a)}
    (h : Lists before f r) :
    Lists before f (if maxNesting ≤ d then refuse eof ts .nestedTooDeep else r) := by
  split
  · exact .error _
  · exact h

end Lists

/-! ## Single tokens -/

/-- Taking punctuation leaves the words as they are. -/
theorem words_of_take? {s : Symbol} (hs : (Token.symbol s).punctuates = true) {ts : List Lexeme}
    {x : Read Unit ts.length} (h : take? s ts = some x) : words ts = words x.rest := by
  unfold take? at h
  split at h
  · split at h
    next heq =>
      cases h
      exact words_cons_of_punctuates (heq ▸ hs)
    next => cases h
  · cases h

theorem lists_expect {s : Symbol} (hs : (Token.symbol s).punctuates = true) (eof : Location)
    (cause : Cause) (ts : List Lexeme) : Lists (words ts) (fun _ => []) (expect eof s cause ts) := by
  unfold expect
  split
  next hx => exact .ok _ (words_of_take? hs hx)
  next => exact .error _

theorem lists_expectName (eof : Location) (cause : Cause) (ts : List Lexeme) :
    Lists (words ts) (fun s => [.name s]) (expectName eof cause ts) := by
  unfold expectName
  split
  · exact .ok _ (words_cons rfl)
  · exact .error _

theorem lists_separator (eof : Location) (close : Symbol) (ts : List Lexeme) :
    Lists (words ts) (fun _ => []) (separator eof close ts) := by
  unfold separator
  split
  next hx => exact .ok _ (words_of_take? rfl hx)
  next =>
    split
    · exact .ok _ rfl
    · exact .error _

/-- Parameters are the names that were read. -/
theorem lists_parseParams (eof : Location) (ts : List Lexeme) :
    Lists (words ts) (List.map .name) (parseParams eof ts) := by
  rw [parseParams]
  split
  next hx => exact .ok _ (words_of_take? rfl hx)
  next =>
    refine (lists_expectName eof _ ts).bind fun s rest₁ h₁ hname => ?_
    refine (lists_separator eof _ rest₁).skip fun _ rest₂ h₂ hcomma => ?_
    refine (lists_parseParams eof rest₂).bind fun params rest₃ h₃ hparams => .ok _ ?_
    rw [hname, hcomma, hparams]
    rfl
termination_by ts.length

/-- An index that a tuple can have is written in one way only. -/
theorem ofNat_of_tupleIndex? {n : Int64} {index : UInt32} (h : tupleIndex? n = some index) :
    Int64.ofNat index.toNat = n := by
  unfold tupleIndex? at h
  split at h
  next hn =>
    cases h
    have hsmall : n.toInt.toNat < UInt32.size := by
      change _ < 4294967296
      omega
    rw [UInt32.toNat_ofNat_of_lt' hsmall, ← Int64.toInt_inj, Int64.toInt_ofNat_of_lt (by omega)]
    omega
  next => cases h

/-- Taking a member lists the expression and then what names the member. -/
theorem lists_parseMember (eof : Location) (acc : Expr) (loc : Location) (ts : List Lexeme) :
    Lists (acc.listing ++ words ts) Expr.listing (parseMember eof acc loc ts) := by
  unfold parseMember
  split
  · split
    next index hindex =>
      refine .ok _ ?_
      rw [Expr.listing, ofNat_of_tupleIndex? hindex, words_cons rfl, List.append_assoc]
      rfl
    next => exact .error _
  · refine .ok _ ?_
    rw [Expr.listing, words_cons rfl, List.append_assoc]
    rfl
  · exact .error _

/-! ## Expressions -/

/-- The words at the start of an operand. -/
def Opening.words (loc : Location) : Opening → List Token
  | .leaf make => (make loc).listing
  | .operator _ op => [op.token]
  | .parentheses | .brackets | .braces => []

/-- The token that opens an expression is the word it stands for, if any. -/
theorem words_opening {t : Token} {o : Opening} (h : opening? t = some o) (loc : Location)
    (ls : List Lexeme) : words (⟨t, loc⟩ :: ls) = o.words loc ++ words ls := by
  cases t with
  | keyword k => cases k <;> cases h <;> rfl
  | symbol s => cases s <;> cases h <;> rfl
  | _ =>
    cases h
    rfl

/-- The words of what may follow an operand. -/
def Follower.words : Follower → List Token
  | .operator op => [op.token]
  | .call | .member | .element => []

/-- The token that takes an expression in is the word it stands for, if any. -/
theorem words_follower {t : Token} {p : Nat} {f : Follower} (h : follower? t = some (p, f))
    (loc : Location) (ls : List Lexeme) : words (⟨t, loc⟩ :: ls) = f.words ++ words ls := by
  cases t with
  | symbol s => cases s <;> cases h <;> rfl
  | keyword k => cases k <;> cases h <;> rfl
  | _ => cases h

/-- Parentheses are no words. -/
theorem listing_parenthesized {loc : Location} {es : List Expr} {e : Expr}
    (h : parenthesized loc es = .ok e) : e.listing = Expr.listingItems es := by
  match es, h with
  | [e'], h =>
    cases h
    exact (List.append_nil _).symm
  | e₁ :: e₂ :: es, h =>
    cases h
    rfl

mutual

/-- An expression lists the words it was read from. -/
theorem lists_parseExpr (eof : Location) (d q : Nat) (ts : List Lexeme) :
    Lists (words ts) Expr.listing (parseExpr eof d q ts) := by
  rw [parseExpr]
  refine .nest ((lists_parseValue eof (d + 1) ts).bind fun value rest hlt hvalue => ?_)
  refine (lists_foldExpr eof (d + 1) q value rest).bind fun e _ _ he => .ok _ ?_
  rw [hvalue, he]
termination_by (ts.length, 2)

/-- The operand on the left has been read before, so its words stand in front of those to come. -/
theorem lists_foldExpr (eof : Location) (d q : Nat) (acc : Expr) (ts : List Lexeme) :
    Lists (acc.listing ++ words ts) Expr.listing (foldExpr eof d q acc ts) := by
  match ts with
  | [] =>
    rw [foldExpr]
    exact .ok _ rfl
  | ⟨t, loc⟩ :: rest =>
    rw [foldExpr]
    split
    · exact .ok _ rfl
    next p f hf =>
      split
      · exact .ok _ rfl
      · refine .nest ?_
        refine (lists_parseFollower eof (d + 1) p acc f loc rest).bind fun acc' rest' hlt hacc => ?_
        refine (lists_foldExpr eof (d + 1) q acc' rest').bind fun e _ _ he => .ok _ ?_
        rw [words_follower hf, hacc, he]
termination_by (ts.length, 0)

/-- What takes an expression in lists the expression first. -/
theorem lists_parseFollower (eof : Location) (d p : Nat) (acc : Expr) (f : Follower)
    (loc : Location) (ts : List Lexeme) :
    Lists (acc.listing ++ (f.words ++ words ts)) Expr.listing (parseFollower eof d p acc f loc ts) := by
  unfold parseFollower
  split
  · split
    · refine (lists_parseItems eof d rfl ts).bind fun args _ _ hargs => .ok _ ?_
      rw [hargs]
      rfl
    · exact .error _
  · exact lists_parseMember eof acc loc ts
  · refine (lists_parseExpr eof d 0 ts).bind fun index rest hlt hindex => ?_
    refine (lists_expect rfl eof _ rest).skip fun _ _ _ hclose => .ok _ ?_
    rw [hindex, hclose, Expr.listing, List.append_assoc]
    rfl
  · refine (lists_parseExpr eof d p ts).bind fun right _ _ hright => .ok _ ?_
    rw [hright, Expr.listing, List.append_assoc]
    rfl
termination_by (ts.length, 4)

theorem lists_parseValue (eof : Location) (d : Nat) (ts : List Lexeme) :
    Lists (words ts) Expr.listing (parseValue eof d ts) := by
  match ts with
  | [] =>
    rw [parseValue]
    exact .error _
  | ⟨t, loc⟩ :: rest =>
    rw [parseValue]
    split
    · exact .error _
    next hopening => exact .ok _ (words_opening hopening loc rest)
    next hopening =>
      refine (lists_parseItems eof d rfl rest).bind fun es _ _ hes => .after fun e he => .ok _ ?_
      rw [words_opening hopening, hes, listing_parenthesized he]
      rfl
    next hopening =>
      refine (lists_parseItems eof d rfl rest).bind fun es _ _ hes => .ok _ ?_
      rw [words_opening hopening, hes]
      rfl
    next hopening =>
      refine (lists_parseMembers eof d rest).bind fun members _ _ hmembers => .ok _ ?_
      rw [words_opening hopening, hmembers]
      rfl
    next hopening =>
      refine (lists_parseExpr eof d _ rest).bind fun operand _ _ hoperand => .ok _ ?_
      rw [words_opening hopening, hoperand]
      rfl
termination_by (ts.length, 0)

theorem lists_parseItems (eof : Location) (d : Nat) {close : Symbol}
    (hclose : (Token.symbol close).punctuates = true) (ts : List Lexeme) :
    Lists (words ts) Expr.listingItems (parseItems eof d close ts) := by
  rw [parseItems]
  split
  next hx => exact .ok _ (words_of_take? hclose hx)
  next =>
    refine (lists_parseExpr eof d 0 ts).bind fun e rest₁ h₁ he => ?_
    refine (lists_separator eof close rest₁).skip fun _ rest₂ h₂ hcomma => ?_
    refine (lists_parseItems eof d hclose rest₂).bind fun es _ _ hes => .ok _ ?_
    rw [he, hcomma, hes, Expr.listingItems, List.append_assoc]
termination_by (ts.length, 3)

theorem lists_parseMembers (eof : Location) (d : Nat) (ts : List Lexeme) :
    Lists (words ts) Expr.listingMembers (parseMembers eof d ts) := by
  rw [parseMembers]
  split
  next hx => exact .ok _ (words_of_take? rfl hx)
  next =>
    refine (lists_expectName eof _ ts).bind fun s rest₁ h₁ hname => ?_
    refine (lists_expect rfl eof _ rest₁).skip fun _ rest₂ h₂ hassign => ?_
    refine (lists_parseExpr eof d 0 rest₂).bind fun e rest₃ h₃ he => ?_
    refine (lists_separator eof _ rest₃).skip fun _ rest₄ h₄ hcomma => ?_
    refine (lists_parseMembers eof d rest₄).bind fun more _ _ hmore => .ok _ ?_
    rw [hname, List.singleton_append, hassign, he, hcomma, hmore, Expr.listingMembers,
      List.cons_append, List.append_assoc]
termination_by (ts.length, 3)

end

/-! ## Statements -/

mutual

/-- A statement lists the words it was read from. -/
theorem lists_parseStmt (eof : Location) (d : Nat) (ts : List Lexeme) :
    Lists (words ts) Stmt.listing (parseStmt eof d ts) := by
  unfold parseStmt
  split
  · exact .ok _ (words_cons rfl)
  · exact .ok _ (words_cons rfl)
  · refine (lists_parseExpr eof d 0 _).bind fun value _ _ hvalue => .ok _ ?_
    rw [words_cons rfl, hvalue]
    rfl
  · refine (lists_parseBlock eof d _).bind fun body _ _ hbody => .ok _ ?_
    rw [words_cons rfl, hbody]
    rfl
  · refine (lists_parseBlock eof d _).bind fun body _ _ hbody => .ok _ ?_
    rw [words_cons rfl, hbody]
    rfl
  · refine (lists_parseExpr eof d 0 _).bind fun cond rest hlt hcond => ?_
    refine (lists_parseBlock eof d rest).bind fun body _ _ hbody => .ok _ ?_
    rw [words_cons rfl, hcond, hbody, Stmt.listing, List.cons_append, List.append_assoc]
  · refine (lists_expectName eof _ _).bind fun s rest₁ h₁ hname => ?_
    refine (lists_expect rfl eof _ rest₁).skip fun _ rest₂ h₂ hassign => ?_
    refine (lists_parseExpr eof d 0 rest₂).bind fun value _ _ hvalue => .ok _ ?_
    rw [words_cons rfl, hname, hassign, hvalue]
    rfl
  · refine (lists_parseExpr eof d 0 _).bind fun cond rest₁ h₁ hcond => ?_
    refine (lists_parseBlock eof d rest₁).bind fun yes rest₂ h₂ hyes => ?_
    refine (lists_parseElse eof d rest₂).bind fun no _ _ hno => .ok _ ?_
    rw [words_cons rfl, hcond, hyes, hno, Stmt.listing, List.cons_append, List.append_assoc,
      List.append_assoc]
  · refine (lists_expectName eof _ _).bind fun s rest₁ h₁ hname => ?_
    refine (lists_expect rfl eof _ rest₁).skip fun _ rest₂ h₂ hparen => ?_
    refine (lists_parseParams eof rest₂).bind fun params rest₃ h₃ hparams => ?_
    refine (lists_parseBlock eof d rest₃).bind fun body _ _ hbody => .ok _ ?_
    rw [words_cons rfl, hname, List.singleton_append, hparen, hparams, hbody, Stmt.listing,
      List.cons_append, List.cons_append, List.append_assoc]
  · refine (lists_parseExpr eof d 0 _).bind fun target rest hlt htarget => ?_
    dsimp only
    split
    · refine (lists_parseExpr eof d 0 _).bind fun value _ _ hvalue => .ok _ ?_
      rw [htarget, words_cons_of_punctuates rfl, hvalue, Stmt.listing, List.append_assoc]
    · exact .ok _ htarget
termination_by (ts.length, 3)
decreasing_by
  all_goals
    subst_vars
    simp only [Prod.lex_def, List.length_cons]
    omega

theorem lists_parseElse (eof : Location) (d : Nat) (ts : List Lexeme) :
    Lists (words ts) Stmt.listingAll (parseElse eof d ts) := by
  unfold parseElse
  split
  · split
    · refine .nest ((lists_parseStmt eof (d + 1) _).bind fun s _ _ hs => .ok _ ?_)
      rw [words_cons_of_punctuates rfl, hs, Stmt.listingAll, Stmt.listingAll, List.append_nil]
    · refine (lists_parseBlock eof d _).bind fun no _ _ hno => .ok _ ?_
      rw [words_cons_of_punctuates rfl, hno]
  · exact .ok _ rfl
termination_by (ts.length, 0)
decreasing_by
  all_goals
    subst_vars
    simp only [Prod.lex_def, List.length_cons]
    omega

theorem lists_parseBlock (eof : Location) (d : Nat) (ts : List Lexeme) :
    Lists (words ts) Stmt.listingAll (parseBlock eof d ts) := by
  rw [parseBlock]
  refine (lists_expect rfl eof _ ts).skip fun _ rest hlt hopen => .nest ?_
  refine (lists_parseStmts eof (d + 1) rest).bind fun body rest' hlt' hbody => ?_
  refine (lists_expect rfl eof _ rest').skip fun _ _ _ hclose => .ok _ ?_
  rw [hopen, hbody, hclose]
termination_by (ts.length, 0)

/-- Statements list the words they were read from, in their order. -/
theorem lists_parseStmts (eof : Location) (d : Nat) (ts : List Lexeme) :
    Lists (words ts) Stmt.listingAll (parseStmts eof d ts) := by
  rw [parseStmts]
  split
  · exact .ok _ rfl
  · refine (lists_parseStmt eof d ts).bind fun s rest hlt hs => ?_
    refine (lists_parseStmts eof d rest).bind fun more _ _ hmore => .ok _ ?_
    rw [hs, hmore, Stmt.listingAll, List.append_assoc]
termination_by (ts.length, 4)

end

/-! ## Scripts -/

/-- **Accepted trees list what was read**: every word of the script, once and in its place. -/
theorem words_eq_listingAll {ls : List Lexeme} {ss : List Stmt} (h : parse ls = .ok ss) :
    words ls = Stmt.listingAll ss := by
  obtain ⟨⟨stmts, rest, hlt⟩, hparse, h⟩ := bind_eq_ok.1 h
  have hlists : words ls = Stmt.listingAll stmts ++ words rest :=
    lists_parseStmts (endOf ls) 0 ls _ hparse
  cases rest with
  | nil =>
    cases h
    rw [hlists, words_nil, List.append_nil]
  | cons l rest => cases h

/-- The script `(f)((1), t.0,) if a { } else if not b { x = [-2,] }`, which spells more than its tree
holds. -/
theorem words_eq_listingAll_redundant :
    ∃ ls ss, parse ls = .ok ss ∧ words ls = Stmt.listingAll ss ∧ ls.length = 30 ∧
      words ls = [.name "f", .int 1, .name "t", .int 0, .keyword .kwIf, .name "a", .keyword .kwIf,
        .keyword .kwNot, .name "b", .name "x", .symbol .minus, .int 2] := by
  let ls : List Lexeme := [Token.symbol .openParen, .name "f", .symbol .closeParen, .symbol .openParen,
    .symbol .openParen, .int 1, .symbol .closeParen, .symbol .comma, .name "t", .symbol .dot, .int 0,
    .symbol .comma, .symbol .closeParen, .keyword .kwIf, .name "a", .symbol .openBrace,
    .symbol .closeBrace, .keyword .kwElse, .keyword .kwIf, .keyword .kwNot, .name "b",
    .symbol .openBrace, .name "x", .symbol .assign, .symbol .openBracket, .symbol .minus, .int 2,
    .symbol .comma, .symbol .closeBracket, .symbol .closeBrace].map (⟨·, ⟨1, "main.bt"⟩⟩)
  obtain ⟨ss, hparse⟩ : ∃ ss, parse ls = .ok ss := ⟨_, by cbv⟩
  exact ⟨ls, ss, hparse, words_eq_listingAll hparse, rfl, rfl⟩

end Parser

end TickScript
