import TickScript.Proofs.Success
import TickScript.Proofs.Syntax.Cursor
import TickScript.Proofs.Syntax.Expressions

/-!
# Readers make progress

A reader that moves a cursor comes to what the same reader without a cursor comes to (`Follows`), and the
latter gets by on fewer and fewer lexemes. So what the cursor does is shown by one case for each form and
an induction on the lexemes left: wherever a loop goes round or a reader calls another, a lexeme has been
stepped over. Only behind a list a lexeme is stepped over without a look, and a list that was read leaves
its closing symbol next.

The count comes back to where it was behind everything but a fold, which leaves the levels of its operators
to the expression around it. So only the fold says no more of the count than that it is within its limit,
and the expression puts it back.
-/

namespace TickScript.Parser

namespace Cursor

/-- The cursor is not past the end of the lexemes and has not counted past the limit, now and ever
before. -/
structure Within (tokens : List Lexeme) (c : Cursor) : Prop where
  pos : c.pos ≤ tokens.length
  depth : c.depth ≤ maxNesting
  trail : ∀ p ∈ c.trail, p.1 ≤ tokens.length ∧ p.2 ≤ maxNesting

/-- A cursor may be moved to every place among the tokens. -/
theorem Within.move {tokens : List Lexeme} {c : Cursor} (h : c.Within tokens) {pos depth : Nat}
    (hpos : pos ≤ tokens.length) (hdepth : depth ≤ maxNesting) : (c.move pos depth).Within tokens where
  pos := hpos
  depth := hdepth
  trail := by
    intro p hp
    rcases List.mem_cons.1 hp with rfl | hp
    · exact ⟨hpos, hdepth⟩
    · exact h.trail p hp

theorem within_start (tokens : List Lexeme) : start.Within tokens where
  pos := Nat.zero_le _
  depth := Nat.zero_le _
  trail := by
    intro p hp
    cases List.mem_singleton.1 hp
    exact ⟨Nat.zero_le _, Nat.zero_le _⟩

/-- The cursor stands in front of the lexemes `ts`, with the count at `d`. -/
structure At (tokens : List Lexeme) (c : Cursor) (d : Nat) (ts : List Lexeme) : Prop where
  within : c.Within tokens
  depth : c.depth = d
  rest : tokens.drop c.pos = ts

namespace At

variable {tokens ts rest : List Lexeme} {c : Cursor} {d : Nat} {l : Lexeme}

/-- At a place the cursor tells the location of the first token from there. -/
theorem location (h : At tokens c d ts) : c.location tokens = here (endOf tokens) ts := by
  rw [Cursor.location, h.rest]

theorem next?_nil (h : At tokens c d []) : c.next? tokens = none := by
  rw [next?, ← List.head?_drop, h.rest]
  rfl

theorem next?_cons (h : At tokens c d (l :: rest)) : c.next? tokens = some l.token := by
  rw [next?, ← List.head?_drop, h.rest]
  rfl

/-- Stepping over a lexeme that is there. -/
theorem advance (h : At tokens c d (l :: rest)) : At tokens (c.move (c.pos + 1) c.depth) d rest where
  within := by
    have hlength := congrArg List.length h.rest
    rw [List.length_drop, List.length_cons] at hlength
    exact h.within.move (by omega) h.within.depth
  depth := h.depth
  rest := by
    change tokens.drop (c.pos + 1) = rest
    rw [← List.drop_drop, h.rest, List.drop_one, List.tail_cons]

/-- A token that the cursor sees is the first one from there. -/
theorem eq_cons {t : Token} (h : At tokens c d ts) (ht : c.next? tokens = some t) :
    ∃ loc rest, ts = ⟨t, loc⟩ :: rest := by
  match ts with
  | [] => cases h.next?_nil.symm.trans ht
  | ⟨t', loc⟩ :: rest =>
    cases h.next?_cons.symm.trans ht
    exact ⟨loc, rest, rfl⟩

/-- Whether a symbol comes next. -/
theorem symbol_cases (h : At tokens c d ts) (s : Symbol) :
    (c.next? tokens = some (.symbol s) ∧ ∃ loc rest, ts = ⟨.symbol s, loc⟩ :: rest) ∨
      (c.next? tokens ≠ some (.symbol s) ∧ take? s ts = none) := by
  match ts with
  | [] => exact .inr ⟨by rw [h.next?_nil]; exact nofun, rfl⟩
  | ⟨t, loc⟩ :: rest =>
    rw [h.next?_cons]
    by_cases ht : t = .symbol s
    · subst ht
      exact .inl ⟨rfl, loc, rest, rfl⟩
    · exact .inr ⟨fun hs => ht (Option.some.inj hs), take?_eq_none ht⟩

end At

/-! ## Two readings of the same lexemes -/

/-- The reading without a cursor gives the same, and leaves what the cursor stands in front of in the
end. -/
inductive Agrees {α : Type} {bound : Nat} (rest : List Lexeme) :
    Except Diagnostic α → Except Diagnostic (Read α bound) → Prop where
  | ok (a : α) (hlt : rest.length < bound) : Agrees rest (.ok a) (.ok ⟨a, rest, hlt⟩)
  | error (e : Diagnostic) : Agrees rest (.error e) (.error e)

/-- The reading with the cursor ends. It agrees with the one without, the cursor stays within bounds, and
the count that it comes to is as stated. -/
def Follows {α : Type} {bound : Nat} (tokens : List Lexeme) (K : Nat → Prop) (m : Nat → Reading α)
    (c : Cursor) (read : Except Diagnostic (Read α bound)) : Prop :=
  Routine.Ends m c fun r c' => c'.Within tokens ∧ K c'.depth ∧ Agrees (tokens.drop c'.pos) r read

namespace Follows

variable {α β : Type} {a b : Nat} {tokens ts : List Lexeme} {c : Cursor} {d : Nat} {K : Nat → Prop}
  {m : Nat → Reading α} {f : Nat → α → Reading β} {read : Except Diagnostic (Read α a)}
  {k : Read α a → Except Diagnostic (Read β b)}

theorem ok {v : α} (h : At tokens c d ts) (hK : K d) {hlt : ts.length < a} :
    Follows tokens K (fun _ => Pure.pure v) c (.ok ⟨v, ts, hlt⟩ : Except Diagnostic (Read α a)) := by
  obtain ⟨hc, rfl, rfl⟩ := h
  exact .pure ⟨hc, hK, .ok v hlt⟩

theorem throw {e : Diagnostic} (h : At tokens c d ts) (hK : K d) :
    Follows tokens K (fun _ => MonadExcept.throw e) c (.error e : Except Diagnostic (Read α a)) :=
  Routine.Ends.throw ⟨h.within, h.depth ▸ hK, .error e⟩

theorem fail (h : At tokens c d ts) (hK : K d) (cause : Cause) :
    Follows tokens K (fun _ => fail tokens cause) c
      (refuse (endOf tokens) ts cause : Except Diagnostic (Read α a)) := by
  rw [refuse, ← h.location]
  exact throw h hK

theorem mono {K' : Nat → Prop} (h : Follows tokens K m c read) (hK : ∀ n, K n → K' n) :
    Follows tokens K' m c read :=
  Routine.Ends.mono h fun _ _ h => ⟨h.1, hK _ h.2.1, h.2.2⟩

/-- A reader that calls another one with a step less follows what that one follows. -/
theorem call (h : Follows tokens K (fun n => m (n + 1)) c read) : Follows tokens K m c read :=
  Routine.Ends.call h

/-- Two readers in a row follow two parses in a row. -/
theorem bind (h : Follows tokens (Eq d) m c read) (hK : K d)
    (hf : ∀ v c' rest hlt, At tokens c' d rest →
      Follows tokens K (fun n => f n v) c' (k ⟨v, rest, hlt⟩)) :
    Follows tokens K (fun n => m n >>= f n) c (read >>= k) := by
  refine Routine.Ends.bind h ?_ ?_
  · rintro v c' ⟨hc, hd, hr⟩
    cases hr with
    | ok _ hlt => exact hf v c' _ hlt ⟨hc, hd.symm, rfl⟩
  · rintro e c' ⟨hc, hd, hr⟩
    cases hr with
    | error _ => exact ⟨hc, hd ▸ hK, .error e⟩

/-- What was read, under another bound. -/
theorem rebound {k : Read α a → Except Diagnostic (Read α b)} (h : Follows tokens K m c read)
    (hk : ∀ v rest hlt, ∃ hlt', k ⟨v, rest, hlt⟩ = .ok ⟨v, rest, hlt'⟩) :
    Follows tokens K m c (read >>= k) := by
  refine Routine.Ends.mono h ?_
  rintro r c' ⟨hc, hK, hr⟩
  refine ⟨hc, hK, ?_⟩
  cases hr with
  | ok v hlt =>
    obtain ⟨hlt', hk⟩ := hk v _ hlt
    change Agrees _ _ (k _)
    rw [hk]
    exact .ok v hlt'
  | error e => exact .error e

/-! What looks at the cursor or moves it cannot fail. -/

theorem peek {f : Nat → Option Token → Reading α}
    (h : Follows tokens K (fun n => f n (c.next? tokens)) c read) :
    Follows tokens K (fun n => peek tokens >>= f n) c read := h

theorem source {f : Nat → Location → Reading α}
    (h : Follows tokens K (fun n => f n (c.location tokens)) c read) :
    Follows tokens K (fun n => source tokens >>= f n) c read := h

theorem advance {f : Nat → Unit → Reading α}
    (h : Follows tokens K (fun n => f n ()) (c.move (c.pos + 1) c.depth) read) :
    Follows tokens K (fun n => advance >>= f n) c read := h

/-- Nesting too deeply fails and leaves the cursor where it is. -/
theorem ends_nest_of_le (h : At tokens c d ts) (hd : maxNesting ≤ d) :
    Routine.Ends (fun _ => Cursor.nest tokens) c fun r c' =>
      r = .error ⟨.nestedTooDeep, here (endOf tokens) ts⟩ ∧ c' = c := by
  have hnest : (Cursor.nest tokens).outcome c = (Cursor.fail tokens .nestedTooDeep).outcome c := by
    change (if maxNesting ≤ c.depth then _ else _ : Reading Unit).outcome c = _
    rw [if_pos (h.depth ▸ hd)]
  refine .of_outcome (fun _ => hnest) ⟨?_, rfl⟩
  rw [h.location]

/-- Nesting counts one level where there is one left. -/
theorem ends_nest_of_lt (h : At tokens c d ts) (hd : d < maxNesting) :
    Routine.Ends (fun _ => Cursor.nest tokens) c fun r c' => r = .ok () ∧ At tokens c' (d + 1) ts := by
  have hnest : (Cursor.nest tokens).outcome c = some (.ok (), c.move c.pos (c.depth + 1)) := by
    change (if maxNesting ≤ c.depth then _ else _ : Reading Unit).outcome c = _
    rw [if_neg (by rw [h.depth]; omega)]
    rfl
  have hmove : (c.move c.pos (c.depth + 1)).Within tokens :=
    h.within.move h.within.pos (by rw [h.depth]; omega)
  exact .of_outcome (fun _ => hnest) ⟨rfl, hmove, congrArg (· + 1) h.depth, h.rest⟩

/-- One level more is counted, unless it is past the limit. -/
theorem nest {f : Nat → Unit → Reading α} (h : At tokens c d ts) (hK : K d)
    (hf : d < maxNesting → ∀ c', At tokens c' (d + 1) ts →
      Follows tokens K (fun n => f n ()) c' read) :
    Follows tokens K (fun n => nest tokens >>= f n) c
      (if maxNesting ≤ d then refuse (endOf tokens) ts .nestedTooDeep else read) := by
  split
  · next hd =>
    refine (ends_nest_of_le h hd).bind ?_ ?_
    · rintro _ _ ⟨⟨⟩, -⟩
    · rintro _ _ ⟨⟨⟩, rfl⟩
      exact ⟨h.within, h.depth ▸ hK, .error _⟩
  · next hd =>
    refine (ends_nest_of_lt h (Nat.lt_of_not_ge hd)).bind ?_ ?_
    · rintro _ c' ⟨⟨⟩, hc'⟩
      exact hf (Nat.lt_of_not_ge hd) c' hc'
    · rintro _ _ ⟨⟨⟩, -⟩

/-- What is nested may count further. The count is put back behind it, be it read or refused. -/
theorem counted (h : At tokens c d ts)
    (hm : d < maxNesting → ∀ c', At tokens c' (d + 1) ts →
      Follows tokens (fun _ => True) m c' read) :
    Follows tokens (Eq d) (fun n => counted tokens (m n)) c
      (if maxNesting ≤ d then refuse (endOf tokens) ts .nestedTooDeep else read) := by
  have hnested : Follows tokens (fun _ => True) (fun n => Cursor.nest tokens >>= fun _ => m n) c
      (if maxNesting ≤ d then refuse (endOf tokens) ts .nestedTooDeep else read) :=
    nest h trivial hm
  obtain ⟨r, c', ⟨enough, hrun⟩, hc', -, hr⟩ := hnested
  refine ⟨r, c'.move c'.pos c.depth, ⟨enough, fun n hn => ?_⟩,
    hc'.move hc'.pos h.within.depth, h.depth.symm, hr⟩
  change ((Cursor.nest tokens >>= fun _ => m n).outcome c).bind _ = _
  rw [hrun n hn]
  rfl

/-- A list and the lexeme that ends it. -/
theorem closing (h : Follows tokens (Eq d) (fun n => closed (m n)) c read) (hK : K d)
    (hf : ∀ v c' rest hlt, At tokens c' d rest →
      Follows tokens K (fun n => f n v) c' (k ⟨v, rest, hlt⟩)) :
    Follows tokens K (fun n => m n >>= fun v => Cursor.advance >>= fun _ => f n v) c (read >>= k) := by
  have hbind := h.bind hK hf
  simpa only [closed, bind_assoc, pure_bind] using hbind

end Follows

/-! ## Single lexemes -/

section

variable {tokens ts : List Lexeme} {c : Cursor} {d : Nat}

theorem follows_require (h : At tokens c d ts) (s : Symbol) (cause : Cause) :
    Follows tokens (Eq d) (fun _ => require tokens s cause) c (expect (endOf tokens) s cause ts) := by
  refine .peek ?_
  rw [expect]
  obtain ⟨hnext, loc, rest, rfl⟩ | ⟨hnext, htake⟩ := h.symbol_cases s
  · rw [if_pos hnext, take?_self]
    exact .ok h.advance rfl
  · rw [if_neg hnext, htake]
    exact .fail h rfl cause

theorem follows_requireName (h : At tokens c d ts) (cause : Cause) :
    Follows tokens (Eq d) (fun _ => requireName tokens cause) c (expectName (endOf tokens) cause ts) := by
  refine .peek ?_
  match ts with
  | [] =>
    rw [h.next?_nil]
    exact .fail h rfl cause
  | ⟨t, loc⟩ :: rest =>
    rw [h.next?_cons]
    cases t with
    | name s => exact .advance (.ok h.advance rfl)
    | _ => exact .fail h rfl cause

theorem follows_separate (h : At tokens c d ts) (close : Symbol) :
    Follows tokens (Eq d) (fun _ => separate tokens close) c (separator (endOf tokens) close ts) := by
  refine .peek ?_
  rw [separator]
  obtain ⟨hcomma, loc, rest, rfl⟩ | ⟨hcomma, hnone⟩ := h.symbol_cases .comma
  · rw [if_pos hcomma, take?_self]
    exact .ok h.advance rfl
  · rw [if_neg hcomma, hnone]
    refine .peek ?_
    obtain ⟨hclose, loc, rest, rfl⟩ | ⟨hclose, hnone'⟩ := h.symbol_cases close
    · rw [if_pos hclose, take?_self]
      exact .ok h rfl
    · rw [if_neg hclose, hnone']
      exact .fail h rfl .missingComma

/-- Reading a member follows the parse of it. -/
theorem follows_member (h : At tokens c d ts) (acc : Expr) (loc : Location) :
    Follows tokens (Eq d) (fun _ => member tokens acc loc) c (parseMember (endOf tokens) acc loc ts) := by
  refine .peek ?_
  match ts with
  | [] =>
    rw [h.next?_nil]
    exact .fail h rfl .invalidMember
  | ⟨t, l⟩ :: rest =>
    rw [h.next?_cons]
    cases t with
    | int n =>
      rw [parseMember]
      dsimp only
      cases tupleIndex? n with
      | some index => exact .advance (.ok h.advance rfl)
      | none => exact .fail h rfl .numberOutOfRange
    | name s => exact .advance (.ok h.advance rfl)
    | _ => exact .fail h rfl .invalidMember

/-- What is made of values in parentheses follows what the parse makes of them. -/
theorem follows_inParentheses {bound : Nat} (h : At tokens c d ts) (loc : Location)
    (values : List Expr) (hlt : ts.length < bound) :
    Follows tokens (Eq d) (fun _ => inParentheses loc values) c
      (parenthesized loc values >>= fun e =>
        (.ok ⟨e, ts, hlt⟩ : Except Diagnostic (Read Expr bound))) := by
  rw [inParentheses]
  cases parenthesized loc values with
  | error e => exact .throw h rfl
  | ok e => exact .ok h rfl

end

/-! ## Expressions -/

section

variable {tokens : List Lexeme}

mutual

/-- Reading an expression follows the parse of it and gives its levels back. -/
theorem follows_expression {ts : List Lexeme} {c : Cursor} {d : Nat} (h : At tokens c d ts)
    (power : Nat) : Follows tokens (Eq d) (expression tokens power) c
      (parseExpr (endOf tokens) d power ts) := by
  refine .call ?_
  simp only [expression]
  rw [parseExpr]
  refine .counted h fun hd c' h' => ?_
  refine (follows_value h').bind trivial fun v c₁ rest hlt h₁ => ?_
  exact (follows_fold h₁ power v).rebound fun e rest' hlt' => ⟨_, rfl⟩
termination_by (ts.length, 2)

/-- Reading what takes an expression in follows the parse of it, whatever becomes of the levels. -/
theorem follows_fold {ts : List Lexeme} {c : Cursor} {d : Nat} (h : At tokens c d ts)
    (power : Nat) (acc : Expr) : Follows tokens (fun _ => True) (fold tokens power acc) c
      (foldExpr (endOf tokens) d power acc ts) := by
  refine .call ?_
  simp only [fold]
  refine .peek ?_
  match ts with
  | [] =>
    rw [h.next?_nil, foldExpr]
    exact .ok h trivial
  | ⟨t, loc⟩ :: rest =>
    rw [h.next?_cons, foldExpr, Option.bind_some]
    dsimp only
    cases follower? t with
    | none => exact .ok h trivial
    | some entry =>
      obtain ⟨p, follower⟩ := entry
      dsimp only
      by_cases hp : p ≤ power
      · simp only [if_pos hp]
        exact .ok h trivial
      · simp only [if_neg hp]
        refine .source ?_
        rw [h.location]
        refine .advance (.nest h.advance trivial fun hd c' h' => ?_)
        refine (follows_takeIn h' p acc follower loc).bind trivial fun acc' c₁ rest' hlt h₁ => ?_
        exact (follows_fold h₁ power acc').rebound fun e rest'' hlt' => ⟨_, rfl⟩
termination_by (ts.length, 0)

/-- Reading one operator that takes an expression in follows the parse of it. -/
theorem follows_takeIn {ts : List Lexeme} {c : Cursor} {d : Nat} (h : At tokens c d ts)
    (power : Nat) (acc : Expr) (follower : Follower) (loc : Location) :
    Follows tokens (Eq d) (takeIn tokens power acc follower loc) c
      (parseFollower (endOf tokens) d power acc follower loc ts) := by
  refine .call ?_
  simp only [takeIn]
  unfold parseFollower
  cases follower with
  | call =>
    cases acc with
    | name _ callee =>
      exact (follows_valueList h .closeParen).closing rfl fun args c₁ rest hlt h₁ => .ok h₁ rfl
    | _ => exact .throw h rfl
  | member => exact follows_member h acc loc
  | element =>
    refine (follows_expression h 0).bind rfl fun index c₁ rest hlt h₁ => ?_
    exact (follows_require h₁ .closeBracket .missingCloseBracket).bind rfl
      fun _ c₂ rest' hlt' h₂ => .ok h₂ rfl
  | operator op =>
    exact (follows_expression h power).bind rfl fun right c₁ rest hlt h₁ => .ok h₁ rfl
termination_by (ts.length, 4)

theorem follows_value {ts : List Lexeme} {c : Cursor} {d : Nat} (h : At tokens c d ts) :
    Follows tokens (Eq d) (value tokens) c (parseValue (endOf tokens) d ts) := by
  refine .call ?_
  simp only [value]
  refine .source (.peek ?_)
  match ts with
  | [] =>
    rw [h.next?_nil, parseValue]
    exact .fail h rfl .missingValue
  | ⟨t, loc⟩ :: rest =>
    rw [h.next?_cons, h.location, parseValue, Option.bind_some]
    dsimp only
    have h' := h.advance
    cases opening? t with
    | none => exact .fail h rfl .missingValue
    | some opening =>
      cases opening with
      | leaf make => exact .advance (.ok h' rfl)
      | parentheses =>
        refine .advance ((follows_valueList h' .closeParen).closing rfl fun values c₁ rest' hlt h₁ => ?_)
        exact follows_inParentheses h₁ loc values _
      | brackets =>
        exact .advance ((follows_valueList h' .closeBracket).closing rfl
          fun values c₁ rest' hlt h₁ => .ok h₁ rfl)
      | braces =>
        exact .advance ((follows_objectMembers h').closing rfl
          fun members c₁ rest' hlt h₁ => .ok h₁ rfl)
      | operator power op =>
        exact .advance ((follows_expression h' power).bind rfl
          fun operand c₁ rest' hlt h₁ => .ok h₁ rfl)
termination_by (ts.length, 0)

theorem follows_valueList {ts : List Lexeme} {c : Cursor} {d : Nat} (h : At tokens c d ts)
    (close : Symbol) : Follows tokens (Eq d) (fun n => closed (valueList tokens close n)) c
      (parseItems (endOf tokens) d close ts) := by
  refine .call ?_
  simp only [closed, valueList, bind_assoc]
  rw [parseItems]
  refine .peek ?_
  obtain ⟨hclose, loc, rest, rfl⟩ | ⟨hclose, hnone⟩ := h.symbol_cases close
  · simp only [if_pos hclose, pure_bind]
    rw [take?_self]
    exact .advance (.ok h.advance rfl)
  · simp only [if_neg hclose, bind_assoc, pure_bind]
    rw [hnone]
    refine (follows_expression h 0).bind rfl fun e c₁ rest₁ h₁ hc₁ => ?_
    refine (follows_separate hc₁ close).bind rfl fun _ c₂ rest₂ h₂ hc₂ => ?_
    exact (follows_valueList hc₂ close).closing rfl fun more c₃ rest₃ h₃ hc₃ => .ok hc₃ rfl
termination_by (ts.length, 3)

theorem follows_objectMembers {ts : List Lexeme} {c : Cursor} {d : Nat} (h : At tokens c d ts) :
    Follows tokens (Eq d) (fun n => closed (objectMembers tokens n)) c
      (parseMembers (endOf tokens) d ts) := by
  refine .call ?_
  simp only [closed, objectMembers, bind_assoc]
  rw [parseMembers]
  refine .peek ?_
  obtain ⟨hclose, loc, rest, rfl⟩ | ⟨hclose, hnone⟩ := h.symbol_cases .closeBrace
  · simp only [if_pos hclose, pure_bind]
    rw [take?_self]
    exact .advance (.ok h.advance rfl)
  · simp only [if_neg hclose, bind_assoc, pure_bind]
    rw [hnone]
    refine (follows_requireName h .missingMemberName).bind rfl fun s c₁ rest₁ h₁ hc₁ => ?_
    refine (follows_require hc₁ .assign .missingMemberEquals).bind rfl fun _ c₂ rest₂ h₂ hc₂ => ?_
    refine (follows_expression hc₂ 0).bind rfl fun e c₃ rest₃ h₃ hc₃ => ?_
    refine (follows_separate hc₃ .closeBrace).bind rfl fun _ c₄ rest₄ h₄ hc₄ => ?_
    exact (follows_objectMembers hc₄).closing rfl fun more c₅ rest₅ h₅ hc₅ => .ok hc₅ rfl
termination_by (ts.length, 3)

end

theorem follows_params {ts : List Lexeme} {c : Cursor} {d : Nat} (h : At tokens c d ts) :
    Follows tokens (Eq d) (fun n => closed (params tokens n)) c (parseParams (endOf tokens) ts) := by
  refine .call ?_
  simp only [closed, params, bind_assoc]
  rw [parseParams]
  refine .peek ?_
  obtain ⟨hclose, loc, rest, rfl⟩ | ⟨hclose, hnone⟩ := h.symbol_cases .closeParen
  · simp only [if_pos hclose, pure_bind]
    rw [take?_self]
    exact .advance (.ok h.advance rfl)
  · simp only [if_neg hclose, bind_assoc, pure_bind]
    rw [hnone]
    refine (follows_requireName h .missingParameterName).bind rfl fun s c₁ rest₁ h₁ hc₁ => ?_
    refine (follows_separate hc₁ .closeParen).bind rfl fun _ c₂ rest₂ h₂ hc₂ => ?_
    exact (follows_params hc₂).closing rfl fun more c₃ rest₃ h₃ hc₃ => .ok hc₃ rfl
termination_by ts.length

/-! ## Statements -/

/-- Behind an assignment there are fewer tokens than before it. -/
theorem shorter_behind_assign {ts rest rest' : List Lexeme} {loc : Location}
    (h : (⟨.symbol .assign, loc⟩ :: rest : List Lexeme).length < ts.length)
    (h' : rest'.length < rest.length) : rest'.length < ts.length := by
  rw [List.length_cons] at h
  omega

/-- Reading an assignment or an expression follows the parse of it. -/
theorem follows_plain {ts : List Lexeme} {c : Cursor} {d : Nat} (h : At tokens c d ts) :
    Follows tokens (Eq d) (plain tokens (here (endOf tokens) ts)) c
      (do
        let ⟨target, rest, h⟩ ← parseExpr (endOf tokens) d 0 ts
        match rest, h with
        | ⟨.symbol .assign, loc⟩ :: rest', h => do
          let ⟨value, rest'', h'⟩ ← parseExpr (endOf tokens) d 0 rest'
          return ⟨.assign loc target value, rest'', shorter_behind_assign h h'⟩
        | rest, h => return ⟨.expr (here (endOf tokens) ts) target, rest, h⟩ :
        Except Diagnostic (Read Stmt ts.length)) := by
  unfold plain
  refine (follows_expression h 0).bind rfl fun target c₁ rest hlt h₁ => .peek ?_
  obtain ⟨hassign, loc, rest', rfl⟩ | ⟨hassign, hnone⟩ := h₁.symbol_cases .assign
  · simp only [if_pos hassign]
    refine .source ?_
    rw [h₁.location]
    exact .advance ((follows_expression h₁.advance 0).bind rfl
      fun assigned c₂ rest'' hlt' h₂ => .ok h₂ rfl)
  · simp only [if_neg hassign]
    split
    · rw [take?_self] at hnone
      cases hnone
    · exact .ok h₁ rfl

/-- A refusal goes past what would have been done after it. -/
theorem ite_refuse_bind {α β : Type} {p : Prop} [Decidable p] (eof : Location) (ts : List Lexeme)
    (cause : Cause) (read : Except Diagnostic α) (k : α → Except Diagnostic β) :
    (if p then refuse eof ts cause else read >>= k) =
      (if p then refuse eof ts cause else read) >>= k := by
  split <;> rfl

mutual

/-- Reading a statement follows the parse of it. -/
theorem follows_statement {ts : List Lexeme} {c : Cursor} {d : Nat} (h : At tokens c d ts) :
    Follows tokens (Eq d) (statement tokens) c (parseStmt (endOf tokens) d ts) := by
  refine .call ?_
  simp only [statement]
  refine .source (.peek ?_)
  rw [h.location]
  match ts with
  | [] =>
    rw [h.next?_nil, parseStmt.eq_def]
    exact follows_plain h
  | ⟨t, loc⟩ :: rest =>
    rw [h.next?_cons, parseStmt.eq_def]
    cases t with
    | keyword k =>
      have h' := h.advance
      cases k with
      | kwContinue => exact .advance (.ok h' rfl)
      | kwBreak => exact .advance (.ok h' rfl)
      | kwReturn =>
        exact .advance ((follows_expression h' 0).bind rfl fun result c₁ rest₁ h₁ hc₁ => .ok hc₁ rfl)
      | kwLoop =>
        exact .advance ((follows_block h').bind rfl fun body c₁ rest₁ h₁ hc₁ => .ok hc₁ rfl)
      | kwTick =>
        exact .advance ((follows_block h').bind rfl fun body c₁ rest₁ h₁ hc₁ => .ok hc₁ rfl)
      | kwWhile =>
        refine .advance ((follows_expression h' 0).bind rfl fun cond c₁ rest₁ h₁ hc₁ => ?_)
        exact (follows_block hc₁).bind rfl fun body c₂ rest₂ h₂ hc₂ => .ok hc₂ rfl
      | kwVar =>
        refine .advance ((follows_requireName h' .missingVariableName).bind rfl
          fun s c₁ rest₁ h₁ hc₁ => ?_)
        refine (follows_require hc₁ .assign .missingVariableEquals).bind rfl
          fun _ c₂ rest₂ h₂ hc₂ => ?_
        exact (follows_expression hc₂ 0).bind rfl fun initial c₃ rest₃ h₃ hc₃ => .ok hc₃ rfl
      | kwIf =>
        refine .advance ((follows_expression h' 0).bind rfl fun cond c₁ rest₁ h₁ hc₁ => ?_)
        refine (follows_block hc₁).bind rfl fun yes c₂ rest₂ h₂ hc₂ => ?_
        exact (follows_alternative hc₂).bind rfl fun no c₃ rest₃ h₃ hc₃ => .ok hc₃ rfl
      | kwFun =>
        refine .advance ((follows_requireName h' .missingFunctionName).bind rfl
          fun s c₁ rest₁ h₁ hc₁ => ?_)
        refine (follows_require hc₁ .openParen .missingParameterList).bind rfl
          fun _ c₂ rest₂ h₂ hc₂ => ?_
        refine (follows_params hc₂).closing rfl fun names c₃ rest₃ h₃ hc₃ => ?_
        exact (follows_block hc₃).bind rfl fun body c₄ rest₄ h₄ hc₄ => .ok hc₄ rfl
      | _ => exact follows_plain h
    | _ => exact follows_plain h
termination_by (ts.length, 3)

theorem follows_alternative {ts : List Lexeme} {c : Cursor} {d : Nat} (h : At tokens c d ts) :
    Follows tokens (Eq d) (alternative tokens) c (parseElse (endOf tokens) d ts) := by
  refine .call ?_
  simp only [alternative]
  rw [parseElse.eq_def]
  refine .peek ?_
  by_cases helse : c.next? tokens = some (.keyword .kwElse)
  · obtain ⟨loc, rest, rfl⟩ := h.eq_cons helse
    simp only [if_pos helse]
    refine .advance (.peek ?_)
    have h' := h.advance
    by_cases hif : (c.move (c.pos + 1) c.depth).next? tokens = some (.keyword .kwIf)
    · obtain ⟨loc', more, rfl⟩ := h'.eq_cons hif
      simp only [if_pos hif, ite_refuse_bind]
      refine Follows.bind (.counted h' fun hd c₁ h₁ => ?_) rfl
        fun chained c₂ rest₂ hlt₂ h₂ => .ok h₂ rfl
      exact (follows_statement h₁).mono fun _ _ => trivial
    · simp only [if_neg hif]
      split
      · exact absurd h'.next?_cons hif
      · exact (follows_block h').rebound fun no rest' hlt => ⟨_, rfl⟩
  · simp only [if_neg helse]
    split
    · exact absurd h.next?_cons helse
    · exact .ok h rfl
termination_by (ts.length, 0)

theorem follows_block {ts : List Lexeme} {c : Cursor} {d : Nat} (h : At tokens c d ts) :
    Follows tokens (Eq d) (block tokens) c (parseBlock (endOf tokens) d ts) := by
  refine .call ?_
  simp only [block]
  rw [parseBlock]
  refine (follows_require h .openBrace .missingOpenBrace).bind rfl fun _ c₁ rest₁ hlt₁ h₁ => ?_
  simp only [ite_refuse_bind]
  refine Follows.bind (.counted h₁ fun hd c₂ h₂ => ?_) rfl fun body c₃ rest₃ hlt₃ h₃ => ?_
  · exact (follows_statements h₂).mono fun _ _ => trivial
  · exact (follows_require h₃ .closeBrace .missingCloseBrace).bind rfl
      fun _ c₄ rest₄ hlt₄ h₄ => .ok h₄ rfl
termination_by (ts.length, 0)

/-- Reading statements follows the parse of them. -/
theorem follows_statements {ts : List Lexeme} {c : Cursor} {d : Nat} (h : At tokens c d ts) :
    Follows tokens (Eq d) (statements tokens) c (parseStmts (endOf tokens) d ts) := by
  refine .call ?_
  simp only [statements]
  rw [parseStmts]
  refine .peek ?_
  match ts with
  | [] =>
    rw [h.next?_nil]
    exact .ok h rfl
  | ⟨t, loc⟩ :: rest =>
    rw [h.next?_cons]
    by_cases ht : t = .symbol .closeBrace
    · subst ht
      exact .ok h rfl
    · rw [take?_eq_none ht]
      simp only [if_neg ht]
      refine (follows_statement h).bind rfl fun s c₁ rest₁ hlt₁ h₁ => ?_
      exact (follows_statements h₁).bind rfl fun more c₂ rest₂ hlt₂ h₂ => .ok h₂ rfl
termination_by (ts.length, 4)

end

/-! ## Progress -/

/-- The reading with the cursor ends, with the count where it was and without ever having been past the
end of the lexemes or the limit of the count. It comes to what the reading without a cursor comes to, and
if that is a value, then the cursor has stepped over a lexeme at least. -/
def Progresses {α : Type} {bound : Nat} (tokens : List Lexeme) (m : Nat → Reading α) (c : Cursor)
    (read : Except Diagnostic (Read α bound)) : Prop :=
  Routine.Ends m c fun r c' =>
    c'.Within tokens ∧ c'.depth = c.depth ∧ Agrees (tokens.drop c'.pos) r read ∧
      ∀ a, r = .ok a → c.pos < c'.pos

/-- What was read has used lexemes up, so the cursor has moved. -/
theorem Follows.progresses {α : Type} {m : Nat → Reading α} {c : Cursor}
    {read : Except Diagnostic (Read α (tokens.drop c.pos).length)}
    (h : Follows tokens (Eq c.depth) m c read) : Progresses tokens m c read := by
  refine Routine.Ends.mono h ?_
  rintro r c' ⟨hc, hdepth, hr⟩
  refine ⟨hc, hdepth.symm, hr, ?_⟩
  rintro a rfl
  cases hr with
  | ok _ hlt =>
    rw [List.length_drop, List.length_drop] at hlt
    omega

/-- A cursor among the tokens is at those from its place on. -/
theorem Within.at_drop {c : Cursor} (h : c.Within tokens) :
    At tokens c c.depth (tokens.drop c.pos) :=
  ⟨h, rfl, rfl⟩

/-- A whole script is read with the cursor as without it. -/
theorem ends_script (tokens : List Lexeme) :
    Routine.Ends (script tokens) start fun r c => r = parse tokens ∧ c.Within tokens := by
  have hstart : At tokens start 0 tokens := ⟨within_start tokens, rfl, rfl⟩
  rw [parse]
  have hread := follows_statements hstart
  generalize parseStmts (endOf tokens) 0 tokens = read at hread ⊢
  refine Routine.Ends.bind hread ?_ ?_
  · rintro ss c ⟨hc, -, ⟨_, hlt⟩⟩
    refine Routine.Ends.get_bind ?_
    have h := hc.at_drop
    generalize tokens.drop c.pos = rest at h hlt
    cases rest with
    | nil =>
      rw [h.next?_nil]
      exact .pure ⟨rfl, hc⟩
    | cons l rest =>
      rw [h.next?_cons]
      refine .of_outcome (fun _ => rfl) ⟨?_, hc⟩
      rw [h.location]
      rfl
  · rintro e c ⟨hc, -, ⟨_⟩⟩
    exact ⟨rfl, hc⟩

/-- **Readers make progress.** A reading with a cursor ends on all lexemes, also where they stop short, and
gives what the reading without a cursor gives. From any place within the lexemes, under any count, so do
the readings of an expression, a value, a statement and a block. If they give a value, the cursor has
stepped over a lexeme; be it read or refused, the count is what it was. At no moment was the cursor past
the end of the lexemes or the count past its limit. -/
theorem readers_progress (tokens : List Lexeme) :
    (Routine.Ends (script tokens) start fun r c => r = parse tokens ∧ c.Within tokens) ∧
      ∀ c : Cursor, c.Within tokens →
        (∀ power, Progresses tokens (expression tokens power) c
          (parseExpr (endOf tokens) c.depth power (tokens.drop c.pos))) ∧
        Progresses tokens (value tokens) c (parseValue (endOf tokens) c.depth (tokens.drop c.pos)) ∧
        Progresses tokens (statement tokens) c (parseStmt (endOf tokens) c.depth (tokens.drop c.pos)) ∧
        Progresses tokens (block tokens) c (parseBlock (endOf tokens) c.depth (tokens.drop c.pos)) := by
  refine ⟨ends_script tokens, fun c hc => ⟨fun power => ?_, ?_, ?_, ?_⟩⟩
  · exact (follows_expression hc.at_drop power).progresses
  · exact (follows_value hc.at_drop).progresses
  · exact (follows_statement hc.at_drop).progresses
  · exact (follows_block hc.at_drop).progresses

/-- A tuple in an array in a call in a block, cut off inside all of them, from its start and from its
block. -/
theorem readers_progress_cut_off :
    let tokens : List Lexeme :=
      [.keyword .kwIf, .name "x", .symbol .openBrace, .name "f", .symbol .openParen, .symbol .openBracket,
        .symbol .openParen, .int 1, .symbol .comma, .int 2].map (⟨·, ⟨1, "main.bt"⟩⟩)
    let c : Cursor := ⟨2, 1, [(2, 1)]⟩
    c.Within tokens ∧
      (Routine.Ends (script tokens) start fun r _ => r = .error ⟨.missingComma, ⟨1, "main.bt"⟩⟩) ∧
      Routine.Ends (block tokens) c fun r c' =>
        r = .error ⟨.missingComma, ⟨1, "main.bt"⟩⟩ ∧ c'.depth = 1 ∧ c'.pos ≤ 10 := by
  intro tokens c
  have hc : c.Within tokens := ⟨by decide, by decide, by decide⟩
  have hscript : parse tokens = .error ⟨.missingComma, ⟨1, "main.bt"⟩⟩ := by cbv
  have hblock : parseBlock (endOf tokens) c.depth (tokens.drop c.pos) =
      .error ⟨.missingComma, ⟨1, "main.bt"⟩⟩ := by
    cbv
  obtain ⟨hends, hreaders⟩ := readers_progress tokens
  refine ⟨hc, hends.mono fun r c' h => h.1.trans hscript, (hreaders c hc).2.2.2.mono ?_⟩
  rintro r c' ⟨hwithin, hdepth, hr, -⟩
  rw [hblock] at hr
  cases hr
  exact ⟨rfl, hdepth, hwithin.pos⟩

end

end Cursor

end TickScript.Parser
