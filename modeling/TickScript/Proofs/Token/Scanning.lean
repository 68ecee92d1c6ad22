import TickScript.Token.Lexer

/-!
# Scanning, a step at a time

What is left of a file is at its end, or it begins with a blank, a comment or a token. There is one
equation of `scan` for each of the four, and one rule of induction (`scan_induction`) that goes
through them: after a blank, a comment or a token there is less to scan than before.

Lines are only counted on: a scan that starts some lines further down finds the same tokens, and
everything it reports is as many lines further down (`scan_add`).
-/

namespace TickScript

/-- The same place `n` lines further down. -/
def Location.lower (n : UInt32) (l : Location) : Location := { l with line := l.line + n }

/-- The same token `n` lines further down. -/
def Lexeme.lower (n : UInt32) (l : Lexeme) : Lexeme := { l with location := l.location.lower n }

/-- The same diagnostic `n` lines further down. -/
def Diagnostic.lower (n : UInt32) (d : Diagnostic) : Diagnostic :=
  { d with location := d.location.lower n }

namespace Lexer

variable {file : String} {line : UInt32} {afterDot : Bool} {c : Char} {cs : List Char}

/-! ## Equations -/

theorem scan_nil (file : String) (line : UInt32) (afterDot : Bool) :
    scan file line afterDot [] = .ok [] := by
  rw [scan]
  rfl

/-- A blank is skipped and may end its line. -/
theorem scan_blank (hc : Text.isBlank c = true) :
    scan file line afterDot (c :: cs) = scan file (lineAfter line c cs) afterDot cs := by
  rw [scan.eq_def file line afterDot (c :: cs), scan.eq_def file (lineAfter line c cs) afterDot cs,
    skipBlanks, if_pos hc]

theorem skipBlanks_of_not_isBlank (hc : Text.isBlank c = false) :
    skipBlanks line (c :: cs) = (line, c :: cs) := by
  rw [skipBlanks, hc, if_neg Bool.false_ne_true]

/-- A comment is skipped. -/
theorem scan_comment :
    scan file line afterDot ('#' :: cs) = scan file line afterDot (skipComment cs) := by
  have hskip : skipBlanks line ('#' :: cs) = (line, '#' :: cs) :=
    skipBlanks_of_not_isBlank (by decide)
  rw [scan]
  split
  next hs => cases hskip.symm.trans hs
  next hs =>
    cases hskip.symm.trans hs
    exact if_pos rfl

/-- What is scanned behind a token, or the diagnostic in its place. -/
theorem scan_token (hblank : Text.isBlank c = false) (hcomment : c ≠ '#') :
    scan file line afterDot (c :: cs) =
      match readToken afterDot line c cs with
      | .error (cause, errorLine) => .error ⟨cause, ⟨errorLine, file⟩⟩
      | .ok (t, line', rest) =>
        (scan file line' (t = .symbol .dot) rest).map (⟨t, ⟨line, file⟩⟩ :: ·) := by
  have hskip : skipBlanks line (c :: cs) = (line, c :: cs) := skipBlanks_of_not_isBlank hblank
  rw [scan]
  split
  next hs => cases hskip.symm.trans hs
  next hs =>
    cases hskip.symm.trans hs
    rw [if_neg hcomment]
    split
    next ht => rw [ht]
    next t line' rest ht =>
      rw [ht]
      dsimp only
      cases scan file line' (t = .symbol .dot) rest <;> rfl

/-! ## Induction -/

/-- The cases of a scan: the end, a blank, a comment, and a token with what follows it. -/
theorem scan_induction {motive : List Char → Prop} (nil : motive [])
    (blank : ∀ c cs, Text.isBlank c = true → motive cs → motive (c :: cs))
    (comment : ∀ cs, motive (skipComment cs) → motive ('#' :: cs))
    (token : ∀ c cs, Text.isBlank c = false → c ≠ '#' →
      (∀ {afterDot line t line' rest}, readToken afterDot line c cs = .ok (t, line', rest) →
        motive rest) → motive (c :: cs))
    (cs : List Char) : motive cs := by
  induction hn : cs.length using Nat.strongRecOn generalizing cs with
  | ind n ih =>
    cases cs with
    | nil => exact nil
    | cons c cs =>
      rw [List.length_cons] at hn
      cases hblank : Text.isBlank c with
      | true => exact blank c cs hblank (ih cs.length (by omega) cs rfl)
      | false =>
        by_cases hcomment : c = '#'
        · subst hcomment
          have hlen := length_dropWhile_le (fun c => !endsLine c) cs
          exact comment cs (ih _ (by rw [skipComment]; omega) _ rfl)
        · refine token c cs hblank hcomment fun ht => ?_
          have hlen := length_rest_readToken ht
          exact ih _ (by omega) _ rfl

/-! ## Counting on -/

section Lower

variable (n : UInt32)

theorem add_add_one (line : UInt32) : line + n + 1 = line + 1 + n := by
  rw [UInt32.add_assoc, UInt32.add_comm n 1, UInt32.add_assoc]

/-- Counting lines from a later one counts all of them later. -/
theorem lineAfter_add (line : UInt32) (c : Char) (cs : List Char) :
    lineAfter (line + n) c cs = lineAfter line c cs + n := by
  unfold lineAfter
  split
  · exact add_add_one n line
  · split
    · split
      · rfl
      · exact add_add_one n line
    · rfl

/-- A text that begins some lines later ends as many lines later. -/
theorem readText_add (line : UInt32) (cs : List Char) :
    readText (line + n) cs =
      ((readText line cs).map fun r => { r with line := r.line + n }).mapError (· + n) := by
  fun_induction readText line cs with
  | case1 | case2 | case3 => rw [readText]; rfl
  | case4 _ _ ih | case6 _ _ ih => simp [readText, add_add_one, ih]
  | case5 _ _ _ ih => simp_all [readText, add_add_one]
  | case7 line c rest hpair hcr hlf ih =>
    rw [readText]
    · rw [ih]
      cases readText line rest <;> rfl
    all_goals assumption
  | case8 line c rest _ _ _ _ _ _ ih =>
    rw [readText]
    · rw [lineAfter_add, ih]
      cases readText (lineAfter line c rest) rest <;> rfl
    all_goals assumption

/-- A token that begins some lines later ends as many lines later. -/
theorem readToken_add (afterDot : Bool) (line : UInt32) (c : Char) (cs : List Char) :
    readToken afterDot (line + n) c cs =
      ((readToken afterDot line c cs).map fun (t, line', rest) => (t, line' + n, rest)).mapError
        fun (cause, errorLine) => (cause, errorLine + n) := by
  unfold readToken
  split
  · rfl
  · split
    · cases readNumber afterDot (c :: cs) <;> rfl
    · split
      · rw [readText_add]
        cases readText line cs <;> rfl
      · cases readSymbol? c cs <;> rfl

/-- A scan that starts `n` lines further down finds the same, `n` lines further down. -/
theorem scan_add (file : String) (line : UInt32) (afterDot : Bool) (cs : List Char) :
    scan file (line + n) afterDot cs =
      ((scan file line afterDot cs).map (List.map (Lexeme.lower n))).mapError
        (Diagnostic.lower n) := by
  induction cs using scan_induction generalizing line afterDot with
  | nil => rw [scan_nil, scan_nil]; rfl
  | blank c cs hc ih => rw [scan_blank hc, scan_blank hc, lineAfter_add, ih]
  | comment cs ih => rw [scan_comment, scan_comment, ih]
  | token c cs hblank hcomment ih =>
    rw [scan_token hblank hcomment, scan_token hblank hcomment, readToken_add]
    cases ht : readToken afterDot line c cs with
    | error e => rfl
    | ok done =>
      obtain ⟨t, line', rest⟩ := done
      change (scan file (line' + n) (t = .symbol .dot) rest).map _ = _
      dsimp only
      rw [ih ht]
      cases scan file line' (t = .symbol .dot) rest <;> rfl

end Lower

/-! ## Texts -/

theorem endsLine_eq_false {c : Char} (hfeed : c ≠ '\n') (hreturn : c ≠ '\r') : endsLine c = false := by
  simp [endsLine, hfeed, hreturn]

/-- A character that neither closes a text nor begins an escape stands for itself. -/
theorem raw_of_not_escape {c : Char} {rest : List Char} (hquote : c ≠ '"')
    (hend : c = '\\' → rest = [] → False)
    (hescape : ∀ d rest', c = '\\' → rest = d :: rest' → False) : ¬(c = '"' ∨ c = '\\') := by
  rintro (hc | hc)
  · exact hquote hc
  · cases rest with
    | nil => exact hend hc rfl
    | cons d rest => exact hescape d rest hc rfl

/-- A character that stands for itself is the first of the text. -/
theorem readText_raw {c : Char} (hc : ¬(c = '"' ∨ c = '\\')) (line : UInt32) (rest : List Char) :
    readText line (c :: rest) = (readText (lineAfter line c rest) rest).map (TextRead.cons c) := by
  obtain ⟨hquote, hbackslash⟩ := not_or.1 hc
  rw [readText]
  all_goals simp [hquote, hbackslash]

/-- An escape is one character of the text. -/
theorem readText_escaped {c : Char} (hc : endsLine c = false) (line : UInt32) (rest : List Char) :
    readText line ('\\' :: c :: rest) = (readText line rest).map (TextRead.cons (unescape c)) := by
  simp only [endsLine, Bool.or_eq_false_iff, decide_eq_false_iff_not] at hc
  rw [readText]
  all_goals simp [hc]

/-- A quote begins a text. -/
theorem readToken_quote :
    readToken afterDot line '"' cs =
      ((readText line cs).map fun r => (Token.text (String.ofList r.contents), r.line, r.rest)).mapError
        fun errorLine => (.unclosedText, errorLine) := by
  unfold readToken
  cases readText line cs <;> rfl

/-! ## Numbers -/

theorem bind_rest (whole : Except Cause Token) (rest : List Char) :
    (do let t ← whole; return (t, rest)) = whole.map (·, rest) := by
  cases whole <;> rfl

/-- Digits without a point are a whole number. -/
theorem readNumber_of_no_point (h : (cs.dropWhile inNumber).head? ≠ some '.') :
    readNumber afterDot cs = (intToken (cs.takeWhile inNumber)).map (·, cs.dropWhile inNumber) := by
  unfold readNumber
  split
  next hpoint => exact absurd (congrArg List.head? hpoint) h
  next => exact bind_rest _ _

/-- A point behind a number that stands after a dot belongs to what follows. -/
theorem readNumber_afterDot :
    readNumber true cs = (intToken (cs.takeWhile inNumber)).map (·, cs.dropWhile inNumber) := by
  unfold readNumber
  split
  next hpoint =>
    rw [hpoint]
    exact (if_pos rfl).trans (bind_rest _ _)
  next => exact bind_rest _ _

/-- Digits with one point are a float, and with two an error. -/
theorem readNumber_point {more : List Char} (h : cs.dropWhile inNumber = '.' :: more) :
    readNumber false cs =
      if (more.dropWhile inNumber).head? = some '.' then .error .secondPoint
      else .ok (.float (Decimal.readFloat ((cs.takeWhile inNumber).filter Char.isDigit)
        ((more.takeWhile inNumber).filter Char.isDigit)), more.dropWhile inNumber) := by
  unfold readNumber
  split
  next more' hpoint =>
    cases h.symm.trans hpoint
    refine (if_neg Bool.false_ne_true).trans ?_
    split
    next hsecond => rw [hsecond]; exact (if_pos rfl).symm
    next hno =>
      refine (if_neg fun hhead => ?_).symm
      obtain ⟨others, hothers⟩ := List.head?_eq_some_iff.1 hhead
      exact hno others hothers
  next hno => exact (hno more h).elim

/-! ## Staying on a line -/

/-- At a line break or at the end. -/
def AtBreak (cs : List Char) : Prop := ∀ c ∈ cs.head?, endsLine c = true

/-- A change of characters that leaves a line as it is, up to its break. What it does to a break and to
all that follows is open, but for the break itself, which stays a break or becomes the end. -/
structure SparesLine (change : List Char → List Char) : Prop where
  cons : ∀ {c cs}, endsLine c = false → change (c :: cs) = c :: change cs
  stop : ∀ {cs}, AtBreak cs → AtBreak (change cs)

namespace SparesLine

variable {change : List Char → List Char} {p : Char → Bool}

/-- At a line break nothing more belongs to a run of characters within the line. -/
theorem takeWhile_of_atBreak (hp : ∀ c, endsLine c = true → p c = false) {cs : List Char}
    (h : AtBreak cs) : cs.takeWhile p = [] ∧ cs.dropWhile p = cs := by
  cases cs with
  | nil => exact ⟨rfl, rfl⟩
  | cons c cs =>
    have hc : ¬ p c = true := by rw [hp c (h c rfl)]; exact Bool.false_ne_true
    exact ⟨List.takeWhile_cons_of_neg hc, List.dropWhile_cons_of_neg hc⟩

/-- What stops at line breaks takes the same characters and leaves what is changed. -/
theorem whiles (h : SparesLine change) (hp : ∀ c, endsLine c = true → p c = false) (cs : List Char) :
    (change cs).takeWhile p = cs.takeWhile p ∧ (change cs).dropWhile p = change (cs.dropWhile p) := by
  induction cs with
  | nil =>
    obtain ⟨htake, hdrop⟩ := takeWhile_of_atBreak hp (h.stop (show AtBreak [] from nofun))
    exact ⟨htake, hdrop⟩
  | cons c cs ih =>
    cases hc : endsLine c with
    | true =>
      have hbreak : AtBreak (c :: cs) := by rintro _ ⟨⟩; exact hc
      obtain ⟨htake, hdrop⟩ := takeWhile_of_atBreak hp hbreak
      obtain ⟨htake', hdrop'⟩ := takeWhile_of_atBreak hp (h.stop hbreak)
      rw [htake, hdrop]
      exact ⟨htake', hdrop'⟩
    | false =>
      rw [h.cons hc]
      cases hpc : p c with
      | true => simp [hpc, ih]
      | false => simp [hpc, h.cons hc]

/-- The next character is no other, unless it is a line break. -/
theorem head (h : SparesLine change) {d : Char} (hd : endsLine d = false) (cs : List Char) :
    (∃ rest, cs = d :: rest ∧ change cs = d :: change rest) ∨
      (cs.head? ≠ some d ∧ (change cs).head? ≠ some d) := by
  have hstop {cs : List Char} (hbreak : AtBreak cs) : cs.head? ≠ some d := fun hhead =>
    Bool.false_ne_true (hd.symm.trans (hbreak d hhead))
  cases cs with
  | nil => exact .inr ⟨nofun, hstop (h.stop nofun)⟩
  | cons c cs =>
    cases hc : endsLine c with
    | true =>
      have hbreak : AtBreak (c :: cs) := by rintro _ ⟨⟩; exact hc
      exact .inr ⟨hstop hbreak, hstop (h.stop hbreak)⟩
    | false =>
      by_cases hcd : c = d
      · subst hcd
        exact .inl ⟨cs, rfl, h.cons hc⟩
      · rw [h.cons hc]
        simp [hcd]

/-- A line break ends a number. -/
theorem not_inNumber {c : Char} (hc : endsLine c = true) : inNumber c = false := by
  simp only [endsLine, Bool.or_eq_true, decide_eq_true_eq] at hc
  rcases hc with rfl | rfl <;> rfl

/-- A line break ends a word. -/
theorem not_inWord {c : Char} (hc : endsLine c = true) : inWord c = false := by
  simp only [endsLine, Bool.or_eq_true, decide_eq_true_eq] at hc
  rcases hc with rfl | rfl <;> rfl

/-- What is changed behind the line is not seen by a comment. -/
theorem skipComment_change (h : SparesLine change) (cs : List Char) :
    skipComment (change cs) = change (skipComment cs) :=
  (h.whiles (fun c hc => by rw [hc]; rfl) cs).2

/-- What is changed behind the line is not seen by a number. -/
theorem readNumber_change (h : SparesLine change) (afterDot : Bool) (cs : List Char) :
    readNumber afterDot (change cs) =
      (readNumber afterDot cs).map fun (t, rest) => (t, change rest) := by
  obtain ⟨hwhole, hrest⟩ := h.whiles (fun _ => not_inNumber) cs
  have hint : (intToken (cs.takeWhile inNumber)).map (·, change (cs.dropWhile inNumber)) =
      ((intToken (cs.takeWhile inNumber)).map (·, cs.dropWhile inNumber)).map
        fun (t, rest) => (t, change rest) := by
    cases intToken (cs.takeWhile inNumber) <;> rfl
  cases afterDot with
  | true => rw [readNumber_afterDot, readNumber_afterDot, hwhole, hrest, hint]
  | false =>
    rcases h.head (d := '.') rfl (cs.dropWhile inNumber) with ⟨more, hpoint, hmore⟩ | ⟨hno, hno'⟩
    · obtain ⟨hfraction, hrest'⟩ := h.whiles (fun _ => not_inNumber) more
      rw [readNumber_point hpoint, readNumber_point (hrest.trans hmore), hwhole, hfraction, hrest']
      rcases h.head (d := '.') rfl (more.dropWhile inNumber) with
        ⟨others, hpoint', hothers⟩ | ⟨hno, hno'⟩
      · rw [hothers, hpoint']
        rfl
      · rw [if_neg hno, if_neg hno']
        rfl
    · rw [readNumber_of_no_point hno, readNumber_of_no_point (hrest ▸ hno'), hwhole, hrest, hint]

/-- What is changed behind the line is not seen by a symbol. -/
theorem readSymbol?_change (h : SparesLine change) (c : Char) (cs : List Char) :
    readSymbol? c (change cs) = (readSymbol? c cs).map fun (s, rest) => (s, change rest) := by
  have hsingle {cs : List Char} (hno : cs.head? ≠ some '=') :
      readSymbol? c cs = (Symbol.single? c).map fun s => (s, cs) := by
    unfold readSymbol?
    split
    next => exact absurd rfl hno
    · rfl
  rcases h.head (d := '=') rfl cs with ⟨more, rfl, hmore⟩ | ⟨hno, hno'⟩
  · rw [hmore]
    unfold readSymbol?
    cases Symbol.withEquals? c with
    | some s => rfl
    | none =>
      dsimp only
      cases Symbol.single? c with
      | none => rfl
      | some s => exact congrArg (fun rest => some (s, rest)) hmore.symm
  · rw [hsingle hno, hsingle hno']
    cases Symbol.single? c <;> rfl

/-- Every token but a text stays on its line. -/
theorem readToken_change (h : SparesLine change) (afterDot : Bool) (line : UInt32) {c : Char}
    (hc : c ≠ '"') (cs : List Char) :
    readToken afterDot line c (change cs) =
      (readToken afterDot line c cs).map fun (t, line', rest) => (t, line', change rest) := by
  unfold readToken
  split
  · obtain ⟨htake, hdrop⟩ := h.whiles (fun _ => not_inWord) cs
    rw [htake, hdrop]
    rfl
  · split
    next hdigit =>
      have hline : endsLine c = false := by
        cases hends : endsLine c with
        | false => rfl
        | true =>
          have hno := not_inNumber hends
          rw [inNumber, hdigit] at hno
          exact hno
      rw [← h.cons hline, h.readNumber_change]
      cases readNumber afterDot (c :: cs) <;> rfl
    · rw [h.readSymbol?_change]
      cases readSymbol? c cs <;> rfl

end SparesLine

end Lexer

end TickScript
