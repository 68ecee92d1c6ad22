import TickScript.Token
import TickScript.Diagnostic
import TickScript.Text.Blank

/-!
# From characters to lexemes

`tokenize` splits the text of one file. Blanks and comments separate tokens; lines are counted by
line feeds, carriage returns and pairs of the two, a pair counting once. A reader takes the
characters that belong to it and hands the rest back, and no reader hands back more than it was
given (`length_rest_readToken`), which is why `scan` ends.

Right after a dot a number has digits only, so that `t.0.1` selects twice instead of selecting by a
fraction.
-/

namespace TickScript.Lexer

/-- The line after a character that is followed by `rest`. A carriage return before a line feed
leaves the count to the line feed. -/
def lineAfter (line : UInt32) (c : Char) (rest : List Char) : UInt32 :=
  if c = '\n' then line + 1
  else if c = '\r' then (if rest.head? = some '\n' then line else line + 1)
  else line

/-- Drops leading blanks, counting lines. -/
def skipBlanks (line : UInt32) : List Char → UInt32 × List Char
  | [] => (line, [])
  | c :: cs => if Text.isBlank c then skipBlanks (lineAfter line c cs) cs else (line, c :: cs)

/-- Whether a character ends a comment. -/
def endsLine (c : Char) : Bool := c = '\n' || c = '\r'

/-- Drops the rest of a comment, up to the end of its line. -/
def skipComment (cs : List Char) : List Char := cs.dropWhile fun c => !endsLine c

/-- Whether a name can start with this character. -/
def startsWord (c : Char) : Bool := c.isAlpha || c = '_'

/-- Whether a name can go on with this character. -/
def inWord (c : Char) : Bool := c.isAlphanum || c = '_'

/-- Whether a number can go on with this character. Underscores only group digits. -/
def inNumber (c : Char) : Bool := c.isDigit || c = '_'

/-- A reserved word, or else a name. -/
def wordToken (cs : List Char) : Token :=
  let s := String.ofList cs
  match Keyword.ofSpelling? s with
  | some k => .keyword k
  | none => .name s

/-- The value of a run of digits, with the underscores left out. -/
def digitsValue (cs : List Char) : Nat :=
  cs.foldl (fun n c => if c.isDigit then 10 * n + (c.toNat - '0'.toNat) else n) 0

/-- An integer token, unless the number needs more than 63 bits. -/
def intToken (cs : List Char) : Except Cause Token :=
  let n := digitsValue cs
  if n < 9223372036854775808 then .ok (.int (Int64.ofNat n)) else .error .numberOutOfRange

/-- Reads a number; `cs` starts with its first digit. After a dot a point ends the number; elsewhere
one point makes it a float and a second one is an error. -/
def readNumber (afterDot : Bool) (cs : List Char) : Except Cause (Token × List Char) :=
  let whole := cs.takeWhile inNumber
  match cs.dropWhile inNumber with
  | '.' :: rest =>
    if afterDot then do
      let t ← intToken whole
      return (t, '.' :: rest)
    else
      let fraction := rest.takeWhile inNumber
      match rest.dropWhile inNumber with
      | '.' :: _ => .error .secondPoint
      | rest' =>
        .ok (.float (Decimal.readFloat (whole.filter Char.isDigit) (fraction.filter Char.isDigit)), rest')
  | rest => do
    let t ← intToken whole
    return (t, rest)

/-- What stands behind a backslash, as it is meant. -/
def unescape : Char → Char
  | 'n' => '\n'
  | 'r' => '\r'
  | 't' => '\t'
  | 'b' => '\x08'
  | c => c

/-- The contents of a text literal, the line it ends on and what follows it. -/
structure TextRead where
  contents : List Char
  line : UInt32
  rest : List Char

/-- The same literal with one more character in front. -/
def TextRead.cons (c : Char) (r : TextRead) : TextRead := { r with contents := c :: r.contents }

/-- Reads a text literal after its opening quote. An escaped line break is left out, any other line
break belongs to the text. Without a closing quote the line that was reached is the error. -/
def readText (line : UInt32) : List Char → Except UInt32 TextRead
  | [] => .error line
  | '"' :: rest => .ok ⟨[], line, rest⟩
  | ['\\'] => .error line
  | '\\' :: '\r' :: '\n' :: rest => readText (line + 1) rest
  | '\\' :: '\r' :: rest => readText (line + 1) rest
  | '\\' :: '\n' :: rest => readText (line + 1) rest
  | '\\' :: c :: rest => (readText line rest).map (TextRead.cons (unescape c))
  | c :: rest => (readText (lineAfter line c rest) rest).map (TextRead.cons c)

/-- Reads a symbol; the longer one wins. -/
def readSymbol? (c : Char) (rest : List Char) : Option (Symbol × List Char) :=
  match rest, Symbol.withEquals? c with
  | '=' :: rest', some s => some (s, rest')
  | _, _ => (Symbol.single? c).map fun s => (s, rest)

/-- Reads the token that starts with `c` and goes on in `rest`. An error names the line it is on. -/
def readToken (afterDot : Bool) (line : UInt32) (c : Char) (rest : List Char) :
    Except (Cause × UInt32) (Token × UInt32 × List Char) :=
  if startsWord c then
    .ok (wordToken (c :: rest.takeWhile inWord), line, rest.dropWhile inWord)
  else if c.isDigit then
    match readNumber afterDot (c :: rest) with
    | .ok (t, rest') => .ok (t, line, rest')
    | .error cause => .error (cause, line)
  else if c = '"' then
    match readText line rest with
    | .ok r => .ok (.text (String.ofList r.contents), r.line, r.rest)
    | .error line' => .error (.unclosedText, line')
  else match readSymbol? c rest with
    | some (s, rest') => .ok (.symbol s, line, rest')
    | none => .error (.invalidToken, line)

/-! ## Readers hand back no more than they were given -/

theorem length_dropWhile_le {α : Type} (p : α → Bool) :
    ∀ l : List α, (l.dropWhile p).length ≤ l.length
  | [] => Nat.le_refl 0
  | a :: l => by
    rw [List.dropWhile_cons]
    split
    · exact Nat.le_succ_of_le (length_dropWhile_le p l)
    · exact Nat.le_refl _

/-- Skipping blanks leaves no more characters than there were. -/
theorem length_skipBlanks_le (line : UInt32) (cs : List Char) :
    (skipBlanks line cs).2.length ≤ cs.length := by
  fun_induction skipBlanks line cs with
  | case1 => exact Nat.le_refl _
  | case2 _ _ _ _ ih => exact Nat.le_succ_of_le ih
  | case3 => exact Nat.le_refl _

/-- Nor does reading a text. -/
theorem length_rest_readText (line : UInt32) (cs : List Char) (r : TextRead)
    (h : readText line cs = .ok r) : r.rest.length ≤ cs.length := by
  fun_induction readText line cs generalizing r with
  | case1 | case3 => cases h
  | case2 => cases h; exact Nat.le_succ _
  | case4 _ _ ih | case5 _ _ _ ih | case6 _ _ ih =>
    have := ih _ h
    simp only [List.length_cons]
    omega
  | case7 line c rest _ _ _ ih =>
    match hr : readText line rest with
    | .error e => simp [hr, Except.map] at h
    | .ok r' =>
      simp only [hr, Except.map, Except.ok.injEq] at h
      subst h
      have := ih _ hr
      simp only [TextRead.cons, List.length_cons]
      omega
  | case8 line c rest _ _ _ _ _ _ ih =>
    match hr : readText (lineAfter line c rest) rest with
    | .error e => simp [hr, Except.map] at h
    | .ok r' =>
      simp only [hr, Except.map, Except.ok.injEq] at h
      subst h
      have := ih _ hr
      simp only [TextRead.cons, List.length_cons]
      omega

/-- Nor does reading a symbol. -/
theorem length_rest_readSymbol? {c : Char} {rest rest' : List Char} {s : Symbol}
    (h : readSymbol? c rest = some (s, rest')) : rest'.length ≤ rest.length := by
  unfold readSymbol? at h
  split at h
  · cases h; exact Nat.le_succ _
  · match hs : Symbol.single? c with
    | none => simp [hs] at h
    | some s' =>
      simp only [hs, Option.map_some, Option.some.injEq, Prod.mk.injEq] at h
      exact Nat.le_of_eq (congrArg List.length h.2.symm)

/-- What is behind the digits of an integer does not depend on the digits. -/
theorem rest_intToken {t : Token} {cs rest rest' : List Char}
    (h : (do let t ← intToken cs; return (t, rest) : Except Cause (Token × List Char))
      = .ok (t, rest')) : rest' = rest := by
  match hi : intToken cs with
  | .error e => simp [hi, bind, Except.bind] at h
  | .ok t' =>
    simp [hi, bind, Except.bind, pure, Except.pure] at h
    exact h.2.symm

/-- Reading a number leaves no more characters than there were. -/
theorem length_rest_readNumber {afterDot : Bool} {c : Char} {rest rest' : List Char} {t : Token}
    (hc : inNumber c = true) (h : readNumber afterDot (c :: rest) = .ok (t, rest')) :
    rest'.length ≤ rest.length := by
  have hd : ((c :: rest).dropWhile inNumber).length ≤ rest.length := by
    rw [List.dropWhile_cons_of_pos hc]
    exact length_dropWhile_le _ _
  unfold readNumber at h
  split at h
  · rename_i r hr
    rw [hr] at hd
    split at h
    · rw [rest_intToken h]; exact hd
    · split at h
      · cases h
      · have hw := length_dropWhile_le inNumber r
        simp only [Except.ok.injEq, Prod.mk.injEq] at h
        rw [← h.2]
        simp only [List.length_cons] at hd
        omega
  · rw [rest_intToken h]; exact hd

/-- What follows a token is no longer than what followed its first character. -/
theorem length_rest_readToken {afterDot : Bool} {line line' : UInt32} {c : Char}
    {rest rest' : List Char} {t : Token}
    (h : readToken afterDot line c rest = .ok (t, line', rest')) : rest'.length ≤ rest.length := by
  unfold readToken at h
  split at h
  · simp only [Except.ok.injEq, Prod.mk.injEq] at h
    rw [← h.2.2]
    exact length_dropWhile_le _ _
  · split at h
    · rename_i hdigit
      split at h
      · rename_i hn
        simp only [Except.ok.injEq, Prod.mk.injEq] at h
        rw [← h.2.2]
        exact length_rest_readNumber (by simp [inNumber, hdigit]) hn
      · cases h
    · split at h
      · split at h
        · rename_i r hr
          simp only [Except.ok.injEq, Prod.mk.injEq] at h
          rw [← h.2.2]
          exact length_rest_readText _ _ _ hr
        · cases h
      · split at h
        · rename_i hs
          simp only [Except.ok.injEq, Prod.mk.injEq] at h
          rw [← h.2.2]
          exact length_rest_readSymbol? hs
        · cases h

/-! ## The scanner -/

set_option linter.unusedVariables false in
/-- Splits what is left of a file, from a line on and after a dot or not. -/
def scan (file : String) (line : UInt32) (afterDot : Bool) (cs : List Char) :
    Except Diagnostic (List Lexeme) :=
  match hs : skipBlanks line cs with
  | (_, []) => .ok []
  | (start, c :: rest) =>
    if c = '#' then scan file start afterDot (skipComment rest)
    else match ht : readToken afterDot start c rest with
      | .error (cause, errorLine) => .error ⟨cause, ⟨errorLine, file⟩⟩
      | .ok (t, line', rest') =>
        match scan file line' (t = .symbol .dot) rest' with
        | .error e => .error e
        | .ok more => .ok (⟨t, ⟨start, file⟩⟩ :: more)
termination_by cs.length
decreasing_by
  · have h := length_skipBlanks_le line cs
    rw [hs] at h
    have := length_dropWhile_le (fun c => !endsLine c) rest
    simp only [List.length_cons] at h
    simp only [skipComment]
    omega
  · have h := length_skipBlanks_le line cs
    rw [hs] at h
    have := length_rest_readToken ht
    simp only [List.length_cons] at h
    omega

/-- The lexemes of one file. -/
def tokenize (file : String) (source : String) : Except Diagnostic (List Lexeme) :=
  scan file 1 false source.toList

end TickScript.Lexer
