import Mathlib
import TickScript.Proofs.Token.Scanning

/-!
# Written tokens are read back

Tokens are put into a script with single spaces between them, and reading the script gives them again
(`Lexer.tokenize_script`). A space ends every token but a text: a word, a run of digits and a symbol go on
no further than their own characters, whichever token comes next. What could be read in two ways is
decided inside one token: a word is a reserved one before it is a name, and two characters make one
symbol if they can.

Texts are written raw. Only a quote and a backslash are escaped in them, so line breaks count lines
there, and nothing in a text starts a comment.
-/

namespace TickScript

/-! ## Writing -/

/-- A character between quotes: a quote and a backslash have a backslash in front. -/
def Text.escape (c : Char) : List Char := if c = '"' ∨ c = '\\' then ['\\', c] else [c]

namespace Token

/-- The token as it stands in a script. The characters of a text stand there as they are. -/
def written : Token → String
  | text s => String.ofList ('"' :: (s.toList.flatMap Text.escape ++ ['"']))
  | t => t.spelling

/-- Whether a word is a name: a letter or underscore and then letters, digits and underscores, but no
reserved word. -/
def isName (s : String) : Bool :=
  match s.toList with
  | [] => false
  | c :: cs => Lexer.startsWord c && cs.all Lexer.inWord && (Keyword.ofSpelling? s).isNone

/-- Whether the token can be written: names have to be names, integers have no sign, and floats are left
aside. -/
def writable : Token → Bool
  | name s => isName s
  | int n => decide (0 ≤ n)
  | float _ => false
  | text _ | keyword _ | symbol _ => true

/-- Tokens with single spaces between them. -/
def script (ts : List Token) : String := " ".intercalate (ts.map written)

end Token

namespace Lexer

/-! ## What follows a token -/

/-- A space or the end. -/
def Separated : List Char → Prop
  | [] => True
  | c :: _ => c = ' '

section Separated

variable {p : Char → Bool} {cs rest : List Char}

/-- Up to a space a word is read as a whole. -/
theorem takeWhile_separated (hp : p ' ' = false) (hcs : ∀ c ∈ cs, p c = true)
    (hrest : Separated rest) : (cs ++ rest).takeWhile p = cs := by
  rw [List.takeWhile_append_of_pos hcs]
  cases rest with
  | nil => exact List.append_nil _
  | cons c rest =>
    obtain rfl : c = ' ' := hrest
    rw [List.takeWhile_cons_of_neg (by rw [hp]; exact Bool.false_ne_true), List.append_nil]

/-- Behind a word comes what was separated from it. -/
theorem dropWhile_separated (hp : p ' ' = false) (hcs : ∀ c ∈ cs, p c = true)
    (hrest : Separated rest) : (cs ++ rest).dropWhile p = rest := by
  rw [List.dropWhile_append_of_pos hcs]
  cases rest with
  | nil => rfl
  | cons c rest =>
    obtain rfl : c = ' ' := hrest
    rw [List.dropWhile_cons_of_neg (by rw [hp]; exact Bool.false_ne_true)]

end Separated

/-! ## Reading one token -/

/-- The token is read back from its characters before a space or the end, wherever it stands. -/
def Legible (t : Token) : Prop :=
  ∃ c cs, t.written.toList = c :: cs ∧ Text.isBlank c = false ∧ c ≠ '#' ∧
    ∀ afterDot line rest, Separated rest →
      ∃ line', readToken afterDot line c (cs ++ rest) = .ok (t, line', rest)

/-! ## Words -/

theorem isBlank_of_range {c : Char} (h : 0x20 < c.toNat ∧ c.toNat < 0x85) : Text.isBlank c = false := by
  simp only [Text.isBlank, Text.inRanges, Text.blankRanges, List.any_eq_false, List.mem_cons,
    List.not_mem_nil, or_false, Bool.and_eq_true, decide_eq_true_eq]
  rintro r hr ⟨hlow, hhigh⟩
  rcases hr with rfl | rfl | rfl | rfl | rfl | rfl | rfl | rfl | rfl | rfl <;>
    dsimp only at hlow hhigh <;> omega

/-- Characters of a word are not blank. -/
theorem isBlank_of_inWord {c : Char} (h : inWord c = true) : Text.isBlank c = false := by
  refine isBlank_of_range ?_
  simp only [inWord, Char.isAlphanum, Char.isAlpha, Char.isUpper, Char.isLower, Char.isDigit,
    Bool.or_eq_true, Bool.and_eq_true, decide_eq_true_eq, UInt32.le_iff_toNat_le, ge_iff_le] at h
  rcases h with (((⟨hlow, hhigh⟩ | ⟨hlow, hhigh⟩) | ⟨hlow, hhigh⟩) | rfl)
  · exact ⟨Nat.lt_of_lt_of_le (by decide) hlow, Nat.lt_of_le_of_lt hhigh (by decide)⟩
  · exact ⟨Nat.lt_of_lt_of_le (by decide) hlow, Nat.lt_of_le_of_lt hhigh (by decide)⟩
  · exact ⟨Nat.lt_of_lt_of_le (by decide) hlow, Nat.lt_of_le_of_lt hhigh (by decide)⟩
  · decide

/-- What may start a word may go on with it. -/
theorem inWord_of_startsWord {c : Char} (h : startsWord c = true) : inWord c = true := by
  simp only [startsWord, inWord, Char.isAlphanum, Bool.or_eq_true] at h ⊢
  exact h.imp_left .inl

/-- A word goes on as far as its characters do. What it is, a reserved word or a name, is looked up. -/
theorem legible_word {t : Token} {c : Char} {cs : List Char} (hwritten : t.written.toList = c :: cs)
    (hc : startsWord c = true) (hcs : ∀ x ∈ cs, inWord x = true) (ht : wordToken (c :: cs) = t) :
    Legible t := by
  refine ⟨c, cs, hwritten, ?_, ?_, fun afterDot line rest hrest => ⟨line, ?_⟩⟩
  · exact isBlank_of_inWord (inWord_of_startsWord hc)
  · rintro rfl
    cases hc
  · rw [readToken, if_pos hc, takeWhile_separated rfl hcs hrest, dropWhile_separated rfl hcs hrest, ht]

/-- A keyword is found by its spelling. -/
theorem ofSpelling?_spelling (k : Keyword) : Keyword.ofSpelling? k.spelling = some k := by
  cases k <;> rfl

theorem legible_keyword (k : Keyword) : Legible (.keyword k) := by
  obtain ⟨c, cs, hk, hc, hcs⟩ : ∃ c cs, k.spelling.toList = c :: cs ∧ startsWord c = true ∧
      cs.all inWord = true := by
    cases k <;> exact ⟨_, _, rfl, rfl, rfl⟩
  refine legible_word hk hc (List.all_eq_true.1 hcs) ?_
  rw [wordToken, ← hk, String.ofList_toList, ofSpelling?_spelling]

/-- A name is read back. -/
theorem legible_name {s : String} (hs : Token.isName s = true) : Legible (.name s) := by
  unfold Token.isName at hs
  split at hs
  · cases hs
  next c cs hchars =>
    simp only [Bool.and_eq_true, List.all_eq_true, Option.isNone_iff_eq_none] at hs
    obtain ⟨⟨hc, hcs⟩, hnone⟩ := hs
    refine legible_word hchars hc hcs ?_
    rw [wordToken, ← hchars, String.ofList_toList, hnone]

/-! ## Numbers -/

/-- Digits are read as the number they stand for. -/
theorem foldl_digits {cs : List Char} (hcs : ∀ c ∈ cs, c.isDigit = true) (acc : Nat) :
    cs.foldl (fun n c => if c.isDigit then 10 * n + (c.toNat - '0'.toNat) else n) acc =
      Nat.ofDigitChars 10 cs acc := by
  induction cs generalizing acc with
  | nil => rfl
  | cons c cs ih =>
    rw [List.foldl_cons, if_pos (hcs c (List.mem_cons_self ..)),
      ih fun x hx => hcs x (List.mem_cons_of_mem _ hx)]
    rfl

theorem isDigit_of_mem_digitText {n : Nat} {c : Char} (h : c ∈ Decimal.digitText n) : c.isDigit = true :=
  Nat.isDigit_of_mem_toDigits (by decide) (by decide) h

/-- The digits of a number stand for it. -/
theorem digitsValue_digitText (n : Nat) : digitsValue (Decimal.digitText n) = n := by
  rw [digitsValue, foldl_digits fun c hc => isDigit_of_mem_digitText hc]
  exact Nat.ofDigitChars_toDigits (by decide) (by decide)

theorem startsWord_of_isDigit {c : Char} (h : c.isDigit = true) : startsWord c = false := by
  simp only [Char.isDigit, Bool.and_eq_true, decide_eq_true_eq, UInt32.le_iff_toNat_le, ge_iff_le] at h
  simp only [startsWord, Char.isAlpha, Char.isUpper, Char.isLower, Bool.or_eq_false_iff,
    Bool.and_eq_false_iff, decide_eq_false_iff_not, UInt32.le_iff_toNat_le, ge_iff_le]
  refine ⟨⟨fun h' => absurd (Nat.le_trans h'.1 h.2) (by decide),
    .inl fun h' => absurd (Nat.le_trans h' h.2) (by decide)⟩, ?_⟩
  rintro rfl
  exact absurd h.2 (by decide)

/-- The digits of a number below 2⁶³ are read as that integer. -/
theorem intToken_digitText {k : Nat} (hk : k < 9223372036854775808) :
    intToken (Decimal.digitText k) = .ok (.int (Int64.ofNat k)) := by
  rw [intToken, digitsValue_digitText]
  exact if_pos hk

/-- A run of digits is a number of its own before a space, after a dot as elsewhere. -/
theorem readNumber_separated {cs rest : List Char} {t : Token} (hcs : ∀ c ∈ cs, c.isDigit = true)
    (hrest : Separated rest) (ht : intToken cs = .ok t) (afterDot : Bool) :
    readNumber afterDot (cs ++ rest) = .ok (t, rest) := by
  have hin : ∀ c ∈ cs, inNumber c = true := fun c hc => by rw [inNumber, hcs c hc, Bool.true_or]
  rw [readNumber, takeWhile_separated rfl hin hrest, dropWhile_separated rfl hin hrest]
  dsimp only
  rw [ht]
  cases rest with
  | nil => rfl
  | cons c rest =>
    obtain rfl : c = ' ' := hrest
    rfl

/-- An integer that is not negative is read back. -/
theorem legible_int {n : Int64} (hn : 0 ≤ n) : Legible (.int n) := by
  obtain ⟨k, hk⟩ := Int.eq_ofNat_of_zero_le (Int64.le_iff_toInt_le.1 hn)
  have hsmall : k < 9223372036854775808 := by
    have := Int64.toInt_lt n
    omega
  have hvalue : Int64.ofNat k = n := by rw [← Int64.toInt_inj, Int64.toInt_ofNat_of_lt hsmall, hk]
  have hdigits : ∀ c ∈ Decimal.digitText k, c.isDigit = true := fun c hc =>
    isDigit_of_mem_digitText hc
  have hwritten : (Token.int n).written.toList = Decimal.digitText k := by
    change (Decimal.intText n.toInt).toList = _
    rw [hk]
    exact String.toList_ofList
  have htoken := intToken_digitText hsmall
  rw [hvalue] at htoken
  obtain ⟨c, cs, hcs⟩ : ∃ c cs, Decimal.digitText k = c :: cs :=
    List.exists_cons_of_ne_nil Nat.toDigits_ne_nil
  rw [hcs] at hdigits hwritten htoken
  have hc : c.isDigit = true := hdigits c (List.mem_cons_self ..)
  refine ⟨c, cs, hwritten, isBlank_of_inWord ?_, ?_, fun afterDot line rest hrest => ⟨line, ?_⟩⟩
  · rw [inWord, Char.isAlphanum, hc, Bool.or_true, Bool.true_or]
  · rintro rfl
    cases hc
  · rw [readToken, startsWord_of_isDigit hc, if_neg Bool.false_ne_true, if_pos hc, ← List.cons_append,
      readNumber_separated hdigits hrest htoken]

/-! ## Texts -/

/-- A quote and a backslash are escaped by a backslash. -/
theorem readText_backslash {c : Char} (hc : c = '"' ∨ c = '\\') (line : UInt32) (rest : List Char) :
    readText line ('\\' :: c :: rest) = (readText line rest).map (TextRead.cons c) := by
  rcases hc with rfl | rfl
  all_goals exact readText_escaped (by decide) line rest

/-- Whatever the text, line breaks and comment signs and all. -/
theorem readText_escape (cs : List Char) (line : UInt32) (rest : List Char) :
    ∃ line', readText line (cs.flatMap Text.escape ++ '"' :: rest) = .ok ⟨cs, line', rest⟩ := by
  induction cs generalizing line with
  | nil => exact ⟨line, rfl⟩
  | cons c cs ih =>
    rw [List.flatMap_cons, Text.escape, List.append_assoc]
    split
    next hc =>
      obtain ⟨line', h⟩ := ih line
      refine ⟨line', ?_⟩
      rw [List.cons_append, List.cons_append, List.nil_append, readText_backslash hc, h]
      rfl
    next hc =>
      obtain ⟨line', h⟩ := ih (lineAfter line c (cs.flatMap Text.escape ++ '"' :: rest))
      refine ⟨line', ?_⟩
      rw [List.cons_append, List.nil_append, readText_raw hc, h]
      rfl

/-- Every text is read back. -/
theorem legible_text (s : String) : Legible (.text s) := by
  refine ⟨'"', s.toList.flatMap Text.escape ++ ['"'], String.toList_ofList, by decide, by decide,
    fun afterDot line rest _ => ?_⟩
  obtain ⟨line', h⟩ := readText_escape s.toList line rest
  refine ⟨line', ?_⟩
  rw [List.append_assoc, List.singleton_append, readToken, h]
  simp only [String.ofList_toList]
  rfl

/-! ## Symbols -/

theorem legible_symbol (s : Symbol) : Legible (.symbol s) := by
  cases s
  all_goals
    refine ⟨_, _, rfl, by decide, by decide, fun afterDot line rest hrest => ⟨line, ?_⟩⟩
    cases rest with
    | nil => rfl
    | cons c rest =>
      obtain rfl : c = ' ' := hrest
      rfl

/-! ## Scanning -/

/-- Every token that can be written is read back when it is separated from the next one. -/
theorem legible_of_writable {t : Token} (h : t.writable = true) : Legible t := by
  cases t with
  | name s => exact legible_name h
  | int n => exact legible_int (of_decide_eq_true h)
  | float x => cases h
  | text s => exact legible_text s
  | keyword k => exact legible_keyword k
  | symbol s => exact legible_symbol s

/-- A written script is its tokens with spaces between them. -/
theorem toList_script (ts : List Token) :
    (Token.script ts).toList = [' '].intercalate (ts.map fun t => t.written.toList) := by
  rw [Token.script, String.toList_intercalate, List.map_map]
  rfl

/-- What follows a token in a script does not go on with it, and is read as the other tokens are. -/
theorem exists_toList_script_cons (t : Token) (ts : List Token) :
    ∃ rest, (Token.script (t :: ts)).toList = t.written.toList ++ rest ∧ Separated rest ∧
      ∀ file line afterDot,
        scan file line afterDot rest = scan file line afterDot (Token.script ts).toList := by
  rw [toList_script, toList_script, List.map_cons]
  cases ts with
  | nil =>
    rw [List.map_nil, List.intercalate_singleton, List.intercalate_nil]
    exact ⟨[], (List.append_nil _).symm, trivial, fun _ _ _ => rfl⟩
  | cons t' ts =>
    rw [List.map_cons, List.intercalate_cons_cons, List.append_assoc, List.singleton_append]
    exact ⟨_, rfl, rfl, fun file line afterDot => scan_blank (by decide)⟩

/-- A written script is scanned into its tokens. -/
theorem exists_scan_script (file : String) {ts : List Token} (h : ∀ t ∈ ts, t.writable = true)
    (line : UInt32) (afterDot : Bool) :
    ∃ ls, scan file line afterDot (Token.script ts).toList = .ok ls ∧ ls.map Lexeme.token = ts := by
  induction ts generalizing line afterDot with
  | nil => exact ⟨[], scan_nil file line afterDot, rfl⟩
  | cons t ts ih =>
    obtain ⟨c, cs, hwritten, hblank, hcomment, hread⟩ := legible_of_writable (h t (List.mem_cons_self ..))
    obtain ⟨rest, hscript, hrest, hscan⟩ := exists_toList_script_cons t ts
    obtain ⟨line', ht⟩ := hread afterDot line rest hrest
    obtain ⟨ls, hls, htokens⟩ := ih (fun t' ht' => h t' (List.mem_cons_of_mem _ ht')) line'
      (t = .symbol .dot)
    rw [hscript, hwritten, List.cons_append]
    refine ⟨⟨t, ⟨line, file⟩⟩ :: ls, ?_, by rw [List.map_cons, htokens]⟩
    rw [scan_token hblank hcomment, ht]
    dsimp only
    rw [hscan, hls]
    rfl

/-- **Reading undoes writing.** -/
theorem tokenize_script (file : String) {ts : List Token} (h : ∀ t ∈ ts, t.writable = true) :
    ∃ ls, tokenize file (Token.script ts) = .ok ls ∧ ls.map Lexeme.token = ts :=
  exists_scan_script file h 1 false

/-- Names that begin like reserved words, symbols that could be one, a number after a dot and in front of
one, and a text of quotes, backslashes, line breaks and a comment sign. -/
theorem tokenize_script_mixed :
    let ts : List Token := [.keyword .kwIf, .name "iff", .name "_9", .symbol .less, .symbol .assign,
      .symbol .lessEqual, .symbol .dot, .int 0, .symbol .dot, .int 9223372036854775807,
      .text "\"\\\r\n# n\r", .keyword .kwElse]
    Token.script ts = "if iff _9 < = <= . 0 . 9223372036854775807 \"\\\"\\\\\r\n# n\r\" else" ∧
      (∀ t ∈ ts, t.writable = true) ∧
      ∃ ls, tokenize "main.bt" (Token.script ts) = .ok ls ∧ ls.map Lexeme.token = ts := by
  intro ts
  have hwritable : ∀ t ∈ ts, t.writable = true := by decide
  exact ⟨by decide, hwritable, tokenize_script "main.bt" hwritable⟩

end Lexer

end TickScript
