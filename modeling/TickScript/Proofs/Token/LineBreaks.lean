import TickScript.Proofs.Token.Scanning

/-!
# Line breaks in three spellings

A line ends in a line feed, in a carriage return or in a pair of the two. `Text.lineFeeds` writes all of
them as line feeds. A script tells them apart only inside its texts, where a raw line break belongs to
the contents (`Lexer.tokenize_withLineFeeds`): it is accepted with line feeds if it is accepted as it is,
with the same tokens on the same lines, or it is refused for the same reason at the same place.

Between tokens line breaks are blanks, and they end comments, names and numbers in any spelling. What
is left are the lines, and `lineAfter` counts a pair once because it leaves the carriage return to the
line feed.
-/

namespace TickScript

namespace Text

/-- The characters with a line feed for every line break: for a pair of a carriage return and a line
feed, for a carriage return on its own and for a line feed. -/
def lineFeeds : List Char → List Char
  | [] => []
  | '\r' :: '\n' :: cs => '\n' :: lineFeeds cs
  | '\r' :: cs => '\n' :: lineFeeds cs
  | c :: cs => c :: lineFeeds cs

/-- How many line breaks there are, pairs counting once. -/
def lineBreaks (cs : List Char) : Nat := (lineFeeds cs).count '\n'

/-- The text with a line feed for every line break. -/
def withLineFeeds (s : String) : String := String.ofList (lineFeeds s.toList)

/-- The text without carriage returns and line feeds. -/
def withoutBreaks (s : String) : String :=
  String.ofList (s.toList.filter fun c => !Lexer.endsLine c)

/-- A carriage return before a line feed is left out. -/
theorem lineFeeds_pair (cs : List Char) : lineFeeds ('\r' :: '\n' :: cs) = lineFeeds ('\n' :: cs) := rfl

/-- A carriage return on its own becomes a line feed. -/
theorem lineFeeds_return {cs : List Char} (h : cs.head? ≠ some '\n') :
    lineFeeds ('\r' :: cs) = '\n' :: lineFeeds cs := by
  rw [lineFeeds]
  rintro rest rfl
  exact h rfl

/-- All other characters stay. -/
theorem lineFeeds_cons {c : Char} (hc : c ≠ '\r') (cs : List Char) :
    lineFeeds (c :: cs) = c :: lineFeeds cs := by
  rw [lineFeeds]
  · exact fun _ h => absurd h hc
  · exact hc

/-- Where a carriage return stood, a line feed stands. -/
theorem head?_lineFeeds_return (cs : List Char) : (lineFeeds ('\r' :: cs)).head? = some '\n' := by
  by_cases h : cs.head? = some '\n'
  · obtain ⟨others, rfl⟩ := List.head?_eq_some_iff.1 h
    rfl
  · rw [lineFeeds_return h]
    rfl

end Text

/-- The token with all line breaks taken out of its text, if it is one. -/
def Token.withoutBreaks : Token → Token
  | .text s => .text (Text.withoutBreaks s)
  | t => t

/-- The lexeme with all line breaks taken out of its text, if it is one. -/
def Lexeme.withoutBreaks (l : Lexeme) : Lexeme := { l with token := l.token.withoutBreaks }

namespace Lexer

open Text (lineFeeds lineFeeds_pair lineFeeds_return lineFeeds_cons head?_lineFeeds_return)

/-- Up to the end of the line nothing is changed. -/
theorem sparesLine_lineFeeds : SparesLine lineFeeds where
  cons := by
    intro c cs hc
    refine lineFeeds_cons ?_ cs
    rintro rfl
    cases hc
  stop := by
    intro cs h
    cases cs with
    | nil => exact h
    | cons c cs =>
      by_cases hc : c = '\r'
      · subst hc
        rintro d hd
        cases (head?_lineFeeds_return cs).symm.trans hd
        rfl
      · rw [lineFeeds_cons hc]
        rintro d ⟨⟩
        exact h _ rfl

/-! ## Lines -/

/-- A carriage return on its own ends a line. -/
theorem lineAfter_return (line : UInt32) {cs : List Char} (h : cs.head? ≠ some '\n') :
    lineAfter line '\r' cs = line + 1 := if_neg h

/-- Only for a carriage return it matters what comes behind it. -/
theorem lineAfter_of_ne {c : Char} (hc : c ≠ '\r') (line : UInt32) (cs cs' : List Char) :
    lineAfter line c cs = lineAfter line c cs' := by
  unfold lineAfter
  rw [if_neg hc, if_neg hc]

/-! ## Texts -/

/-- The text read, with all line breaks taken out of its contents. -/
def TextRead.withoutBreaks (r : TextRead) : TextRead :=
  { r with contents := r.contents.filter fun c => !endsLine c }

/-- The text read, with line feeds for the line breaks behind it. -/
def TextRead.feedRest (r : TextRead) : TextRead := { r with rest := lineFeeds r.rest }

/-- The text read with one more character in front, unless it is a line break. -/
def TextRead.consUnlessBreak (c : Char) (r : TextRead) : TextRead :=
  if endsLine c then r else r.cons c

/-- Leaving line breaks out of a text does so for its first character and the others. -/
theorem map_cons_withoutBreaks (c : Char) (x : Except UInt32 TextRead) :
    (x.map (TextRead.cons c)).map TextRead.withoutBreaks =
      (x.map TextRead.withoutBreaks).map (TextRead.consUnlessBreak c) := by
  cases x with
  | error line => rfl
  | ok r =>
    simp only [Except.map, TextRead.withoutBreaks, TextRead.cons, TextRead.consUnlessBreak,
      List.filter_cons]
    cases endsLine c <;> rfl

/-- What becomes of the text behind does not change the text that was read. -/
theorem map_consUnlessBreak_feedRest (c : Char) (x : Except UInt32 TextRead) :
    (x.map TextRead.feedRest).map (TextRead.consUnlessBreak c) =
      (x.map (TextRead.consUnlessBreak c)).map TextRead.feedRest := by
  cases x with
  | error line => rfl
  | ok r =>
    simp only [Except.map, TextRead.consUnlessBreak]
    cases endsLine c <;> rfl

/-- A line break is left out. -/
theorem map_consUnlessBreak_of_endsLine {c : Char} (hc : endsLine c = true)
    (x : Except UInt32 TextRead) : x.map (TextRead.consUnlessBreak c) = x := by
  cases x with
  | error line => rfl
  | ok r => rw [Except.map, TextRead.consUnlessBreak, if_pos hc]

/-- A text ends at the same place, and on the same line, when its line breaks are line feeds. -/
theorem readText_lineFeeds (line : UInt32) (cs : List Char) :
    (readText line (lineFeeds cs)).map TextRead.withoutBreaks =
      ((readText line cs).map TextRead.withoutBreaks).map TextRead.feedRest := by
  fun_induction readText line cs with
  | case1 => rfl
  | case2 line rest => rw [lineFeeds_cons (by decide), readText]; rfl
  | case3 => rfl
  | case4 line rest ih =>
    rw [lineFeeds_cons (by decide), lineFeeds_pair, lineFeeds_cons (by decide), readText, ih]
  | case5 line rest hpair ih =>
    rw [lineFeeds_cons (by decide), lineFeeds_return, readText, ih]
    intro hhead
    obtain ⟨others, rfl⟩ := List.head?_eq_some_iff.1 hhead
    exact hpair others rfl
  | case6 line rest ih =>
    rw [lineFeeds_cons (by decide), lineFeeds_cons (by decide), readText, ih]
  | case7 line c rest _ hreturn hfeed ih =>
    have hc : endsLine c = false := endsLine_eq_false hfeed hreturn
    rw [lineFeeds_cons (by decide), lineFeeds_cons hreturn, readText_escaped hc,
      map_cons_withoutBreaks, ih, map_consUnlessBreak_feedRest, map_cons_withoutBreaks]
  | case8 line c rest hquote hend _ _ _ hescape ih =>
    rw [map_cons_withoutBreaks, ← map_consUnlessBreak_feedRest, ← ih]
    have hraw := raw_of_not_escape hquote hend hescape
    by_cases hreturn : c = '\r'
    · subst hreturn
      rw [map_consUnlessBreak_of_endsLine rfl]
      by_cases hhead : rest.head? = some '\n'
      · obtain ⟨others, rfl⟩ := List.head?_eq_some_iff.1 hhead
        rw [lineFeeds_pair]
        rfl
      · rw [lineFeeds_return hhead, lineAfter_return line hhead, readText_raw (by decide),
          map_cons_withoutBreaks, map_consUnlessBreak_of_endsLine rfl]
        rfl
    · rw [lineFeeds_cons hreturn, readText_raw hraw, map_cons_withoutBreaks,
        lineAfter_of_ne hreturn line rest (lineFeeds rest)]

/-- A text without an end has none with other line breaks, and the error is on the same line. -/
theorem readText_lineFeeds_error {line errorLine : UInt32} {cs : List Char}
    (h : readText line cs = .error errorLine) : readText line (lineFeeds cs) = .error errorLine := by
  have hfed := readText_lineFeeds line cs
  rw [h] at hfed
  cases hread : readText line (lineFeeds cs) with
  | error errorLine' =>
    rw [hread] at hfed
    cases hfed
    rfl
  | ok r => rw [hread] at hfed; cases hfed

/-- A text is read with other line breaks, and is the same up to these. -/
theorem exists_readText_lineFeeds {line : UInt32} {cs : List Char} {r : TextRead}
    (h : readText line cs = .ok r) :
    ∃ contents, readText line (lineFeeds cs) = .ok ⟨contents, r.line, lineFeeds r.rest⟩ ∧
      (contents.filter fun c => !endsLine c) = r.contents.filter fun c => !endsLine c := by
  have hfed := readText_lineFeeds line cs
  rw [h] at hfed
  cases hread : readText line (lineFeeds cs) with
  | error errorLine => rw [hread] at hfed; cases hfed
  | ok r' =>
    rw [hread] at hfed
    obtain ⟨contents, line', rest⟩ := r'
    obtain ⟨hcontents, hline, hrest⟩ := TextRead.mk.inj (Except.ok.inj hfed)
    cases hline
    cases hrest
    exact ⟨contents, rfl, hcontents⟩

/-! ## Scripts -/

/-- Lexemes that are the same up to line breaks may be put in front of others that are. -/
theorem map_withoutBreaks_cons {l l' : Lexeme} {x x' : Except Diagnostic (List Lexeme)}
    (hl : l.withoutBreaks = l'.withoutBreaks)
    (hx : x.map (List.map Lexeme.withoutBreaks) = x'.map (List.map Lexeme.withoutBreaks)) :
    (x.map (l :: ·)).map (List.map Lexeme.withoutBreaks) =
      (x'.map (l' :: ·)).map (List.map Lexeme.withoutBreaks) := by
  have hcons (l : Lexeme) (x : Except Diagnostic (List Lexeme)) :
      (x.map (l :: ·)).map (List.map Lexeme.withoutBreaks) =
        (x.map (List.map Lexeme.withoutBreaks)).map (l.withoutBreaks :: ·) := by
    cases x <;> rfl
  rw [hcons, hcons, hl, hx]

/-- Other line breaks change nothing but the line breaks inside texts. -/
theorem scan_lineFeeds (file : String) (line : UInt32) (afterDot : Bool) (cs : List Char) :
    (scan file line afterDot (lineFeeds cs)).map (List.map Lexeme.withoutBreaks) =
      (scan file line afterDot cs).map (List.map Lexeme.withoutBreaks) := by
  induction cs using scan_induction generalizing line afterDot with
  | nil => rfl
  | blank c cs hc ih =>
    by_cases hreturn : c = '\r'
    · subst hreturn
      by_cases hhead : cs.head? = some '\n'
      · obtain ⟨others, rfl⟩ := List.head?_eq_some_iff.1 hhead
        rw [lineFeeds_pair, scan_blank hc]
        exact ih line afterDot
      · rw [lineFeeds_return hhead, scan_blank (by decide), scan_blank hc, lineAfter_return line hhead]
        exact ih (line + 1) afterDot
    · rw [lineFeeds_cons hreturn, scan_blank hc, scan_blank hc,
        lineAfter_of_ne hreturn line (lineFeeds cs) cs, ih]
  | comment cs ih =>
    rw [lineFeeds_cons (by decide), scan_comment, scan_comment,
      sparesLine_lineFeeds.skipComment_change, ih]
  | token c cs hblank hcomment ih =>
    have hreturn : c ≠ '\r' := by
      rintro rfl
      cases hblank
    rw [lineFeeds_cons hreturn, scan_token hblank hcomment, scan_token hblank hcomment]
    -- Only a text may have line breaks inside, and there they count but may differ.
    by_cases hquote : c = '"'
    · subst hquote
      cases hraw : readText line cs with
      | error errorLine => rw [readToken_quote, readToken_quote, readText_lineFeeds_error hraw, hraw]
      | ok r =>
        obtain ⟨contents, hfed, hcontents⟩ := exists_readText_lineFeeds hraw
        have ht : readToken afterDot line '"' cs = .ok (.text (String.ofList r.contents), r.line, r.rest) := by
          rw [readToken_quote, hraw]
          rfl
        rw [ht, readToken_quote, hfed]
        refine map_withoutBreaks_cons ?_ (ih ht r.line _)
        simp only [Lexeme.withoutBreaks, Token.withoutBreaks, Text.withoutBreaks, String.toList_ofList,
          hcontents]
    · rw [sparesLine_lineFeeds.readToken_change afterDot line hquote]
      cases ht : readToken afterDot line c cs with
      | error e => rfl
      | ok done =>
        obtain ⟨t, line', rest⟩ := done
        exact map_withoutBreaks_cons rfl (ih ht line' (t = .symbol .dot))

/-- **Any spelling of line breaks will do.** -/
theorem tokenize_withLineFeeds (file s : String) :
    (tokenize file (Text.withLineFeeds s)).map (List.map Lexeme.withoutBreaks) =
      (tokenize file s).map (List.map Lexeme.withoutBreaks) := by
  rw [tokenize, Text.withLineFeeds, String.toList_ofList]
  exact scan_lineFeeds file 1 false s.toList

end Lexer

end TickScript
