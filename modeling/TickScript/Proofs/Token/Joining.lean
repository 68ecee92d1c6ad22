import Mathlib
import TickScript.Proofs.Token.LineBreaks

/-!
# Scripts one below the other

A script with another one below it, on a line of its own, is scanned as the two are scanned apart
(`Lexer.tokenize_append_line`). Nothing of the first goes on behind the line break: comments, names and
numbers end there, half of a symbol finds no other half, and texts were closed before. All that is
handed on is the line, and whether a dot stood last; after a dot numbers are read differently, so the
first script must not end with one.

The line on which the whole ends is the same wherever a reader stands (`endLine`). It gives the line
behind the first script without regard to how the readers went through it.
-/

namespace TickScript

namespace Lexer

open Text (lineFeeds lineBreaks lineFeeds_pair lineFeeds_return lineFeeds_cons)

/-! ## The last line -/

/-- The line on which what is left ends. -/
def endLine (line : UInt32) (cs : List Char) : UInt32 := line + UInt32.ofNat (lineBreaks cs)

theorem endLine_nil (line : UInt32) : endLine line [] = line := UInt32.add_zero line

theorem endLine_feed (line : UInt32) (cs : List Char) :
    endLine line ('\n' :: cs) = endLine (line + 1) cs := by
  rw [endLine, lineBreaks, lineFeeds_cons (by decide), List.count_cons_self, UInt32.ofNat_add,
    UInt32.add_comm (UInt32.ofNat _), ← UInt32.add_assoc]
  rfl

/-- A character that ends no line leaves the line. -/
theorem endLine_cons {c : Char} (hc : endsLine c = false) (line : UInt32) (cs : List Char) :
    endLine line (c :: cs) = endLine line cs := by
  have hne : c ≠ '\n' := by rintro rfl; cases hc
  rw [endLine, lineBreaks, sparesLine_lineFeeds.cons hc, List.count_cons_of_ne hne]
  rfl

/-- Going on by a character keeps the last line. -/
theorem endLine_lineAfter (line : UInt32) (c : Char) (cs : List Char) :
    endLine (lineAfter line c cs) cs = endLine line (c :: cs) := by
  by_cases hreturn : c = '\r'
  · subst hreturn
    by_cases hhead : cs.head? = some '\n'
    · obtain ⟨others, rfl⟩ := List.head?_eq_some_iff.1 hhead
      rfl
    · have hlone : lineFeeds ('\r' :: cs) = lineFeeds ('\n' :: cs) := lineFeeds_return hhead
      rw [lineAfter_return line hhead, ← endLine_feed, endLine, lineBreaks, ← hlone]
      rfl
  · by_cases hfeed : c = '\n'
    · subst hfeed
      exact (endLine_feed line cs).symm
    · rw [lineAfter, if_neg hfeed, if_neg hreturn, endLine_cons (endsLine_eq_false hfeed hreturn)]

/-- Skipping characters that end no line does not change the line at the end. -/
theorem endLine_dropWhile {p : Char → Bool} (hp : ∀ c, endsLine c = true → p c = false)
    (line : UInt32) (cs : List Char) : endLine line (cs.dropWhile p) = endLine line cs := by
  induction cs with
  | nil => rfl
  | cons c cs ih =>
    cases hc : p c with
    | false => rw [List.dropWhile_cons_of_neg (by rw [hc]; exact Bool.false_ne_true)]
    | true =>
      have hline : endsLine c = false := by
        cases hends : endsLine c with
        | false => rfl
        | true => exact hc.symm.trans (hp c hends)
      rw [List.dropWhile_cons_of_pos hc, ih, endLine_cons hline]

/-- Skipping a comment does not change the line at the end. -/
theorem endLine_skipComment (line : UInt32) (cs : List Char) :
    endLine line (skipComment cs) = endLine line cs :=
  endLine_dropWhile (fun c hc => by rw [hc]; rfl) line cs

/-- A number has no line break in it, so the line at the end is the same from behind it. -/
theorem endLine_readNumber {afterDot : Bool} {cs rest : List Char} {t : Token}
    (h : readNumber afterDot cs = .ok (t, rest)) (line : UInt32) :
    endLine line rest = endLine line cs := by
  have hwhole := endLine_dropWhile (fun _ => SparesLine.not_inNumber) line cs
  have hint (hmap : (intToken (cs.takeWhile inNumber)).map (·, cs.dropWhile inNumber) =
      .ok (t, rest)) : endLine line rest = endLine line cs := by
    cases hi : intToken (cs.takeWhile inNumber) with
    | error e => rw [hi] at hmap; cases hmap
    | ok t' =>
      rw [hi] at hmap
      cases hmap
      exact hwhole
  cases afterDot with
  | true => exact hint (readNumber_afterDot.symm.trans h)
  | false =>
    by_cases hpoint : (cs.dropWhile inNumber).head? = some '.'
    · obtain ⟨more, hmore⟩ := List.head?_eq_some_iff.1 hpoint
      rw [readNumber_point hmore] at h
      split at h
      · cases h
      · cases h
        rw [endLine_dropWhile (fun _ => SparesLine.not_inNumber), ← hwhole, hmore,
          endLine_cons (by decide)]
    · exact hint ((readNumber_of_no_point hpoint).symm.trans h)

/-- A symbol has no line break in it. -/
theorem endLine_readSymbol? {c : Char} {cs rest : List Char} {s : Symbol}
    (h : readSymbol? c cs = some (s, rest)) (line : UInt32) : endLine line rest = endLine line cs := by
  unfold readSymbol? at h
  split at h
  · cases h
    rw [endLine_cons (by decide)]
  · obtain ⟨s', -, hs⟩ := Option.map_eq_some_iff.1 h
    cases hs
    rfl

/-- A text that was read from its second character was read from its first. -/
theorem map_cons_eq_ok {c : Char} {x : Except UInt32 TextRead} {r : TextRead}
    (h : x.map (TextRead.cons c) = .ok r) : ∃ r', x = .ok r' ∧ r = r'.cons c := by
  cases x with
  | error line => cases h
  | ok r' =>
    cases h
    exact ⟨r', rfl, rfl⟩

/-- The line behind a text counts the line breaks in it. -/
theorem endLine_readText {line : UInt32} {cs : List Char} {r : TextRead}
    (h : readText line cs = .ok r) : endLine r.line r.rest = endLine line cs := by
  fun_induction readText line cs generalizing r with
  | case1 | case3 => cases h
  | case2 line rest =>
    cases h
    rw [endLine_cons (by decide)]
  | case4 line rest ih =>
    rw [ih h, endLine_cons (by decide), ← endLine_feed]
    rfl
  | case5 line rest hpair ih =>
    have hhead : rest.head? ≠ some '\n' := fun hhead => by
      obtain ⟨others, rfl⟩ := List.head?_eq_some_iff.1 hhead
      exact hpair others rfl
    rw [ih h, endLine_cons (by decide), ← endLine_lineAfter, lineAfter_return line hhead]
  | case6 line rest ih => rw [ih h, endLine_cons (by decide), endLine_feed]
  | case7 line c rest _ hreturn hfeed ih =>
    obtain ⟨r', hr, rfl⟩ := map_cons_eq_ok h
    have hline := ih hr
    rw [endLine_cons (by decide), endLine_cons (endsLine_eq_false hfeed hreturn)]
    exact hline
  | case8 line c rest _ _ _ _ _ _ ih =>
    obtain ⟨r', hr, rfl⟩ := map_cons_eq_ok h
    have hline := ih hr
    rw [← endLine_lineAfter]
    exact hline

/-- Characters that end a line are blank. -/
theorem endsLine_of_not_isBlank {c : Char} (hc : Text.isBlank c = false) : endsLine c = false := by
  refine endsLine_eq_false ?_ ?_
  all_goals
    rintro rfl
    cases hc

/-- The line behind a token counts the line breaks in it. -/
theorem endLine_readToken {afterDot : Bool} {line line' : UInt32} {c : Char} {cs rest : List Char}
    {t : Token} (hc : endsLine c = false)
    (h : readToken afterDot line c cs = .ok (t, line', rest)) :
    endLine line' rest = endLine line (c :: cs) := by
  unfold readToken at h
  split at h
  · cases h
    rw [endLine_cons hc, endLine_dropWhile fun _ => SparesLine.not_inWord]
  · split at h
    · cases hn : readNumber afterDot (c :: cs) with
      | error cause => rw [hn] at h; cases h
      | ok done =>
        rw [hn] at h
        cases h
        exact endLine_readNumber hn line
    · split at h
      · cases hr : readText line cs with
        | error errorLine => rw [hr] at h; cases h
        | ok r =>
          rw [hr] at h
          cases h
          rw [endLine_cons hc, endLine_readText hr]
      · cases hs : readSymbol? c cs with
        | none => rw [hs] at h; cases h
        | some done =>
          rw [hs] at h
          cases h
          rw [endLine_cons hc, endLine_readSymbol? hs]

/-! ## Texts -/

/-- Whether a character ends its line is told by the character behind it. -/
theorem lineAfter_append {cs : List Char} (h : cs ≠ []) (line : UInt32) (c : Char)
    (more : List Char) : lineAfter line c (cs ++ more) = lineAfter line c cs := by
  cases cs with
  | nil => exact absurd rfl h
  | cons d cs => rfl

/-- A closed text is not reached by what follows it. -/
theorem readText_append {line : UInt32} {cs : List Char} {r : TextRead} (h : readText line cs = .ok r)
    (more : List Char) : readText line (cs ++ more) = .ok { r with rest := r.rest ++ more } := by
  fun_induction readText line cs generalizing r with
  | case1 | case3 => cases h
  | case2 line rest =>
    cases h
    rw [List.cons_append, readText]
  | case4 line rest ih => rw [List.cons_append, List.cons_append, List.cons_append, readText, ih h]
  | case5 line rest hpair ih =>
    rw [List.cons_append, List.cons_append, readText, ih h]
    intro others hothers
    cases rest with
    | nil => cases h
    | cons d rest =>
      cases hothers
      exact hpair rest rfl
  | case6 line rest ih => rw [List.cons_append, List.cons_append, readText, ih h]
  | case7 line c rest _ hreturn hfeed ih =>
    obtain ⟨r', hr, rfl⟩ := map_cons_eq_ok h
    rw [List.cons_append, List.cons_append, readText_escaped (endsLine_eq_false hfeed hreturn), ih hr]
    rfl
  | case8 line c rest hquote hend _ _ _ hescape ih =>
    obtain ⟨r', hr, rfl⟩ := map_cons_eq_ok h
    have hraw := raw_of_not_escape hquote hend hescape
    have hrest : rest ≠ [] := by
      rintro rfl
      cases hr
    rw [List.cons_append, readText_raw hraw, lineAfter_append hrest, ih hr]
    rfl

/-! ## Scripts -/

/-- Whether a dot stands last, behind lexemes that began after a dot or not. -/
def dotLast (afterDot : Bool) (ls : List Lexeme) : Bool :=
  ls.foldl (fun _ l => l.token = .symbol .dot) afterDot

/-- More text on a line of its own leaves what stands before it as it is. -/
theorem sparesLine_append (more : List Char) : SparesLine (· ++ '\n' :: more) where
  cons := fun _ => rfl
  stop := by
    intro cs h
    cases cs with
    | nil => rintro _ ⟨⟩; rfl
    | cons c cs => exact h

/-- No token goes on behind the end of what is left if a line break follows there. -/
theorem readToken_append {afterDot : Bool} {line line' : UInt32} {c : Char} {cs rest : List Char}
    {t : Token} (h : readToken afterDot line c cs = .ok (t, line', rest)) (more : List Char) :
    readToken afterDot line c (cs ++ '\n' :: more) = .ok (t, line', rest ++ '\n' :: more) := by
  by_cases hquote : c = '"'
  · subst hquote
    rw [readToken_quote] at h ⊢
    cases hr : readText line cs with
    | error errorLine => rw [hr] at h; cases h
    | ok r =>
      rw [hr] at h
      cases h
      rw [readText_append hr]
      rfl
  · rw [(sparesLine_append more).readToken_change afterDot line hquote, h]
    rfl

theorem map_nil_append (x : Except Diagnostic (List Lexeme)) : x.map ([] ++ ·) = x := by
  cases x <;> rfl

theorem map_cons_append (l : Lexeme) (ls : List Lexeme) (x : Except Diagnostic (List Lexeme)) :
    (x.map (ls ++ ·)).map (l :: ·) = x.map (l :: ls ++ ·) := by
  cases x <;> rfl

/-- Text that was scanned is scanned with more behind it, which goes on at the line where the first
part ended. -/
theorem scan_append_line {file : String} {cs : List Char} (more : List Char) {line : UInt32}
    {afterDot : Bool} {ls : List Lexeme} (h : scan file line afterDot cs = .ok ls) :
    scan file line afterDot (cs ++ '\n' :: more) =
      (scan file (endLine line (cs ++ ['\n'])) (dotLast afterDot ls) more).map (ls ++ ·) := by
  induction cs using scan_induction generalizing line afterDot ls with
  | nil =>
    rw [scan_nil] at h
    cases h
    rw [List.nil_append, List.nil_append, scan_blank (by decide), endLine_feed, endLine_nil]
    exact (map_nil_append _).symm
  | blank c cs hc ih =>
    -- The break behind what is left is a lookahead for a carriage return at its end, and there only.
    have hline : lineAfter line c (cs ++ '\n' :: more) = lineAfter line c (cs ++ ['\n']) := by
      cases cs <;> rfl
    have hrest : scan file (lineAfter line c (cs ++ ['\n'])) afterDot cs = .ok ls := by
      rw [scan_blank hc] at h
      by_cases hcs : cs = []
      · subst hcs
        rwa [scan_nil] at h ⊢
      · rwa [lineAfter_append hcs]
    rw [List.cons_append, scan_blank hc, hline, ih hrest, List.cons_append, endLine_lineAfter]
  | comment cs ih =>
    rw [scan_comment] at h
    have hline : endLine line ('#' :: cs ++ ['\n']) = endLine line (skipComment cs ++ ['\n']) := by
      rw [← (sparesLine_append []).skipComment_change, endLine_skipComment, List.cons_append,
        endLine_cons (by decide)]
    rw [List.cons_append, scan_comment, (sparesLine_append more).skipComment_change, ih h, hline]
  | token c cs hblank hcomment ih =>
    rw [scan_token hblank hcomment] at h
    rw [List.cons_append, scan_token hblank hcomment]
    cases ht : readToken afterDot line c cs with
    | error e => rw [ht] at h; cases h
    | ok done =>
      obtain ⟨t, line', rest⟩ := done
      rw [ht] at h
      rw [readToken_append ht]
      dsimp only at h ⊢
      cases hls : scan file line' (t = .symbol .dot) rest with
      | error e => rw [hls] at h; cases h
      | ok ls' =>
        rw [hls] at h
        cases h
        have hline := endLine_readToken (endsLine_of_not_isBlank hblank) (readToken_append ht [])
        rw [ih ht hls, hline]
        exact map_cons_append _ ls' _

/-- After a token other than a dot, digits are a number with a fraction again. -/
theorem dotLast_eq_false {ls : List Lexeme} (h : ∀ l ∈ ls.getLast?, l.token ≠ .symbol .dot) :
    dotLast false ls = false := by
  rcases List.eq_nil_or_concat ls with rfl | ⟨others, l, rfl⟩
  · rfl
  · rw [dotLast, List.concat_eq_append, List.foldl_append]
    exact decide_eq_false (h l (by simp))

/-- **Scripts one below the other are scanned one by one.** -/
theorem tokenize_append_line {file s₁ : String} {ls : List Lexeme} (h : tokenize file s₁ = .ok ls)
    (hdot : ∀ l ∈ ls.getLast?, l.token ≠ .symbol .dot) (s₂ : String) :
    let n := UInt32.ofNat (lineBreaks (s₁ ++ "\n").toList)
    tokenize file (s₁ ++ "\n" ++ s₂) =
      match tokenize file s₂ with
      | .ok ls₂ => .ok (ls ++ ls₂.map (Lexeme.lower n))
      | .error d => .error (d.lower n) := by
  intro n
  have hchars : (s₁ ++ "\n" ++ s₂).toList = s₁.toList ++ '\n' :: s₂.toList := by
    rw [String.toList_append, String.toList_append, List.append_assoc]
    rfl
  have hline : endLine 1 (s₁.toList ++ ['\n']) = 1 + n := by
    rw [endLine, ← String.toList_singleton, ← String.toList_append]
    rfl
  rw [tokenize, hchars, scan_append_line s₂.toList h, hline, dotLast_eq_false hdot, scan_add, tokenize]
  cases scan file 1 false s₂.toList <;> rfl

/-- A script that ends in a comment and a carriage return, which makes a pair with the line feed behind
it, and below it one that is refused on its second line. -/
theorem tokenize_append_line_return :
    let s₁ := "t.0 <\r\n9 # ]\r"
    let s₂ := "= \"a\r\" $"
    let ls : List Lexeme := [⟨.name "t", ⟨1, "main.bt"⟩⟩, ⟨.symbol .dot, ⟨1, "main.bt"⟩⟩,
      ⟨.int 0, ⟨1, "main.bt"⟩⟩, ⟨.symbol .less, ⟨1, "main.bt"⟩⟩, ⟨.int 9, ⟨2, "main.bt"⟩⟩]
    tokenize "main.bt" s₁ = .ok ls ∧ (∀ l ∈ ls.getLast?, l.token ≠ .symbol .dot) ∧
      tokenize "main.bt" s₂ = .error ⟨.invalidToken, ⟨2, "main.bt"⟩⟩ ∧
      tokenize "main.bt" (s₁ ++ "\n" ++ s₂) = .error ⟨.invalidToken, ⟨4, "main.bt"⟩⟩ := by
  intro s₁ s₂ ls
  have hs₁ : tokenize "main.bt" s₁ = .ok ls := by cbv
  have hdot : ∀ l ∈ ls.getLast?, l.token ≠ .symbol .dot := by decide
  have hs₂ : tokenize "main.bt" s₂ = .error ⟨.invalidToken, ⟨2, "main.bt"⟩⟩ := by cbv
  have hn : UInt32.ofNat (lineBreaks (s₁ ++ "\n").toList) = 2 := by decide
  refine ⟨hs₁, hdot, hs₂, ?_⟩
  rw [tokenize_append_line hs₁ hdot s₂, hs₂, hn]
  rfl

end Lexer

end TickScript
