import TickScript.Proofs.Syntax.Printing

/-!
# Printed expressions are read back

An expression is read by a loop that folds what follows into what was read, so the statement about one
expression is about the loop that goes on behind it (`Expr.Legible`): if going on with the expression
ends in some way, then so does reading its tokens and going on. The left operand of an operator is read
by the same loop as the operator, and this is where that form is needed.

Readers have one way to fail on printed input, which is to count too far. `Parser.Reads` says how far a
reader counts and what it comes to either way; peaks are put together by `max`.
-/

namespace TickScript.Parser

/-! ## Outcomes -/

/-- A reader whose count gets as far as `peak` ends before `rest` with a value that satisfies `P`, or
refuses its input for the nesting when `peak` is past the limit. -/
structure Reads {α : Type} {bound : Nat} (r : Except Diagnostic (Read α bound)) (peak : Nat)
    (P : α → Prop) (rest : List Lexeme) : Prop where
  accepts : peak ≤ maxNesting → ∃ v h, r = .ok ⟨v, rest, h⟩ ∧ P v
  refuses : maxNesting < peak → ∃ loc, r = .error ⟨.nestedTooDeep, loc⟩

section Reads

variable {α β : Type} {a b : Nat} {m n : Nat} {P : α → Prop} {Q : β → Prop} {rest rest' : List Lexeme}

theorem Reads.cast {r : Except Diagnostic (Read α a)} (h : Reads r m P rest) (hmn : m = n) :
    Reads r n P rest := hmn ▸ h

/-- What is read without failing is read within the levels there are. -/
theorem Reads.ok {v : α} (h : rest.length < a) (hm : m ≤ maxNesting) (hv : P v) :
    Reads (.ok ⟨v, rest, h⟩) m P rest where
  accepts := fun _ => ⟨v, h, rfl, hv⟩
  refuses := fun hlt => absurd hlt (by omega)

/-- Reading without nesting needs no level. -/
theorem Reads.done {v : α} (h : rest.length < a) (hv : P v) : Reads (.ok ⟨v, rest, h⟩) 0 P rest :=
  .ok h (Nat.zero_le _) hv

/-- What is read in two parts needs the levels of the deeper one. -/
theorem Reads.bind {r : Except Diagnostic (Read α a)} {k : Read α a → Except Diagnostic (Read β b)}
    (h : Reads r m P rest)
    (hk : ∀ v hv, P v → m ≤ maxNesting → Reads (k ⟨v, rest, hv⟩) n Q rest') :
    Reads (r >>= k) (max m n) Q rest' where
  accepts hle := by
    obtain ⟨v, hv, rfl, hP⟩ := h.accepts (by omega)
    exact (hk v hv hP (by omega)).accepts (by omega)
  refuses hlt := by
    rcases Nat.lt_or_ge maxNesting m with hm | hm
    · obtain ⟨loc, rfl⟩ := h.refuses hm
      exact ⟨loc, rfl⟩
    · obtain ⟨v, hv, rfl, hP⟩ := h.accepts hm
      exact (hk v hv hP hm).refuses (by omega)

/-- A part without nesting before another adds no level. -/
theorem Reads.next {r : Except Diagnostic (Read α a)} {k : Read α a → Except Diagnostic (Read β b)}
    (h : Reads r 0 P rest) (hk : ∀ v hv, P v → Reads (k ⟨v, rest, hv⟩) n Q rest') :
    Reads (r >>= k) n Q rest' :=
  (h.bind fun v hv hP _ => hk v hv hP).cast (Nat.zero_max _)

/-- What is made of a part without further nesting adds no level. -/
theorem Reads.map {r : Except Diagnostic (Read α a)} {k : Read α a → Except Diagnostic (Read β b)}
    (h : Reads r m P rest) (hk : ∀ v hv, P v → Reads (k ⟨v, rest, hv⟩) 0 Q rest') :
    Reads (r >>= k) m Q rest' :=
  (h.bind fun v hv hP _ => hk v hv hP).cast (Nat.max_zero _)

/-- One level more is counted, unless it is past the limit. -/
theorem Reads.nest {eof : Location} {ts : List Lexeme} {d : Nat} {r : Except Diagnostic (Read α a)}
    (h : d < maxNesting → Reads r m P rest) :
    Reads (if maxNesting ≤ d then refuse eof ts .nestedTooDeep else r) (max (d + 1) m) P rest := by
  split
  · exact ⟨fun hle => absurd hle (by omega), fun _ => ⟨_, rfl⟩⟩
  · have hr := h (by omega)
    exact ⟨fun hle => hr.accepts (by omega), fun hlt => hr.refuses (by omega)⟩

end Reads

/-! ## Input -/

/-- Lexemes that begin with the given tokens, wherever they stand, and go on with `rest`. -/
def Spells : List Token → List Lexeme → List Lexeme → Prop
  | [], ls, rest => ls = rest
  | t :: ts, ls, rest => ∃ loc mid, ls = ⟨t, loc⟩ :: mid ∧ Spells ts mid rest

/-- Tokens in two parts are spelled part by part. -/
theorem spells_append {ts ts' : List Token} {ls rest : List Lexeme} :
    Spells (ts ++ ts') ls rest ↔ ∃ mid, Spells ts ls mid ∧ Spells ts' mid rest := by
  induction ts generalizing ls with
  | nil => simp only [Spells, List.nil_append, exists_eq_left']
  | cons t ts ih =>
    simp only [Spells, List.cons_append, ih]
    constructor
    · rintro ⟨loc, mid, rfl, mid', h, h'⟩
      exact ⟨mid', ⟨loc, mid, rfl, h⟩, h'⟩
    · rintro ⟨mid', ⟨loc, mid, rfl, h⟩, h'⟩
      exact ⟨loc, mid, rfl, mid', h, h'⟩

/-- Lexemes spell their tokens. -/
theorem spells_map (ls : List Lexeme) : Spells (ls.map Lexeme.token) ls [] := by
  induction ls with
  | nil => rfl
  | cons l ls ih => exact ⟨l.location, ls, rfl, ih⟩

/-- Input at which an expression of power `p` is complete. -/
def Stops (p : Nat) : List Lexeme → Prop
  | [] => True
  | l :: _ => ∀ q f, follower? l.token = some (q, f) → q ≤ p

/-- What stops an operator stops those that bind more tightly. -/
theorem Stops.mono {p p' : Nat} {ls : List Lexeme} (h : Stops p ls) (hp : p ≤ p') : Stops p' ls := by
  cases ls with
  | nil => trivial
  | cons l ls => exact fun q f hf => Nat.le_trans (h q f hf) hp

/-- An operator stops those that bind at least as tightly. -/
theorem stops_of_follower {t : Token} {q p : Nat} {f : Follower} {loc : Location} {ls : List Lexeme}
    (ht : follower? t = some (q, f)) (hp : q ≤ p) : Stops p (⟨t, loc⟩ :: ls) := by
  intro q' f' hf
  cases ht.symm.trans hf
  exact hp

/-- A token that follows no expression stops all operators. -/
theorem stops_of_none {t : Token} {p : Nat} {loc : Location} {ls : List Lexeme}
    (ht : follower? t = none) : Stops p (⟨t, loc⟩ :: ls) :=
  fun _ _ hf => nomatch ht.symm.trans hf

/-- Where nothing more may be taken in, the expression is the one read so far. -/
theorem reads_of_stops {eof : Location} {d q : Nat} {acc : Expr} {ls : List Lexeme} {P : Expr → Prop}
    (h : Stops q ls) (hP : P acc) : Reads (foldExpr eof d q acc ls) 0 P ls := by
  cases ls with
  | nil =>
    rw [foldExpr]
    exact .done _ hP
  | cons l ls =>
    obtain ⟨t, loc⟩ := l
    rw [foldExpr]
    split
    · exact .done _ hP
    · rename_i p f hf
      rw [if_pos (h p f hf)]
      exact .done _ hP

/-! ## Single tokens -/

/-- A symbol that is there is taken. -/
theorem take?_self (s : Symbol) (loc : Location) (ls : List Lexeme) :
    take? s (⟨.symbol s, loc⟩ :: ls) = some ⟨(), ls, Nat.lt_succ_self _⟩ := by
  rw [take?, if_pos rfl]

/-- A symbol that is not there is not taken. -/
theorem take?_eq_none {s : Symbol} {t : Token} {loc : Location} {ls : List Lexeme}
    (h : t ≠ .symbol s) : take? s (⟨t, loc⟩ :: ls) = none := by
  cases t with
  | symbol s' => exact if_neg fun hs => h (congrArg Token.symbol hs)
  | _ => rfl

/-- A symbol that is there is read. -/
theorem reads_expect (eof : Location) (s : Symbol) (cause : Cause) (loc : Location)
    (ls : List Lexeme) : Reads (expect eof s cause (⟨.symbol s, loc⟩ :: ls)) 0 (fun _ => True) ls := by
  rw [expect, take?_self]
  exact .done _ trivial

/-- A name that is there is read. -/
theorem reads_expectName (eof : Location) (cause : Cause) (s : String) (loc : Location)
    (ls : List Lexeme) : Reads (expectName eof cause (⟨.name s, loc⟩ :: ls)) 0 (· = s) ls :=
  .done _ rfl

/-- Behind an item there is the closing symbol or a comma, and either way the further items. -/
theorem exists_reads_separator (eof : Location) {close : Symbol} (hclose : close ≠ .comma)
    {ts : List Token} {ls rest : List Lexeme}
    (hls : Spells (furtherItems ts ++ [.symbol close]) ls rest) :
    ∃ mid, Reads (separator eof close ls) 0 (fun _ => True) mid ∧
      Spells (ts ++ [.symbol close]) mid rest := by
  cases ts with
  | nil =>
    obtain ⟨loc, mid, rfl, h⟩ := hls
    refine ⟨_, ?_, loc, mid, rfl, h⟩
    rw [separator, take?_eq_none (by simpa using hclose), take?_self]
    exact .done _ trivial
  | cons t ts =>
    obtain ⟨loc, mid, rfl, h⟩ := hls
    refine ⟨mid, ?_, h⟩
    rw [separator, take?_self]
    exact .done _ trivial

/-- After an item comes a comma or the closing symbol, and both stop all operators. -/
theorem stops_of_furtherItems {close : Symbol} (hclose : follower? (.symbol close) = none)
    {ts : List Token} {ls rest : List Lexeme}
    (hls : Spells (furtherItems ts ++ [.symbol close]) ls rest) : Stops 0 ls := by
  cases ts with
  | nil =>
    obtain ⟨loc, mid, rfl, -⟩ := hls
    exact stops_of_none hclose
  | cons t ts =>
    obtain ⟨loc, mid, rfl, -⟩ := hls
    exact stops_of_none rfl

theorem follower?_token (op : BinaryOp) : follower? op.token = some (op.power, .operator op) := by
  cases op <;> rfl

theorem opening?_token (op : UnaryOp) : opening? op.token = some (.operator op.power op) := by
  cases op <;> rfl

/-- An index of 32 bits is read as itself. -/
theorem tupleIndex?_ofNat (index : UInt32) :
    tupleIndex? (Int64.ofNat index.toNat) = some index := by
  have hlt : index.toNat < 4294967296 := index.toNat_lt
  have hint : (Int64.ofNat index.toNat).toInt = index.toNat :=
    Int64.toInt_ofNat_of_lt (by omega)
  rw [tupleIndex?, hint, if_pos (by omega)]
  simp

/-! ## Places for expressions -/

/-- A place that asks for a power of at least `least` and folds what holds tighter than `q`: there
every operator that may stand without parentheses is folded. -/
structure Place (least q : Nat) : Prop where
  le_seven : least ≤ 7
  lt_seven : q < 7
  le_least : q ≤ least
  folds : ∀ op : BinaryOp, least ≤ op.power → q < op.power

/-- A place for an expression is one for those that bind more tightly. -/
theorem Place.mono {least least' q : Nat} (h : Place least q) (hle : least ≤ least')
    (h7 : least' ≤ 7) : Place least' q where
  le_seven := h7
  lt_seven := h.lt_seven
  le_least := Nat.le_trans h.le_least hle
  folds := fun op hop => h.folds op (Nat.le_trans hle hop)

/-- The outermost place takes every expression. -/
theorem Place.outer : Place 0 0 where
  le_seven := by decide
  lt_seven := by decide
  le_least := Nat.le_refl _
  folds := fun op _ => by cases op <;> decide

/-- No operator between operands holds as tightly as one in front of an operand. -/
theorem Place.operand (op : UnaryOp) : Place op.power op.power where
  le_seven := by cases op <;> decide
  lt_seven := by cases op <;> decide
  le_least := Nat.le_refl _
  folds := fun op' hle => by cases op <;> cases op' <;> revert hle <;> decide

/-- To the right of an operator stand those that bind more tightly than it. -/
theorem Place.right (op : BinaryOp) : Place (op.power + 1) op.power where
  le_seven := by cases op <;> decide
  lt_seven := by cases op <;> decide
  le_least := Nat.le_succ _
  folds := fun _ hle => hle

end TickScript.Parser

namespace TickScript

open TickScript.Parser

namespace Expr

theorem power_le_seven (e : Expr) : e.power ≤ 7 := by
  cases e with
  | unary _ op _ => exact (Place.operand op).le_seven
  | binary _ op _ _ => exact Nat.le_of_succ_le (Place.right op).le_seven
  | _ => exact Nat.le_refl _

/-! ## Parentheses -/

section Fences

variable (e : Expr) {least : Nat}

/-- An expression in a place is in parentheses when it binds less tightly than the place asks. -/
theorem tokens_eq_fenced (h : least ≤ 7) : e.tokens least = fenced least e.power (e.tokens 0) := by
  cases e with
  | unary _ op _ | binary _ op _ _ => simp only [tokens, fenced, power, Nat.not_lt_zero, if_false]
  | _ => exact (if_neg (Nat.not_lt.2 h)).symm

/-- An expression in parentheses is one operand to what is around it. -/
theorem spine_eq_fenced (h : least ≤ 7) :
    e.spine least = if e.power < least then 1 else e.spine 0 := by
  cases e with
  | unary _ op _ => exact (ite_self 1).symm
  | binary _ op _ _ => simp only [spine, power, Nat.not_lt_zero, if_false]
  | _ => exact (if_neg (Nat.not_lt.2 h)).symm

/-- Parentheses take a level. -/
theorem levels_eq_fenced (h : least ≤ 7) :
    e.levels least = fencedLevels least e.power (e.levels 0) := by
  cases e with
  | unary _ op _ | binary _ op _ _ => simp only [levels, fencedLevels, power, Nat.not_lt_zero, if_false]
  | _ => exact (if_neg (Nat.not_lt.2 h)).symm

end Fences

/-- The first token of an expression is one that starts an operand. -/
theorem exists_tokens_eq_cons (e : Expr) (least : Nat) :
    ∃ t ts, e.tokens least = t :: ts ∧ (opening? t).isSome := by
  match e with
  | .name .. | .null _ | .int .. | .float .. | .text .. | .tuple .. | .object .. | .array ..
  | .call .. => exact ⟨_, _, rfl, rfl⟩
  | .tupleMember _ base _ | .objectMember _ base _ | .element _ base _ =>
    obtain ⟨t, ts, h, ht⟩ := exists_tokens_eq_cons base 7
    simp only [tokens, h, List.cons_append]
    exact ⟨t, _, rfl, ht⟩
  | .unary _ op _ =>
    unfold tokens fenced
    split
    · exact ⟨_, _, rfl, rfl⟩
    · exact ⟨_, _, rfl, by rw [opening?_token]; rfl⟩
  | .binary _ op left _ =>
    obtain ⟨t, ts, h, ht⟩ := exists_tokens_eq_cons left op.power
    unfold tokens fenced
    split
    · exact ⟨_, _, rfl, rfl⟩
    · rw [h]
      exact ⟨t, _, rfl, ht⟩

/-! ## One expression -/

variable {eof : Location} {d q m n : Nat} {ls mid rest : List Lexeme} {Q : Expr → Prop}

/-- An expression is a value and what is folded into it. -/
theorem reads_parseExpr {P : Expr → Prop}
    (hvalue : d < maxNesting → Reads (parseValue eof (d + 1) ls) m P mid)
    (hfold : ∀ v, P v → Reads (foldExpr eof (d + 1) q v mid) n Q rest) :
    Reads (parseExpr eof d q ls) (max (d + 1) (max m n)) Q rest := by
  rw [parseExpr]
  refine Reads.nest fun hd => (hvalue hd).bind fun v _ hv _ => ?_
  exact (hfold v hv).map fun e _ he => .done _ he

/-- A follower that holds tighter than `q` is folded. -/
theorem reads_foldExpr {P : Expr → Prop} {t : Token} {p : Nat} {f : Follower} {loc : Location}
    {acc : Expr} (ht : follower? t = some (p, f)) (hp : q < p)
    (hfollower : d < maxNesting → Reads (parseFollower eof (d + 1) p acc f loc ls) m P mid)
    (hfold : ∀ v, P v → Reads (foldExpr eof (d + 1) q v mid) n Q rest) :
    Reads (foldExpr eof d q acc (⟨t, loc⟩ :: ls)) (max (d + 1) (max m n)) Q rest := by
  rw [foldExpr]
  simp only [ht, if_neg (Nat.not_le.2 hp)]
  refine Reads.nest fun hd => (hfollower hd).bind fun v _ hv _ => ?_
  exact (hfold v hv).map fun e _ he => .done _ he

/-- If going on behind an expression ends in some way, so does reading its tokens and going on. -/
def Legible (eof : Location) (e : Expr) : Prop :=
  ∀ ⦃q d n : Nat⦄ ⦃ls mid rest : List Lexeme⦄ ⦃Q : Expr → Prop⦄, Place e.power q → Stops e.power mid →
    Spells (e.tokens 0) ls mid →
    (∀ e' : Expr, e'.unlocated = e.unlocated →
      Reads (foldExpr eof (d + e.spine 0) q e' mid) n Q rest) →
    Reads (parseExpr eof d q ls) (max (d + e.levels 0) n) Q rest

namespace Legible

variable {e : Expr} {least : Nat}

/-- The loop is over behind an expression that nothing follows. -/
theorem whole (h : e.Legible eof) (hstops : Stops 0 mid) (hls : Spells (e.tokens 0) ls mid) :
    Reads (parseExpr eof d 0 ls) (d + e.levels 0) (·.unlocated = e.unlocated) mid :=
  (h (Place.outer.mono (Nat.zero_le _) e.power_le_seven) (hstops.mono (Nat.zero_le _)) hls
    fun _ he => reads_of_stops hstops he).cast (by omega)

end Legible

/-! ## Lists of expressions -/

/-- A symbol that ends a list: it neither starts an item, nor goes on with one, nor parts two. -/
structure Closes (close : Symbol) : Prop where
  opening : opening? (.symbol close) = none
  follower : follower? (.symbol close) = none
  ne_comma : close ≠ .comma

/-- No expression begins with a closing symbol. -/
theorem take?_of_spells {close : Symbol} (hclose : Closes close) {e : Expr} {least : Nat}
    (hls : Spells (e.tokens least) ls mid) : take? close ls = none := by
  obtain ⟨t, ts, htokens, ht⟩ := e.exists_tokens_eq_cons least
  rw [htokens] at hls
  obtain ⟨loc, ls, rfl, -⟩ := hls
  refine take?_eq_none ?_
  rintro rfl
  rw [hclose.opening] at ht
  cases ht

/-- Items that can be read one by one can be read as a list. -/
theorem reads_parseItems {close : Symbol} (hclose : Closes close) {es : List Expr}
    (hes : ∀ e ∈ es, e.Legible eof) (hd : d ≤ maxNesting)
    (hls : Spells (itemTokens es ++ [.symbol close]) ls rest) :
    Reads (parseItems eof d close ls) (d + itemLevels es)
      (unlocatedItems · = unlocatedItems es) rest := by
  induction es generalizing ls with
  | nil =>
    obtain ⟨loc, mid, rfl, rfl⟩ := hls
    rw [parseItems, take?_self]
    exact .ok _ hd rfl
  | cons e es ih =>
    rw [itemTokens, List.append_assoc] at hls
    obtain ⟨mid, he, hmid⟩ := spells_append.1 hls
    obtain ⟨mid', hsep, hmid'⟩ := exists_reads_separator eof hclose.ne_comma hmid
    have hitem := (hes e (List.mem_cons_self ..)).whole (d := d)
      (stops_of_furtherItems hclose.follower hmid) he
    rw [parseItems, take?_of_spells hclose he, itemLevels, ← Nat.add_max_add_left]
    refine hitem.bind fun e' _ he' _ => ?_
    refine hsep.next fun _ _ _ => ?_
    refine (ih (fun e he => hes e (List.mem_cons_of_mem _ he)) hmid').map fun es' _ hes' => ?_
    exact .done _ (by rw [unlocatedItems, unlocatedItems, he', hes'])

/-- Members whose values can be read can be read as a list. -/
theorem reads_parseMembers {members : List (String × Expr)}
    (hes : ∀ p ∈ members, p.2.Legible eof) (hd : d ≤ maxNesting)
    (hls : Spells (memberTokens members ++ [.symbol .closeBrace]) ls rest) :
    Reads (parseMembers eof d ls) (d + memberLevels members)
      (unlocatedMembers · = unlocatedMembers members) rest := by
  induction members generalizing ls with
  | nil =>
    obtain ⟨loc, mid, rfl, rfl⟩ := hls
    rw [parseMembers, take?_self]
    exact .ok _ hd rfl
  | cons p more ih =>
    obtain ⟨s, e⟩ := p
    rw [memberTokens, List.cons_append, List.cons_append, List.append_assoc] at hls
    obtain ⟨_, _, rfl, _, value, rfl, hvalue⟩ := hls
    obtain ⟨mid, he, hmid⟩ := spells_append.1 hvalue
    obtain ⟨mid', hsep, hmid'⟩ := exists_reads_separator eof (by decide) hmid
    have hitem := (hes (s, e) (List.mem_cons_self ..)).whole (d := d) (stops_of_furtherItems rfl hmid) he
    rw [parseMembers, take?_eq_none (by simp), memberLevels, ← Nat.add_max_add_left]
    refine (reads_expectName ..).next fun s' _ hs' => ?_
    refine (reads_expect ..).next fun _ _ _ => ?_
    refine hitem.bind fun e' _ he' _ => ?_
    refine hsep.next fun _ _ _ => ?_
    refine (ih (fun p hp => hes p (List.mem_cons_of_mem _ hp)) hmid').map fun more' _ hmore' => ?_
    exact .done _ (by rw [unlocatedMembers, unlocatedMembers, hs', he', hmore'])

/-! ## Operands -/

theorem closes_closeParen : Closes .closeParen := ⟨rfl, rfl, by decide⟩

theorem closes_closeBracket : Closes .closeBracket := ⟨rfl, rfl, by decide⟩

namespace Legible

variable {e : Expr} {least : Nat}

/-- Parentheses are read as the expression in them. -/
theorem parentheses (h : e.Legible eof) (hd : d < maxNesting) {loc : Location}
    (hls : Spells (e.tokens 0 ++ [.symbol .closeParen]) ls mid) :
    Reads (parseValue eof (d + 1) (⟨.symbol .openParen, loc⟩ :: ls)) (d + 1 + e.levels 0)
      (·.unlocated = e.unlocated) mid := by
  have hitems : Spells (itemTokens [e] ++ [.symbol .closeParen]) ls mid := by
    simpa only [itemTokens, furtherItems, List.append_nil] using hls
  have hread := reads_parseItems closes_closeParen (by simpa using h) hd hitems
  rw [itemLevels, itemLevels, Nat.max_zero] at hread
  rw [parseValue]
  refine hread.map fun es _ hes => ?_
  rw [unlocatedItems_eq_map es] at hes
  obtain ⟨e', rfl, he'⟩ := List.map_eq_singleton_iff.1 hes
  exact .done _ he'

/-- An expression where a power of at least `least` is asked for. -/
theorem operand (h : e.Legible eof) (hplace : Place least q)
    (hstops : least ≤ e.power → Stops e.power mid) (hls : Spells (e.tokens least) ls mid)
    (hfold : ∀ e' : Expr, e'.unlocated = e.unlocated →
      Reads (foldExpr eof (d + e.spine least) q e' mid) n Q rest) :
    Reads (parseExpr eof d q ls) (max (d + e.levels least) n) Q rest := by
  rw [tokens_eq_fenced e hplace.le_seven, fenced] at hls
  rw [spine_eq_fenced e hplace.le_seven] at hfold
  rw [levels_eq_fenced e hplace.le_seven, fencedLevels]
  split at hls
  next hlt =>
    obtain ⟨loc, inner, rfl, hinner⟩ := hls
    rw [if_pos hlt] at hfold ⊢
    exact (reads_parseExpr (fun hd => h.parentheses hd hinner) hfold).cast (by omega)
  next hlt =>
    -- without parentheses the operand is part of the loop around it
    rw [if_neg hlt] at hfold ⊢
    have hle := Nat.le_of_not_lt hlt
    exact h (hplace.mono hle e.power_le_seven) (hstops hle) hls hfold

/-- An expression that fills its place. -/
theorem filling (h : e.Legible eof) (hplace : Place least q) (hstops : Stops q mid)
    (hls : Spells (e.tokens least) ls mid) :
    Reads (parseExpr eof d q ls) (d + e.levels least) (·.unlocated = e.unlocated) mid :=
  (h.operand hplace (fun hle => hstops.mono (Nat.le_trans hplace.le_least hle)) hls
    fun _ he => reads_of_stops hstops he).cast (Nat.max_zero _)

end Legible

/-! ## Values -/

/-- An expression whose tokens are read as one value. -/
theorem legible_of_value {e : Expr} (hspine : e.spine 0 = 1)
    (hvalue : ∀ ⦃d : Nat⦄ ⦃ls mid : List Lexeme⦄, d < maxNesting → Stops e.power mid →
      Spells (e.tokens 0) ls mid →
      Reads (parseValue eof (d + 1) ls) (d + e.levels 0) (·.unlocated = e.unlocated) mid)
    (hlevels : 0 < e.levels 0) : e.Legible eof := by
  intro q d n ls mid rest Q hplace hstops hls hfold
  rw [hspine] at hfold
  exact (reads_parseExpr (fun hd => hvalue hd hstops hls) hfold).cast (by omega)

/-- A token that is an expression is read as it. -/
theorem legible_leaf {e : Expr} {t : Token} {make : Location → Expr}
    (htokens : e.tokens 0 = [t]) (ht : opening? t = some (.leaf make))
    (hmake : ∀ loc, (make loc).unlocated = e.unlocated) (hspine : e.spine 0 = 1)
    (hlevels : e.levels 0 = 1) : e.Legible eof := by
  refine legible_of_value hspine (fun d ls mid hd _ hls => ?_) (by omega)
  rw [htokens] at hls
  obtain ⟨loc, ls, rfl, rfl⟩ := hls
  rw [parseValue, hlevels]
  simp only [ht]
  exact .ok _ hd (hmake loc)

/-- A tuple of two items or more is read back. -/
theorem legible_tuple {items : List Expr} (hitems : ∀ e ∈ items, e.Legible eof)
    (htwo : 2 ≤ items.length) (loc : Location) : (tuple loc items).Legible eof := by
  refine legible_of_value rfl (fun d ls mid hd _ hls => ?_) (Nat.succ_pos _)
  obtain ⟨loc', ls, rfl, hls⟩ := hls
  rw [parseValue, levels, ← Nat.add_assoc, Nat.add_right_comm]
  refine (reads_parseItems closes_closeParen hitems hd hls).map fun es _ hes => ?_
  have hlength : es.length = items.length := by
    simpa only [unlocatedItems_eq_map, List.length_map] using congrArg List.length hes
  obtain _ | ⟨e₁, _ | ⟨e₂, es⟩⟩ := es
  · rw [← hlength] at htwo
    exact absurd htwo (by decide)
  · rw [← hlength] at htwo
    exact absurd htwo (by simp)
  · exact .done _ (by rw [unlocated, unlocated, hes])

theorem legible_array {items : List Expr} (hitems : ∀ e ∈ items, e.Legible eof) (loc : Location) :
    (array loc items).Legible eof := by
  refine legible_of_value rfl (fun d ls mid hd _ hls => ?_) (Nat.succ_pos _)
  obtain ⟨loc', ls, rfl, hls⟩ := hls
  rw [parseValue, levels, ← Nat.add_assoc, Nat.add_right_comm]
  refine (reads_parseItems closes_closeBracket hitems hd hls).map fun es _ hes => ?_
  exact .done _ (by rw [unlocated, unlocated, hes])

theorem legible_object {members : List (String × Expr)} (hmembers : ∀ p ∈ members, p.2.Legible eof)
    (loc : Location) : (object loc members).Legible eof := by
  refine legible_of_value rfl (fun d ls mid hd _ hls => ?_) (Nat.succ_pos _)
  obtain ⟨loc', ls, rfl, hls⟩ := hls
  rw [parseValue, levels, ← Nat.add_assoc, Nat.add_right_comm]
  refine (reads_parseMembers hmembers hd hls).map fun more _ hmore => ?_
  exact .done _ (by rw [unlocated, unlocated, hmore])

/-- What an operator in front holds ends where the operator's own expression does. -/
theorem legible_unary {operand : Expr} (h : operand.Legible eof) (loc : Location) (op : UnaryOp) :
    (unary loc op operand).Legible eof := by
  have hlevels : (unary loc op operand).levels 0 = operand.levels op.power + 1 := rfl
  refine legible_of_value rfl (fun d ls mid hd hstops hls => ?_) (by omega)
  obtain ⟨loc', ls, rfl, hls⟩ := hls
  rw [parseValue, hlevels, ← Nat.add_assoc, Nat.add_right_comm]
  simp only [opening?_token]
  refine (h.filling (Place.operand op) hstops hls).map fun e _ he => ?_
  exact .done _ (by rw [unlocated, unlocated, he])

/-! ## Folds -/

/-- An expression of power `p` that is an operand and what a token of power `p` folds into it. -/
theorem legible_of_fold {base e : Expr} {t : Token} {tail : List Token} {f : Follower} {p : Nat}
    (h : base.Legible eof) (ht : follower? t = some (p, f)) (hp : ∀ ⦃q : Nat⦄, Place p q → q < p)
    (hpower : e.power = p) (htokens : e.tokens 0 = base.tokens p ++ t :: tail)
    (hspine : e.spine 0 = base.spine p + 1)
    (hlevels : e.levels 0 = max (base.levels p) (base.spine p + 1 + m))
    (hfollower : ∀ ⦃d : Nat⦄ ⦃ls mid : List Lexeme⦄ ⦃acc : Expr⦄ ⦃loc : Location⦄,
      d ≤ maxNesting → Stops p mid → Spells tail ls mid → acc.unlocated = base.unlocated →
      Reads (parseFollower eof d p acc f loc ls) (d + m) (·.unlocated = e.unlocated) mid) :
    e.Legible eof := by
  intro q d n ls mid rest Q hplace hstops hls hfold
  rw [hpower] at hplace hstops
  rw [htokens] at hls
  rw [hspine] at hfold
  obtain ⟨before, hbase, loc, after, rfl, htail⟩ := spells_append.1 hls
  refine (h.operand hplace (stops_of_follower ht) hbase fun acc hacc => reads_foldExpr ht (hp hplace)
    (fun hd => hfollower hd hstops htail hacc) hfold).cast ?_
  rw [hlevels]
  omega

theorem legible_call {args : List Expr} (hargs : ∀ e ∈ args, e.Legible eof) (loc : Location)
    (callee : String) : (call loc callee args).Legible eof := by
  have hname : (name loc callee).Legible eof := legible_leaf rfl rfl (fun _ => rfl) rfl rfl
  refine legible_of_fold (m := itemLevels args) hname rfl (fun _ hq => hq.lt_seven) rfl rfl rfl
    (by simp only [levels, spine]; omega) fun d ls mid acc loc hd _ hls hacc => ?_
  -- only a name can be called, and no other expression looks like one without its location
  obtain ⟨loc', rfl⟩ : ∃ loc', acc = .name loc' callee := by
    cases acc <;> simp_all [unlocated]
  rw [parseFollower]
  refine (reads_parseItems closes_closeParen hargs hd hls).map fun es _ hes => ?_
  exact .done _ (by rw [unlocated, unlocated, hes])

theorem legible_tupleMember {base : Expr} (h : base.Legible eof) (loc : Location) (index : UInt32) :
    (tupleMember loc base index).Legible eof := by
  refine legible_of_fold (m := 0) h rfl (fun _ hq => hq.lt_seven) rfl rfl rfl rfl
    fun d ls mid acc loc hd _ hls hacc => ?_
  obtain ⟨_, _, rfl, rfl⟩ := hls
  rw [parseFollower, parseMember]
  simp only [tupleIndex?_ofNat]
  exact .ok _ hd (by rw [unlocated, unlocated, hacc])

theorem legible_objectMember {base : Expr} (h : base.Legible eof) (loc : Location)
    (member : String) : (objectMember loc base member).Legible eof := by
  refine legible_of_fold (m := 0) h rfl (fun _ hq => hq.lt_seven) rfl rfl rfl rfl
    fun d ls mid acc loc hd _ hls hacc => ?_
  obtain ⟨_, _, rfl, rfl⟩ := hls
  rw [parseFollower, parseMember]
  exact .ok _ hd (by rw [unlocated, unlocated, hacc])

theorem legible_element {base index : Expr} (hbase : base.Legible eof) (hindex : index.Legible eof)
    (loc : Location) : (element loc base index).Legible eof := by
  refine legible_of_fold (m := index.levels 0) hbase rfl (fun _ hq => hq.lt_seven) rfl rfl rfl rfl
    fun d ls mid acc loc hd _ hls hacc => ?_
  obtain ⟨_, hvalue, _, _, rfl, rfl⟩ := spells_append.1 hls
  rw [parseFollower]
  refine (hindex.whole (stops_of_none rfl) hvalue).map fun i _ hi => ?_
  refine (reads_expect ..).map fun _ _ _ => ?_
  exact .done _ (by rw [unlocated, unlocated, hacc, hi])

/-- A binary operator is read back with the grouping it had. -/
theorem legible_binary {left right : Expr} (hleft : left.Legible eof) (hright : right.Legible eof)
    (loc : Location) (op : BinaryOp) : (binary loc op left right).Legible eof := by
  refine legible_of_fold (m := right.levels (op.power + 1)) hleft (follower?_token op)
    (fun _ hq => hq.folds op (Nat.le_refl _)) rfl rfl rfl rfl
    fun d ls mid acc loc hd hstops hls hacc => ?_
  rw [parseFollower]
  refine (hright.filling (Place.right op) hstops hls).map fun r _ hr => ?_
  exact .done _ (by rw [unlocated, unlocated, hacc, hr])

/-! ## Every expression -/

mutual

/-- Every expression that can be written is read back from its tokens. -/
theorem legible (e : Expr) (h : e.full = true) : e.Legible eof := by
  cases e with
  | name | null | int | float | text => exact legible_leaf rfl rfl (fun _ => rfl) rfl rfl
  | tuple loc items =>
    obtain ⟨htwo, hitems⟩ := Bool.and_eq_true_iff.1 h
    exact legible_tuple (legible_items items hitems) (of_decide_eq_true htwo) loc
  | object loc members => exact legible_object (legible_members members h) loc
  | array loc items => exact legible_array (legible_items items h) loc
  | call loc callee args => exact legible_call (legible_items args h) loc callee
  | tupleMember loc base index => exact legible_tupleMember (base.legible h) loc index
  | objectMember loc base member => exact legible_objectMember (base.legible h) loc member
  | element loc base index =>
    obtain ⟨hbase, hindex⟩ := Bool.and_eq_true_iff.1 h
    exact legible_element (base.legible hbase) (index.legible hindex) loc
  | unary loc op operand => exact legible_unary (operand.legible h) loc op
  | binary loc op left right =>
    obtain ⟨hleft, hright⟩ := Bool.and_eq_true_iff.1 h
    exact legible_binary (left.legible hleft) (right.legible hright) loc op

theorem legible_items (es : List Expr) (h : fullItems es = true) : ∀ e ∈ es, e.Legible eof := by
  cases es with
  | nil => exact fun _ he => nomatch he
  | cons e es =>
    obtain ⟨he, hes⟩ := Bool.and_eq_true_iff.1 h
    exact List.forall_mem_cons.2 ⟨e.legible he, legible_items es hes⟩

theorem legible_members (members : List (String × Expr)) (h : fullMembers members = true) :
    ∀ p ∈ members, p.2.Legible eof := by
  cases members with
  | nil => exact fun _ hp => nomatch hp
  | cons p more =>
    obtain ⟨s, e⟩ := p
    obtain ⟨he, hmore⟩ := Bool.and_eq_true_iff.1 h
    exact List.forall_mem_cons.2 ⟨e.legible he, legible_members more hmore⟩

end

end Expr

end TickScript
