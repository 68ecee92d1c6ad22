import TickScript.Proofs.Image.Extent
import TickScript.Proofs.Image.Loader
import TickScript.Proofs.Image.Storage

/-!
# Loading ends, and makes nothing out of nothing

A loader comes to what the reader comes to that stands where it stands (`Follows`), and the latter gets by
on fewer and fewer bytes. So the induction is on the bytes left, and bodies may nest as they like. Past the
end the reader has no bytes, and the loader finds no word there either.

What was read has used bytes up, so the loader has gone forward. A word is only read where all of its bytes
are, so it has not gone past the end, whatever was skipped before it (`Follows.advances`).
-/

namespace TickScript

namespace Bytes.Reader

/-- A word is there if its bytes are, behind what is skipped. -/
theorem word_drop (bytes : List UInt8) (pos : Nat) {width : Nat} (hw : 0 < width) :
    let start := pos + padding width pos
    word ⟨pos, bytes.drop pos⟩ width =
      if start + width ≤ bytes.length then
        .ok (number ((bytes.drop start).take width), ⟨start + width, bytes.drop (start + width)⟩)
      else .error start := by
  intro start
  have hrest : (align ⟨pos, bytes.drop pos⟩ width).rest = bytes.drop start := List.drop_drop
  unfold word
  rw [hrest]
  by_cases hle : start + width ≤ bytes.length
  · have hlength : ((bytes.drop start).take width).length = width := by
      rw [List.length_take, List.length_drop]
      omega
    have hsplit := split?_append ((bytes.drop start).take width) ((bytes.drop start).drop width)
    rw [List.take_append_drop, hlength, List.drop_drop] at hsplit
    rw [hsplit, if_pos hle]
    rfl
  · rw [if_neg hle]
    cases hsplit : split? width (bytes.drop start) with
    | none => rfl
    | some parts =>
      obtain ⟨happend, hlength⟩ := append_of_split? hsplit
      have hdrop := congrArg List.length happend
      rw [List.length_append, List.length_drop] at hdrop
      omega

end Bytes.Reader

namespace Image

open Bytes (Reader)

namespace Loader

variable {α β : Type} {bytes : List UInt8}

/-- The reader that stands where the loader stands. -/
def reader (bytes : List UInt8) (l : Loader) : Reader := ⟨l.pos, bytes.drop l.pos⟩

/-- What is left is what is behind the position. -/
theorem left_reader (l : Loader) : (l.reader bytes).left = bytes.length - l.pos :=
  List.length_drop

/-- No body was begun that should have more instructions than bytes were left. -/
def Counted (l : Loader) : Prop := ∀ b ∈ l.bodies, b.1 ≤ b.2

/-- The reading gives the same and ends at the reader `r`. -/
inductive Agrees {bound : Nat} (r : Reader) :
    Except Damage α → Except Damage (Piece α bound) → Prop where
  | ok (a : α) (fewer : r.left < bound) : Agrees r (.ok a) (.ok ⟨a, r, fewer⟩)
  | error (e : Damage) : Agrees r (.error e) (.error e)

/-- The loading ends. It agrees with a reading, keeps what bodies are begun counted, and, should it give a
result, does not go past the end from before it. -/
def Follows {bound : Nat} (bytes : List UInt8) (m : Nat → Loading α) (l : Loader)
    (read : Except Damage (Piece α bound)) : Prop :=
  Routine.Ends m l fun r l' => Agrees (l'.reader bytes) r read ∧ (l.Counted → l'.Counted) ∧
    ∀ a, r = .ok a → l.pos ≤ bytes.length → l'.pos ≤ bytes.length

namespace Follows

variable {a b : Nat} {l : Loader} {m : Nat → Loading α} {f : Nat → α → Loading β}
  {read : Except Damage (Piece α a)} {k : Piece α a → Except Damage (Piece β b)}

theorem ok {v : α} {fewer : (l.reader bytes).left < a} :
    Follows bytes (fun _ => Pure.pure v) l (.ok ⟨v, l.reader bytes, fewer⟩ : Except Damage (Piece α a)) :=
  .pure ⟨.ok v fewer, id, fun _ _ => id⟩

theorem fail {e : Damage} :
    Follows bytes (fun _ => throw e) l (.error e : Except Damage (Piece α a)) :=
  .throw ⟨.error e, id, nofun⟩

/-- A call inside takes one unit of fuel. -/
theorem call (h : Follows bytes (fun n => m (n + 1)) l read) : Follows bytes m l read :=
  Routine.Ends.call h

/-- Two loadings one after the other follow two readings. -/
theorem bind (h : Follows bytes m l read)
    (hf : ∀ v l' fewer, Follows bytes (fun n => f n v) l' (k ⟨v, l'.reader bytes, fewer⟩)) :
    Follows bytes (fun n => m n >>= f n) l (read >>= k) := by
  refine Routine.Ends.bind h ?_ ?_
  · rintro v l₁ ⟨⟨_, fewer⟩, hcounted, hpos⟩
    refine (hf v l₁ fewer).mono ?_
    rintro r l₂ ⟨hr, hcounted', hpos'⟩
    exact ⟨hr, fun h => hcounted' (hcounted h), fun w hw h => hpos' w hw (hpos v rfl h)⟩
  · rintro e l₁ ⟨⟨_⟩, hcounted, -⟩
    exact ⟨.error e, hcounted, nofun⟩

/-- The same value, under another bound. -/
theorem rebound {k : Piece α a → Except Damage (Piece α b)} (h : Follows bytes m l read)
    (hk : ∀ v r fewer, ∃ fewer', k ⟨v, r, fewer⟩ = .ok ⟨v, r, fewer'⟩) :
    Follows bytes m l (read >>= k) := by
  refine Routine.Ends.mono h ?_
  rintro r l' ⟨hr, h⟩
  refine ⟨?_, h⟩
  cases hr with
  | ok v fewer =>
    obtain ⟨fewer', hk⟩ := hk v _ fewer
    change Agrees _ _ (k _)
    rw [hk]
    exact .ok v fewer'
  | error e => exact .error e

end Follows

variable {l : Loader}

/-! ## Words and counts -/

/-- A word is loaded from behind its padding, unless the bytes end before. -/
theorem outcome_word (bytes : List UInt8) (l : Loader) (width : Nat) :
    let start := l.pos + Bytes.padding width l.pos
    (word bytes width).outcome l =
      if start + width ≤ bytes.length then
        some (.ok (Bytes.number ((bytes.drop start).take width)), { l with pos := start + width })
      else some (.error (.cutOff start), { l with pos := start }) := by
  intro start
  change (if start + width ≤ bytes.length then _ else _ : Loading Nat).outcome _ = _
  split <;> rfl

/-- Loading a word at a position follows reading it. -/
theorem follows_word (l : Loader) {width : Nat} (hw : 0 < width) :
    Follows bytes (fun _ => word bytes width) l (readWord (l.reader bytes) width hw) := by
  have hword := Reader.word_drop bytes l.pos hw
  have hrun := outcome_word bytes l width
  dsimp only at hword hrun
  unfold readWord
  split
  · next n r' e =>
    rw [reader, hword] at e
    split at e
    · next hle =>
      cases e
      rw [if_pos hle] at hrun
      exact .of_outcome (fun _ => hrun) ⟨.ok _ _, id, fun _ _ _ => hle⟩
    · cases e
  · next start e =>
    rw [reader, hword] at e
    split at e
    · cases e
    · next hlt =>
      cases e
      rw [if_neg hlt] at hrun
      exact .of_outcome (fun _ => hrun) ⟨.error _, id, nofun⟩

theorem follows_uint32 (l : Loader) :
    Follows bytes (fun _ => uint32 bytes) l (readUInt32 (l.reader bytes)) :=
  (follows_word l (by decide)).bind fun n l' fewer => .ok

/-- A count that is read is not greater than the number of bytes left behind it. -/
theorem ends_count (bytes : List UInt8) (l : Loader) :
    Routine.Ends (fun _ => count bytes) l fun r l' => Agrees (l'.reader bytes) r (readCount (l.reader bytes)) ∧
      (l.Counted → l'.Counted) ∧
      (∀ a, r = .ok a → l.pos ≤ bytes.length → l'.pos ≤ bytes.length) ∧
      ∀ n, r = .ok n → n ≤ l'.left bytes := by
  have hread : readCount (l.reader bytes) = readWord (l.reader bytes) 4 (by decide) >>= fun p =>
      if Bytes.isShorter p.reader.rest p.value then .error (.cutOff l.pos) else .ok p := rfl
  rw [hread]
  have hword : Follows bytes (fun _ => word bytes 4) l (readWord (l.reader bytes) 4 (by decide)) :=
    follows_word l (by decide)
  generalize readWord (l.reader bytes) 4 _ = read at hword ⊢
  rw [count]
  refine .get_bind (Routine.Ends.bind hword ?_ ?_)
  · rintro n l₁ ⟨⟨_, fewer⟩, hcounted, hpos⟩
    have hshorter : Bytes.isShorter (l₁.reader bytes).rest n = decide (l₁.left bytes < n) := by
      rw [Bytes.isShorter_eq_decide, reader, List.length_drop]
      rfl
    refine .get_bind ?_
    change Routine.Ends _ l₁
      fun r l' => Agrees _ r (if Bytes.isShorter (l₁.reader bytes).rest n then _ else _) ∧ _
    rw [hshorter]
    by_cases hlt : l₁.left bytes < n
    · simp only [if_pos hlt, decide_eq_true hlt]
      exact .throw ⟨.error _, hcounted, nofun, nofun⟩
    · simp only [if_neg hlt, decide_eq_false hlt]
      refine .pure ⟨.ok n fewer, hcounted, fun _ _ h => hpos n rfl h, ?_⟩
      rintro _ ⟨⟩
      exact Nat.le_of_not_lt hlt
  · rintro e l₁ ⟨⟨_⟩, hcounted, -⟩
    exact ⟨.error e, hcounted, nofun, nofun⟩

theorem follows_count (l : Loader) :
    Follows bytes (fun _ => count bytes) l (readCount (l.reader bytes)) :=
  (ends_count bytes l).mono fun _ _ h => ⟨h.1, h.2.1, h.2.2.1⟩

/-- What is counted is begun: a body. -/
theorem Follows.begin {b : Nat} {f : Nat → Nat → Loading β}
    {k : Piece Nat (l.reader bytes).left → Except Damage (Piece β b)}
    (hf : ∀ v l' fewer, Follows bytes (fun n => f n v) l' (k ⟨v, l'.reader bytes, fewer⟩)) :
    Follows bytes (fun n => count bytes >>= fun v => begin bytes v >>= fun _ => f n v) l
      (readCount (l.reader bytes) >>= k) := by
  have hcount := ends_count bytes l
  generalize readCount (l.reader bytes) = read at hcount ⊢
  refine hcount.bind ?_ ?_
  · rintro n l₁ ⟨⟨_, fewer⟩, hcounted, hpos, hleft⟩
    have hbegun : l.Counted → Counted { l₁ with bodies := (n, l₁.left bytes) :: l₁.bodies } := by
      intro h b hb
      rcases List.mem_cons.1 hb with rfl | hb
      · exact hleft n rfl
      · exact hcounted h b hb
    refine (hf n { l₁ with bodies := (n, l₁.left bytes) :: l₁.bodies } fewer).mono ?_
    rintro r l₂ ⟨hr, hcounted', hpos'⟩
    exact ⟨hr, fun h => hcounted' (hbegun h), fun w hw h => hpos' w hw (hpos n rfl h)⟩
  · rintro e l₁ ⟨⟨_⟩, hcounted, -⟩
    exact ⟨.error e, hcounted, nofun⟩

/-! ## Items, instructions and bodies -/

/-- If loading one item follows reading it, so does loading many. -/
theorem follows_mapM {item : Nat → Loading α} {read : (r : Reader) → Except Damage (Piece α r.left)}
    (hitem : ∀ l, Follows bytes item l (read (l.reader bytes))) (is : List Nat) (l : Loader) :
    Follows bytes (fun n => is.mapM fun _ => item n) l (readMany read is.length (l.reader bytes)) := by
  induction is generalizing l with
  | nil => exact .ok
  | cons i is ih =>
    simp only [List.mapM_cons]
    exact (hitem l).bind fun v l₁ fewer => (ih l₁).bind fun vs l₂ fewer' => .ok

theorem follows_times {item : Nat → Loading α} {read : (r : Reader) → Except Damage (Piece α r.left)}
    (hitem : ∀ l, Follows bytes item l (read (l.reader bytes))) (length : Nat) (l : Loader) :
    Follows bytes (fun n => (List.range length).mapM fun _ => item n) l
      (readMany read length (l.reader bytes)) := by
  have hmany := follows_mapM hitem (List.range length) l
  rwa [List.length_range] at hmany

/-- The same for the entries of a table. -/
theorem follows_table {entry : Nat → Loading α} {read : (r : Reader) → Except Damage (Piece α r.left)}
    (hentry : ∀ l, Follows bytes entry l (read (l.reader bytes))) (l : Loader) :
    Follows bytes (fun n => table bytes fun _ => entry n) l (readTable read (l.reader bytes)) := by
  refine (follows_count l).bind fun n l₁ fewer => ?_
  exact (follows_times hentry n l₁).rebound fun vs r fewer' => ⟨_, rfl⟩

mutual

/-- Loading an instruction follows reading it, with all that is inside. -/
theorem follows_instruction (l : Loader) :
    Follows bytes (instruction bytes) l (readInstr (l.reader bytes)) := by
  refine .call ?_
  simp only [instruction]
  rw [readInstr]
  refine .get_bind ((follows_word l (by decide)).bind fun n l₁ fewer₁ => ?_)
  dsimp only
  cases Opcode.plain? (UInt8.ofNat n) with
  | some instr => exact .ok
  | none =>
    cases Opcode.worded? (UInt8.ofNat n) with
    | some make => exact (follows_uint32 l₁).bind fun m l₂ fewer₂ => .ok
    | none =>
      dsimp only
      generalize UInt8.ofNat n = code
      -- The loader looks at one opcode after the other, the reader at all of them at once.
      by_cases hint : code = 0x11
      · simp only [if_pos hint]
        subst hint
        exact (follows_word l₁ (by decide)).bind fun m l₂ fewer₂ => .ok
      by_cases hfloat : code = 0x12
      · simp only [if_neg hint, if_pos hfloat]
        subst hfloat
        exact (follows_word l₁ (by decide)).bind fun m l₂ fewer₂ => .ok
      by_cases hbranch : code = 0x40
      · simp only [if_neg hint, if_neg hfloat, if_pos hbranch]
        subst hbranch
        refine (follows_body l₁).bind fun yes l₂ fewer₂ => ?_
        exact (follows_body l₂).bind fun no l₃ fewer₃ => .ok
      simp only [if_neg hint, if_neg hfloat, if_neg hbranch]
      by_cases hloop : code = 0x41
      · simp only [if_pos hloop]
        subst hloop
        exact (follows_body l₁).bind fun body l₂ fewer₂ => .ok
      by_cases htick : code = 0x42
      · simp only [if_neg hloop, if_pos htick]
        subst htick
        exact (follows_body l₁).bind fun body l₂ fewer₂ => .ok
      simp only [if_neg hloop, if_neg htick]
      exact .fail
termination_by ((l.reader bytes).left, 0)

theorem follows_instructions (is : List Nat) (l : Loader) :
    Follows bytes (fun n => is.mapM fun _ => instruction bytes n) l (readInstrs is.length (l.reader bytes)) := by
  cases is with
  | nil =>
    rw [List.length_nil, readInstrs]
    exact .ok
  | cons i is =>
    simp only [List.mapM_cons]
    rw [List.length_cons, readInstrs]
    refine (follows_instruction l).bind fun v l₁ fewer₁ => ?_
    exact (follows_instructions is l₁).bind fun vs l₂ fewer₂ => .ok
termination_by ((l.reader bytes).left, 1)

/-- So does loading a body. -/
theorem follows_body (l : Loader) : Follows bytes (body bytes) l (readBody (l.reader bytes)) := by
  refine .call ?_
  simp only [body]
  rw [readBody]
  refine .begin fun length l₁ fewer₁ => ?_
  have hmany := follows_instructions (List.range length) l₁
  rw [List.length_range] at hmany
  exact hmany.rebound fun vs r fewer' => ⟨_, rfl⟩
termination_by ((l.reader bytes).left, 0)

end

/-! ## Tables and whole images -/

theorem follows_unit (l : Loader) :
    Follows bytes (fun _ => return UInt16.ofNat (← word bytes 2)) l (readUnit (l.reader bytes)) :=
  (follows_word l (by decide)).bind fun n l' fewer => .ok

/-- So does loading texts, which are numbered from the first on. -/
theorem follows_texts (length start : Nat) (l : Loader) :
    Follows bytes (fun _ => (List.range' start length).mapM (text bytes)) l
      (readTexts length (UInt32.ofNat start) (l.reader bytes)) := by
  induction length generalizing start l with
  | zero => exact .ok
  | succ length ih =>
    rw [List.range'_succ, List.mapM_cons, text, bind_assoc]
    refine (follows_table follows_unit l).bind fun units l₁ fewer₁ => ?_
    dsimp only
    cases Text.ofUnits? units with
    | none => exact .fail
    | some s =>
      rw [pure_bind]
      have hrest := ih (start + 1) l₁
      rw [UInt32.ofNat_add] at hrest
      exact hrest.bind fun ss l₂ fewer₂ => .ok

theorem follows_signature (l : Loader) :
    Follows bytes (fun _ => signature bytes) l (readSignature (l.reader bytes)) := by
  refine (follows_uint32 l).bind fun name l₁ fewer₁ => ?_
  refine (follows_uint32 l₁).bind fun arity l₂ fewer₂ => ?_
  exact (follows_uint32 l₂).bind fun cost l₃ fewer₃ => .ok

theorem follows_function (l : Loader) :
    Follows bytes (function bytes) l (readFunction (l.reader bytes)) := by
  refine (follows_uint32 l).bind fun name l₁ fewer₁ => ?_
  refine (follows_uint32 l₁).bind fun arity l₂ fewer₂ => ?_
  refine (follows_uint32 l₂).bind fun line l₃ fewer₃ => ?_
  refine (follows_uint32 l₃).bind fun file l₄ fewer₄ => ?_
  exact (follows_body l₄).bind fun instrs l₅ fewer₅ => .ok

/-- The loading ends and comes to `x`, with what bodies are begun counted. -/
def ComesTo (m : Nat → Loading α) (l : Loader) (x : Except Damage α) : Prop :=
  Routine.Ends m l fun r l' => r = x ∧ (l.Counted → l'.Counted)

/-- What follows a reading comes to the same as it, whatever is done next. -/
theorem Follows.bind_comesTo {a : Nat} {m : Nat → Loading α} {f : Nat → α → Loading β}
    {read : Except Damage (Piece α a)} {k : Piece α a → Except Damage β} (h : Follows bytes m l read)
    (hf : ∀ v l' fewer, ComesTo (fun n => f n v) l' (k ⟨v, l'.reader bytes, fewer⟩)) :
    ComesTo (fun n => m n >>= f n) l (read >>= k) := by
  refine Routine.Ends.bind h ?_ ?_
  · rintro v l₁ ⟨⟨_, fewer⟩, hcounted, -⟩
    refine (hf v l₁ fewer).mono ?_
    rintro r l₂ ⟨hr, hcounted'⟩
    exact ⟨hr, fun h => hcounted' (hcounted h)⟩
  · rintro e l₁ ⟨⟨_⟩, hcounted, -⟩
    exact ⟨rfl, hcounted⟩

/-- The header is loaded as it is read, and the rest goes on behind it. -/
theorem comesTo_header (l : Loader) {f : Nat → Unit → Loading β} {k : Reader → Except Damage β}
    (hf : ∀ l', ComesTo (fun n => f n ()) l' (k (l'.reader bytes))) :
    ComesTo (fun n => header bytes >>= f n) l (readHeader (l.reader bytes) >>= k) := by
  simp only [header, readHeader, bind_assoc]
  refine (follows_uint32 l).bind_comesTo fun mark l₁ fewer₁ => ?_
  by_cases hmark : mark = magic
  · simp only [hmark, ne_eq, not_true_eq_false, if_false, bind_assoc]
    refine (follows_word l₁ (by decide)).bind_comesTo fun n l₂ fewer₂ => ?_
    by_cases hversion : UInt16.ofNat n = version
    · simp only [hversion, not_true_eq_false, if_false, pure_bind]
      exact hf l₂
    · simp only [hversion, not_false_eq_true, if_true]
      exact .throw ⟨rfl, id⟩
  · simp only [hmark, ne_eq, not_false_eq_true, if_true]
    exact .throw ⟨rfl, id⟩

/-- The loader after a skip to an alignment. -/
def aligned (alignment : Nat) (l : Loader) : Loader :=
  { l with pos := l.pos + Bytes.padding alignment l.pos }

/-- Skipping to an alignment is the same by position. -/
theorem align_reader (alignment : Nat) (l : Loader) :
    (l.reader bytes).align alignment = (l.aligned alignment).reader bytes :=
  congrArg (Reader.mk _) List.drop_drop

/-- What comes next goes on behind the alignment. -/
theorem comesTo_align {alignment : Nat} {f : Nat → Unit → Loading β} {x : Except Damage β}
    (h : ComesTo (fun n => f n ()) (l.aligned alignment) x) :
    ComesTo (fun n => align alignment >>= f n) l x := h

/-- Stored bytes are loaded with a position as without one. -/
theorem comesTo_image (bytes : List UInt8) : ComesTo (image bytes) start (decode bytes) := by
  unfold image
  refine comesTo_header start fun l₀ => ?_
  have htexts : table bytes (text bytes) =
      count bytes >>= fun length => (List.range' 0 length).mapM (text bytes) := by
    simp only [table, List.range_eq_range']
  simp only [htexts, bind_assoc]
  refine (follows_count l₀).bind_comesTo fun length l₁ fewer₁ => ?_
  refine (follows_texts length 0 l₁).bind_comesTo fun texts l₂ fewer₂ => ?_
  refine (follows_table (follows_table follows_uint32) l₂).bind_comesTo fun shapes l₃ fewer₃ => ?_
  refine (follows_table follows_signature l₃).bind_comesTo fun builtins l₄ fewer₄ => ?_
  refine (follows_table follows_uint32 l₄).bind_comesTo fun globals l₅ fewer₅ => ?_
  refine (follows_count l₅).bind_comesTo fun m l₆ fewer₆ => ?_
  dsimp only
  rw [align_reader]
  refine comesTo_align ?_
  refine (follows_times follows_function m (l₆.aligned 8)).bind_comesTo fun functions l₈ fewer₈ => ?_
  refine (follows_body l₈).bind_comesTo fun main l₉ fewer₉ => ?_
  have hleft : (l₉.reader bytes).left = l₉.left bytes := left_reader l₉
  dsimp only
  rw [hleft]
  by_cases hmore : l₉.left bytes > 0
  · rw [if_pos hmore]
    refine Routine.Ends.get_bind ?_
    simp only [if_pos hmore]
    exact .throw ⟨rfl, id⟩
  · rw [if_neg hmore]
    refine Routine.Ends.get_bind ?_
    simp only [if_neg hmore]
    exact .pure ⟨rfl, id⟩

/-- The loading ends with what the reading gives, and keeps what bodies are begun counted. If it gives a
value, it has gone forward, and not past the end. -/
def Advances {bound : Nat} (bytes : List UInt8) (m : Nat → Loading α) (l : Loader)
    (read : Except Damage (Piece α bound)) : Prop :=
  Routine.Ends m l fun r l' => Agrees (l'.reader bytes) r read ∧ (l.Counted → l'.Counted) ∧
    ∀ a, r = .ok a → l.pos < l'.pos ∧ l'.pos ≤ bytes.length

/-- What was read has used bytes up, so there were some, and the loader has gone forward. -/
theorem Follows.advances {m : Nat → Loading α} {read : Except Damage (Piece α (l.reader bytes).left)}
    (h : Follows bytes m l read) : Advances bytes m l read := by
  refine Routine.Ends.mono h ?_
  rintro r l' ⟨hr, hcounted, hpos⟩
  refine ⟨hr, hcounted, ?_⟩
  rintro a rfl
  cases hr with
  | ok _ fewer =>
    rw [left_reader, left_reader] at fewer
    exact ⟨by omega, hpos a rfl (by omega)⟩

/-- **Loading cannot be made to run on or to build more than the bytes hold.** It ends on all bytes, with
what the reading without a position gives, and never begins a body that should have more instructions than
bytes are left. From any position, be it past the end, so do the loadings of an instruction and of a body,
which go forward if they give something, and not past the end. An image that is accepted holds no more
items, those inside others counted, than it had bytes. -/
theorem loading_bounded (bytes : List UInt8) :
    (Routine.Ends (Loader.image bytes) start fun r l => r = decode bytes ∧ l.Counted) ∧
      (∀ l : Loader, Advances bytes (instruction bytes) l (readInstr (l.reader bytes)) ∧
        Advances bytes (body bytes) l (readBody (l.reader bytes))) ∧
      ∀ image, decode bytes = .ok image → image.extent ≤ bytes.length := by
  refine ⟨?_, fun l => ⟨(follows_instruction l).advances, (follows_body l).advances⟩,
    fun _ => extent_le_of_decode⟩
  refine (comesTo_image bytes).mono fun r l h => ⟨h.1, h.2 ?_⟩
  exact fun _ => nofun

/-- A program with a function and nested bodies, one of whose texts has a character of two units. -/
theorem loading_bounded_nested :
    let image := link ⟨[⟨"print", 1, 10⟩], ["g"], [⟨"f", 1, 3, "main", [.pushLocal, .giveBack]⟩],
      [.pushInt (-1), .branch [.loop [.tick [.line 7, .pushText "π😀"]]] [.makeObject ["a", "b"]]]⟩
    let bytes := image.encode
    (Routine.Ends (Loader.image bytes) start fun r l => r = .ok image ∧ l.Counted) ∧
      decode bytes = .ok image ∧ image.extent = 38 ∧ 38 ≤ bytes.length := by
  intro image bytes
  have h : decode bytes = .ok image := decode_encode (fits_of_length_encode (by decide +kernel))
  have hextent : image.extent = 38 := by decide +kernel
  obtain ⟨hends, -, hle⟩ := loading_bounded bytes
  rw [h] at hends
  exact ⟨hends, h, hextent, hextent ▸ hle image h⟩

end Loader

end Image

end TickScript
