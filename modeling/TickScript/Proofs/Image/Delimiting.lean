import TickScript.Proofs.Image.Storage
import TickScript.Proofs.Success

/-!
# Stored images delimit themselves

Loading goes through the bytes from front to back, and those that it has not reached matter to it only by
their number, which a count must not exceed. So a reading that succeeds goes the same way when more bytes
follow, and leaves them behind what it has left (`Stable`). Skipping to an alignment may go past the end,
where more bytes would matter, but then nothing is left for the word or the body that has to come.

An image is accepted if nothing is left behind it. Hence with more bytes behind it it is refused for just
these bytes, and no part that an image begins with is accepted (`decode_delimited`).
-/

namespace TickScript

namespace Bytes.Reader

/-- The reader with more bytes behind those that it has. -/
def extend (r : Reader) (more : List UInt8) : Reader := ⟨r.offset, r.rest ++ more⟩

/-- More bytes behind what is read are more bytes left. -/
@[simp] theorem left_extend (r : Reader) (more : List UInt8) :
    (r.extend more).left = r.left + more.length :=
  List.length_append

/-- Skipping to an alignment is the same as long as it does not go past the end. -/
theorem align_extend {r : Reader} {alignment : Nat} (h : 0 < (r.align alignment).left)
    (more : List UInt8) : (r.extend more).align alignment = (r.align alignment).extend more := by
  have hpad : padding alignment r.offset ≤ r.rest.length := by
    simp only [align, left, List.length_drop] at h
    omega
  simp only [align, extend, List.drop_append_of_le_length hpad]

/-- A word that is there is the same whatever follows it. -/
theorem word_extend {r r' : Reader} {width n : Nat} (hw : 0 < width) (h : r.word width = .ok (n, r'))
    (more : List UInt8) : (r.extend more).word width = .ok (n, r'.extend more) := by
  unfold word at h
  split at h
  · next bytes rest hs =>
    cases h
    obtain ⟨hrest, hlength⟩ := append_of_split? hs
    have hleft : 0 < (r.align width).left := by
      rw [left, hrest, List.length_append]
      omega
    have hsplit : split? width ((r.align width).rest ++ more) = some (bytes, rest ++ more) := by
      rw [hrest, List.append_assoc, ← hlength]
      exact split?_append bytes (rest ++ more)
    unfold word
    rw [align_extend hleft]
    simp only [extend, hsplit]
  · cases h

end Bytes.Reader

namespace Image

open Bytes (Reader)

/-! ## Parts of an image -/

variable {α : Type} {more : List UInt8}

/-- The same value, read with more bytes behind it. -/
inductive Extended (more : List UInt8) {m n : Nat} : Piece α m → Piece α n → Prop where
  | intro (a : α) (r : Reader) (h : r.left < m) (h' : (r.extend more).left < n) :
    Extended more ⟨a, r, h⟩ ⟨a, r.extend more, h'⟩

/-- A reading that succeeds succeeds with more bytes behind the reader too, and leaves them behind what it
has left. -/
def Stable {bound : Reader → Nat} (read : (r : Reader) → Except Damage (Piece α (bound r)))
    (r : Reader) : Prop :=
  ∀ more, Carries (Extended more) (read r) (read (r.extend more))

/-- A word is read the same whatever comes behind it. -/
theorem stable_readWord (r : Reader) {width : Nat} (hw : 0 < width) :
    Stable (fun r => readWord r width hw) r := by
  intro more p hp
  simp only [readWord] at hp ⊢
  split at hp
  · next n r' e =>
    cases hp
    have e' := Reader.word_extend hw e more
    split
    · next n' r'' e'' =>
      cases e'.symm.trans e''
      exact ⟨_, rfl, .intro ..⟩
    · next e'' => cases e'.symm.trans e''
  · cases hp

theorem stable_readUInt32 (r : Reader) : Stable readUInt32 r := by
  intro more
  refine (stable_readWord r (by decide) more).bind ?_
  rintro _ _ ⟨n, r₁, h, h'⟩
  exact .pure (.intro ..)

theorem stable_readUnit (r : Reader) : Stable readUnit r := by
  intro more
  refine (stable_readWord r (by decide) more).bind ?_
  rintro _ _ ⟨n, r₁, h, h'⟩
  exact .pure (.intro ..)

/-- A count that the bytes left allow is allowed when there are more of them. -/
theorem stable_readCount (r : Reader) : Stable readCount r := by
  intro more
  refine (stable_readWord r (by decide) more).bind ?_
  rintro _ _ ⟨n, r₁, h, h'⟩
  change Carries _ (if Bytes.isShorter r₁.rest n then _ else _)
    (if Bytes.isShorter (r₁.rest ++ more) n then _ else _)
  rw [Bytes.isShorter_eq_decide, Bytes.isShorter_eq_decide, List.length_append]
  by_cases hn : r₁.rest.length < n
  · rw [decide_eq_true hn]
    exact .error _
  · rw [decide_eq_false hn, decide_eq_false (by omega)]
    exact .pure (.intro ..)

/-- If one item is read the same, so are many. -/
theorem stable_readMany {item : (r : Reader) → Except Damage (Piece α r.left)}
    (hitem : ∀ r, Stable item r) (n : Nat) (r : Reader) : Stable (readMany item n) r := by
  intro more
  induction n generalizing r with
  | zero => exact .pure (.intro ..)
  | succ n ih =>
    refine (hitem r more).bind ?_
    rintro _ _ ⟨a, r₁, h₁, h₁'⟩
    refine (ih r₁).bind ?_
    rintro _ _ ⟨as, r₂, h₂, h₂'⟩
    exact .pure (.intro ..)

/-- If its entries are read the same, so is a table. -/
theorem stable_readTable {entry : (r : Reader) → Except Damage (Piece α r.left)}
    (hentry : ∀ r, Stable entry r) (r : Reader) : Stable (readTable entry) r := by
  intro more
  refine (stable_readCount r more).bind ?_
  rintro _ _ ⟨n, r₁, h₁, h₁'⟩
  refine (stable_readMany hentry n r₁ more).bind ?_
  rintro _ _ ⟨as, r₂, h₂, h₂'⟩
  exact .pure (.intro ..)

/-- Texts are read the same whatever comes behind them. -/
theorem stable_readTexts (n : Nat) (id : UInt32) (r : Reader) : Stable (readTexts n id) r := by
  intro more
  induction n generalizing id r with
  | zero => exact .pure (.intro ..)
  | succ n ih =>
    refine (stable_readTable stable_readUnit r more).bind ?_
    rintro _ _ ⟨units, r₁, h₁, h₁'⟩
    dsimp only
    cases Text.ofUnits? units with
    | none => exact .error _
    | some s =>
      refine (ih (id + 1) r₁).bind ?_
      rintro _ _ ⟨ss, r₂, h₂, h₂'⟩
      exact .pure (.intro ..)

mutual

/-- An instruction, whatever it is. The bodies inside it begin further on, so the induction is on the
bytes left. -/
theorem stable_readInstr (r : Reader) : Stable readInstr r := by
  intro more
  rw [readInstr, readInstr]
  refine (stable_readWord r (by decide) more).bind ?_
  rintro _ _ ⟨n, r₁, h₁, h₁'⟩
  dsimp only
  split
  · exact .pure (.intro ..)
  · refine (stable_readUInt32 r₁ more).bind ?_
    rintro _ _ ⟨m, r₂, h₂, h₂'⟩
    exact .pure (.intro ..)
  · split
    · refine (stable_readWord r₁ (by decide) more).bind ?_
      rintro _ _ ⟨m, r₂, h₂, h₂'⟩
      exact .pure (.intro ..)
    · refine (stable_readWord r₁ (by decide) more).bind ?_
      rintro _ _ ⟨m, r₂, h₂, h₂'⟩
      exact .pure (.intro ..)
    · refine (stable_readBody r₁ more).bind ?_
      rintro _ _ ⟨yes, r₂, h₂, h₂'⟩
      refine (stable_readBody r₂ more).bind ?_
      rintro _ _ ⟨no, r₃, h₃, h₃'⟩
      exact .pure (.intro ..)
    · refine (stable_readBody r₁ more).bind ?_
      rintro _ _ ⟨body, r₂, h₂, h₂'⟩
      exact .pure (.intro ..)
    · refine (stable_readBody r₁ more).bind ?_
      rintro _ _ ⟨body, r₂, h₂, h₂'⟩
      exact .pure (.intro ..)
    · exact .error _
termination_by (r.left, 0)

/-- So are instructions, with those inside them. -/
theorem stable_readInstrs (n : Nat) (r : Reader) : Stable (readInstrs n) r := by
  intro more
  cases n with
  | zero =>
    rw [readInstrs, readInstrs]
    exact .pure (.intro ..)
  | succ n =>
    rw [readInstrs, readInstrs]
    refine (stable_readInstr r more).bind ?_
    rintro _ _ ⟨i, r₁, h₁, h₁'⟩
    refine (stable_readInstrs n r₁ more).bind ?_
    rintro _ _ ⟨is, r₂, h₂, h₂'⟩
    exact .pure (.intro ..)
termination_by (r.left, 1)

theorem stable_readBody (r : Reader) : Stable readBody r := by
  intro more
  rw [readBody, readBody]
  refine (stable_readCount r more).bind ?_
  rintro _ _ ⟨n, r₁, h₁, h₁'⟩
  refine (stable_readInstrs n r₁ more).bind ?_
  rintro _ _ ⟨is, r₂, h₂, h₂'⟩
  exact .pure (.intro ..)
termination_by (r.left, 0)

end

theorem stable_readSignature (r : Reader) : Stable readSignature r := by
  intro more
  refine (stable_readUInt32 r more).bind ?_
  rintro _ _ ⟨name, r₁, h₁, h₁'⟩
  refine (stable_readUInt32 r₁ more).bind ?_
  rintro _ _ ⟨arity, r₂, h₂, h₂'⟩
  refine (stable_readUInt32 r₂ more).bind ?_
  rintro _ _ ⟨cost, r₃, h₃, h₃'⟩
  exact .pure (.intro ..)

theorem stable_readFunction (r : Reader) : Stable readFunction r := by
  intro more
  refine (stable_readUInt32 r more).bind ?_
  rintro _ _ ⟨name, r₁, h₁, h₁'⟩
  refine (stable_readUInt32 r₁ more).bind ?_
  rintro _ _ ⟨arity, r₂, h₂, h₂'⟩
  refine (stable_readUInt32 r₂ more).bind ?_
  rintro _ _ ⟨line, r₃, h₃, h₃'⟩
  refine (stable_readUInt32 r₃ more).bind ?_
  rintro _ _ ⟨file, r₄, h₄, h₄'⟩
  refine (stable_readBody r₄ more).bind ?_
  rintro _ _ ⟨body, r₅, h₅, h₅'⟩
  exact .pure (.intro ..)

/-! ## Whole images -/

/-- More bytes are carried along behind the header. -/
theorem carries_readHeader (r : Reader) (more : List UInt8) :
    Carries (fun r₁ r₂ => r₂ = r₁.extend more) (readHeader r) (readHeader (r.extend more)) := by
  refine (stable_readUInt32 r more).bind ?_
  rintro _ _ ⟨mark, r₁, h₁, h₁'⟩
  dsimp only
  split
  · exact .error _
  · refine (stable_readWord r₁ (by decide) more).bind ?_
    rintro _ _ ⟨n, r₂, h₂, h₂'⟩
    dsimp only
    split
    · exact .error _
    · exact .pure rfl

/-- Bytes behind an image are refused, all of them. -/
theorem decode_append {bytes more : List UInt8} {image : Image} (h : decode bytes = .ok image)
    (hmore : more ≠ []) : decode (bytes ++ more) = .error (.trailing more.length) := by
  have hpos : 0 < more.length := List.length_pos_iff.2 hmore
  show (readHeader ((Reader.ofBytes bytes).extend more) >>= _) = _
  refine (carries_readHeader (.ofBytes bytes) more).bind_eq h ?_
  rintro r _ rfl h
  refine (stable_readCount r more).bind_eq h ?_
  rintro _ _ ⟨n, r₁, h₁, h₁'⟩ h
  refine (stable_readTexts n 0 r₁ more).bind_eq h ?_
  rintro _ _ ⟨texts, r₂, h₂, h₂'⟩ h
  refine (stable_readTable (stable_readTable stable_readUInt32) r₂ more).bind_eq h ?_
  rintro _ _ ⟨shapes, r₃, h₃, h₃'⟩ h
  refine (stable_readTable stable_readSignature r₃ more).bind_eq h ?_
  rintro _ _ ⟨builtins, r₄, h₄, h₄'⟩ h
  refine (stable_readTable stable_readUInt32 r₄ more).bind_eq h ?_
  rintro _ _ ⟨globals, r₅, h₅, h₅'⟩ h
  refine (stable_readCount r₅ more).bind_eq h ?_
  rintro _ _ ⟨m, r₆, h₆, h₆'⟩ h
  -- The functions may be none, but a body is still to come: the alignment skips bytes that are there.
  have hleft : 0 < (r₆.align 8).left := by
    obtain ⟨⟨functions, r₇, h₇⟩, -, h⟩ := bind_eq_ok.1 h
    obtain ⟨⟨body, r₈, h₈⟩, -, -⟩ := bind_eq_ok.1 h
    omega
  have hfunctions : Carries (Extended more) (readMany readFunction m (r₆.align 8))
      (readMany readFunction m ((r₆.extend more).align 8)) := by
    rw [Reader.align_extend hleft]
    exact stable_readMany stable_readFunction m (r₆.align 8) more
  refine hfunctions.bind_eq h ?_
  rintro _ _ ⟨functions, r₇, h₇, h₇'⟩ h
  refine (stable_readBody r₇ more).bind_eq h ?_
  rintro _ _ ⟨body, r₈, h₈, h₈'⟩ h
  have hend : r₈.left = 0 := by
    by_contra hne
    dsimp only at h
    rw [if_pos (Nat.pos_of_ne_zero hne)] at h
    cases h
  have htrailing : (r₈.extend more).left = more.length := by
    rw [Reader.left_extend, hend, Nat.zero_add]
  dsimp only
  rw [htrailing, if_pos hpos]
  rfl

/-- The bytes of an image say themselves where they end: with any bytes behind them they are refused for
just those bytes, and no smaller part that they begin with is an image. -/
theorem decode_delimited (bytes : List UInt8) (image : Image) (h : decode bytes = .ok image) :
    (∀ more, more ≠ [] → decode (bytes ++ more) = .error (.trailing more.length)) ∧
      ∀ part, part <+: bytes → part ≠ bytes → ∃ damage, decode part = .error damage := by
  refine ⟨fun more => decode_append h, ?_⟩
  rintro part ⟨rest, rfl⟩ hne
  have hrest : rest ≠ [] := by
    rintro rfl
    exact hne (List.append_nil part).symm
  cases hp : decode part with
  | error damage => exact ⟨damage, rfl⟩
  | ok image' =>
    -- Were the part an image, the rest would be refused behind it.
    have hrefused := decode_append hp hrest
    rw [h] at hrefused
    cases hrefused

/-- A program with a function and a branch, with one byte more and cut off in its text. -/
theorem decode_delimited_branching :
    let bytes := (link ⟨[⟨"print", 1, 10⟩], ["g"], [⟨"f", 1, 3, "main", [.pushLocal, .giveBack]⟩],
      [.pushInt (-1), .branch [.loop [.tick [.line 7, .pushText "π😀"]]] [.makeObject ["a", "b"]]]⟩).encode
    decode (bytes ++ [0]) = .error (.trailing 1) ∧ ∃ damage, decode (bytes.take 20) = .error damage := by
  intro bytes
  have h : decode bytes = .ok _ := decode_encode (fits_of_length_encode (by decide +kernel))
  have hcut : bytes.take 20 ≠ bytes := by decide +kernel
  obtain ⟨hmore, hpart⟩ := decode_delimited bytes _ h
  exact ⟨hmore [0] (by decide), hpart _ (List.take_prefix 20 bytes) hcut⟩

end Image

end TickScript
