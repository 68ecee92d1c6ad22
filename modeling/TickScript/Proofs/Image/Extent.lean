import Mathlib
import TickScript.Image.Decode
import TickScript.Proofs.Image.Size
import TickScript.Proofs.Success
import TickScript.Proofs.Text.Utf16

/-!
# What an image holds was there in its bytes

Whatever is read takes bytes from the reader, one at least for each item that it gives: an entry of a
table, a unit of a text, a member of a shape, an instruction be it ever so deep inside others. A count
by itself gives nothing, however great it is. So an image does not hold more items than it had bytes
(`Image.extent_le_of_decode`).
-/

namespace TickScript.Image

open Bytes (Reader)

/-- The number of items of an image: its texts and their units, its shapes and their members, its
builtins, globals and functions, and the instructions of all bodies with those inside others. -/
def extent (image : Image) : Nat :=
  image.texts.length + (image.texts.map fun s => (Text.toUnits s).length).sum +
    (image.shapes.length + (image.shapes.map List.length).sum) +
    image.program.builtins.length + image.program.globals.length +
    (image.program.functions.length +
      (image.program.functions.map fun fn => countInstrs Instr.isAny fn.body).sum) +
    countInstrs Instr.isAny image.program.body

/-- A reading that succeeds takes a byte at least from the reader `r` for each item that it gives. -/
def Paid {α : Type} {bound : Nat} (items : α → Nat) (r : Reader)
    (read : Except Damage (Piece α bound)) : Prop :=
  ∀ p, read = .ok p → items p.value + p.reader.left ≤ r.left

namespace Paid

variable {α β : Type} {a b : Nat} {items items' : α → Nat} {itemsB : β → Nat} {r r' r₀ : Reader}
  {read : Except Damage (Piece α a)} {k : Piece α a → Except Damage (Piece β b)}

theorem ok {v : α} {fewer : r'.left < a} (h : items v + r'.left ≤ r.left) :
    Paid items r (.ok ⟨v, r', fewer⟩ : Except Damage (Piece α a)) := by
  rintro _ ⟨⟩
  exact h

theorem error {e : Damage} : Paid items r (.error e : Except Damage (Piece α a)) := nofun

theorem weaken (h : Paid items r read) (hle : ∀ v, items' v ≤ items v) : Paid items' r read :=
  fun p hp => Nat.le_trans (Nat.add_le_add_right (hle p.value) _) (h p hp)

/-- Two readings one after the other are paid for by the bytes of both. -/
theorem bind (h : Paid items r read)
    (hk : ∀ v r' fewer, items v + r'.left ≤ r.left → Paid itemsB r₀ (k ⟨v, r', fewer⟩)) :
    Paid itemsB r₀ (read >>= k) := by
  intro p hp
  obtain ⟨⟨v, r', fewer⟩, hv, hp⟩ := bind_eq_ok.1 hp
  exact hk v r' fewer (h _ hv) p hp

end Paid

section Parts

variable {α : Type} {items : α → Nat}

/-- A word pays for as many items as it has bytes. -/
theorem paid_readWord (r : Reader) {width : Nat} (hw : 0 < width) :
    Paid (fun _ => width) r (readWord r width hw) := by
  intro p hp
  unfold readWord at hp
  split at hp
  · next n r' e =>
    cases hp
    have hleft := Reader.left_of_word e
    change width + r'.left ≤ r.left
    omega
  · cases hp

theorem paid_readUInt32 (r : Reader) : Paid (fun _ => 4) r (readUInt32 r) :=
  (paid_readWord r (by decide)).bind fun _ _ _ h => .ok h

theorem paid_readUnit (r : Reader) : Paid (fun _ => 2) r (readUnit r) :=
  (paid_readWord r (by decide)).bind fun _ _ _ h => .ok h

/-- A count takes its own bytes only: none for what it counts. -/
theorem paid_readCount (r : Reader) : Paid (fun _ => 4) r (readCount r) := by
  refine (paid_readWord r (by decide)).bind fun n r₁ _ h₁ => ?_
  dsimp only
  split
  · exact .error
  · exact .ok h₁

/-- Many items are paid for one by one. -/
theorem paid_readMany {item : (r : Reader) → Except Damage (Piece α r.left)}
    (hitem : ∀ r, Paid items r (item r)) (n : Nat) (r : Reader) :
    Paid (fun as => (as.map items).sum) r (readMany item n r) := by
  induction n generalizing r with
  | zero => exact .ok (Nat.le_of_eq (Nat.zero_add _))
  | succ n ih =>
    refine (hitem r).bind fun a r₁ _ h₁ => ?_
    refine (ih r₁).bind fun as r₂ _ h₂ => .ok ?_
    rw [List.map_cons, List.sum_cons]
    omega

/-- A table is paid for by its entries, and one more item by its count. -/
theorem paid_readTable {entry : (r : Reader) → Except Damage (Piece α r.left)}
    (hentry : ∀ r, Paid items r (entry r)) (r : Reader) :
    Paid (fun as => (as.map items).sum + 1) r (readTable entry r) := by
  refine (paid_readCount r).bind fun n r₁ _ h₁ => ?_
  exact (paid_readMany hentry n r₁).bind fun as r₂ _ h₂ => .ok (by omega)

/-- A table whose entries take a byte each, and one for itself. -/
theorem paid_readTable_length {entry : (r : Reader) → Except Damage (Piece α r.left)}
    (hentry : ∀ r, Paid items r (entry r)) (hpos : ∀ a, 1 ≤ items a) (r : Reader) :
    Paid (fun as => as.length + 1) r (readTable entry r) := by
  refine (paid_readTable hentry r).weaken fun as => Nat.succ_le_succ ?_
  have hle := List.length_le_sum_of_one_le (as.map items) (by simpa using fun a _ => hpos a)
  rwa [List.length_map] at hle

/-- Texts are paid for with a byte at least for each unit, and one for each text. -/
theorem paid_readTexts (n : Nat) (id : UInt32) (r : Reader) :
    Paid (fun ss => (ss.map fun s => (Text.toUnits s).length + 1).sum) r (readTexts n id r) := by
  induction n generalizing id r with
  | zero => exact .ok (Nat.le_of_eq (Nat.zero_add _))
  | succ n ih =>
    refine (paid_readTable_length paid_readUnit (fun _ => by decide) r).bind fun units r₁ _ h₁ => ?_
    dsimp only
    cases hs : Text.ofUnits? units with
    | none => exact .error
    | some s =>
      refine (ih (id + 1) r₁).bind fun ss r₂ _ h₂ => .ok ?_
      dsimp only
      rw [List.map_cons, List.sum_cons, Text.toUnits_of_ofUnits? hs]
      omega

/-! ## Instructions -/

/-- An instruction that is only an opcode has none inside it. -/
theorem count_of_plain? {code : UInt8} {i : Op} (h : Opcode.plain? code = some i) :
    i.count Instr.isAny = 1 := by
  unfold Opcode.plain? at h
  split at h <;> cases h <;> rfl

/-- Nor has one that is an opcode and a word. -/
theorem count_of_worded? {code : UInt8} {make : UInt32 → Op} (h : Opcode.worded? code = some make)
    (n : UInt32) : (make n).count Instr.isAny = 1 := by
  unfold Opcode.worded? at h
  split at h <;> cases h <;> rfl

mutual

/-- An instruction takes a byte at least, and those of what is inside it. -/
theorem paid_readInstr (r : Reader) :
    Paid (Instr.count Instr.isAny) r (readInstr r) := by
  rw [readInstr]
  refine (paid_readWord r (by decide)).bind fun n r₁ _ h₁ => ?_
  dsimp only
  split
  · next i hplain => exact .ok (by rw [count_of_plain? hplain]; omega)
  · next make _ hworded =>
    refine (paid_readUInt32 r₁).bind fun m r₂ _ h₂ => .ok ?_
    dsimp only
    rw [count_of_worded? hworded]
    omega
  · split
    · refine (paid_readWord r₁ (by decide)).bind fun m r₂ _ h₂ => .ok ?_
      simp only [Instr.count, Instr.isAny, if_true]
      omega
    · refine (paid_readWord r₁ (by decide)).bind fun m r₂ _ h₂ => .ok ?_
      simp only [Instr.count, Instr.isAny, if_true]
      omega
    · refine (paid_readBody r₁).bind fun yes r₂ _ h₂ => ?_
      refine (paid_readBody r₂).bind fun no r₃ _ h₃ => .ok ?_
      simp only [Instr.count, Instr.isAny, if_true]
      omega
    · refine (paid_readBody r₁).bind fun body r₂ _ h₂ => .ok ?_
      simp only [Instr.count, Instr.isAny, if_true]
      omega
    · refine (paid_readBody r₁).bind fun body r₂ _ h₂ => .ok ?_
      simp only [Instr.count, Instr.isAny, if_true]
      omega
    · exact .error
termination_by (r.left, 0)

/-- Instructions are paid for, with those inside them. -/
theorem paid_readInstrs (n : Nat) (r : Reader) :
    Paid (countInstrs Instr.isAny) r (readInstrs n r) := by
  cases n with
  | zero =>
    rw [readInstrs]
    exact .ok (Nat.le_of_eq (Nat.zero_add _))
  | succ n =>
    rw [readInstrs]
    refine (paid_readInstr r).bind fun i r₁ _ h₁ => ?_
    refine (paid_readInstrs n r₁).bind fun is r₂ _ h₂ => .ok ?_
    rw [countInstrs]
    omega
termination_by (r.left, 1)

theorem paid_readBody (r : Reader) : Paid (countInstrs Instr.isAny) r (readBody r) := by
  rw [readBody]
  refine (paid_readCount r).bind fun n r₁ _ h₁ => ?_
  exact (paid_readInstrs n r₁).bind fun is r₂ _ h₂ => .ok (by omega)
termination_by (r.left, 0)

end

/-! ## Tables and whole images -/

theorem paid_readSignature (r : Reader) : Paid (fun _ => 12) r (readSignature r) := by
  refine (paid_readUInt32 r).bind fun name r₁ _ h₁ => ?_
  refine (paid_readUInt32 r₁).bind fun arity r₂ _ h₂ => ?_
  exact (paid_readUInt32 r₂).bind fun cost r₃ _ h₃ => .ok (by omega)

/-- So is a function, with one more item for itself. -/
theorem paid_readFunction (r : Reader) :
    Paid (fun fn => countInstrs Instr.isAny fn.body + 1) r (readFunction r) := by
  refine (paid_readUInt32 r).bind fun name r₁ _ h₁ => ?_
  refine (paid_readUInt32 r₁).bind fun arity r₂ _ h₂ => ?_
  refine (paid_readUInt32 r₂).bind fun line r₃ _ h₃ => ?_
  refine (paid_readUInt32 r₃).bind fun file r₄ _ h₄ => ?_
  exact (paid_readBody r₄).bind fun body r₅ _ h₅ => .ok (by dsimp only; omega)

/-- Reading the header leaves no more than there was. -/
theorem left_of_readHeader {r r' : Reader} (h : readHeader r = .ok r') : r'.left ≤ r.left := by
  obtain ⟨⟨mark, r₁, fewer₁⟩, -, h⟩ := bind_eq_ok.1 h
  dsimp only at h
  split at h
  · cases h
  · obtain ⟨⟨n, r₂, fewer₂⟩, -, h⟩ := bind_eq_ok.1 h
    dsimp only at h
    split at h
    · cases h
    · cases h
      omega

end Parts

/-- Counting each item as one more counts as many more as there are. -/
theorem sum_map_add_one {α : Type} (items : α → Nat) (as : List α) :
    (as.map fun a => items a + 1).sum = (as.map items).sum + as.length := by
  rw [List.sum_map_add, List.map_const', List.sum_replicate_nat, Nat.mul_one]

/-- An image does not hold more items than it had bytes. -/
theorem extent_le_of_decode {bytes : List UInt8} {image : Image} (h : decode bytes = .ok image) :
    image.extent ≤ bytes.length := by
  obtain ⟨r, hr, h⟩ := bind_eq_ok.1 h
  obtain ⟨⟨n, r₁, _⟩, h₁, h⟩ := bind_eq_ok.1 h
  obtain ⟨⟨texts, r₂, _⟩, h₂, h⟩ := bind_eq_ok.1 h
  obtain ⟨⟨shapes, r₃, _⟩, h₃, h⟩ := bind_eq_ok.1 h
  obtain ⟨⟨builtins, r₄, _⟩, h₄, h⟩ := bind_eq_ok.1 h
  obtain ⟨⟨globals, r₅, _⟩, h₅, h⟩ := bind_eq_ok.1 h
  obtain ⟨⟨m, r₆, _⟩, h₆, h⟩ := bind_eq_ok.1 h
  obtain ⟨⟨functions, r₇, _⟩, h₇, h⟩ := bind_eq_ok.1 h
  obtain ⟨⟨body, r₈, _⟩, h₈, h⟩ := bind_eq_ok.1 h
  have hheader := left_of_readHeader hr
  have hcounted := paid_readCount _ _ h₁
  have htexts := paid_readTexts _ _ _ _ h₂
  have hshapes := paid_readTable (paid_readTable_length paid_readUInt32 fun _ => by decide) _ _ h₃
  have hbuiltins := paid_readTable_length paid_readSignature (fun _ => by decide) _ _ h₄
  have hglobals := paid_readTable_length paid_readUInt32 (fun _ => by decide) _ _ h₅
  have hcounted' := paid_readCount _ _ h₆
  have halign := Reader.left_align_le r₆ 8
  have hfunctions := paid_readMany paid_readFunction _ _ _ h₇
  have hbody := paid_readBody _ _ h₈
  change r.left ≤ bytes.length at hheader
  -- What was read is the image, since the end of the bytes was reached.
  have himage : (⟨texts, shapes, { builtins, globals, functions, body }⟩ : Image) = image := by
    dsimp only at h
    split at h
    · cases h
    · exact Except.ok.inj h
  subst himage
  simp only [sum_map_add_one] at htexts hshapes hfunctions
  simp only [extent]
  dsimp only at *
  omega

end TickScript.Image
