import Mathlib
import TickScript.Delivery
import TickScript.Proofs.Bytes.ReadBack

/-!
# The wire form of a delivery

A reading takes bytes from the front, gives what they stand for and says what is behind them. Bytes
**delimit themselves** for a reading (`Delimits`) if they are read as the same value whatever follows
them, and if any part that they begin with is reported as cut short. One after the other, bytes that
delimit themselves do so again (`Delimits.bind`), so it is enough to look at the parts of a delivery:
numbers in base 128, bytes behind their number, and texts.

Two things have to be right on both sides. A writer of numbers never exceeds what the reader allows
at the last place, and a text that is cut inside a character is found to be cut short before it is
found to be no text, because its bytes are counted before they are decoded.
-/

namespace TickScript

/-- Whatever follows the bytes, they are read as the given value and what follows is left; and a part
that they begin with is refused for being too short. -/
structure Delimits {ε α : Type} (short : ε) (read : List UInt8 → Except ε (α × List UInt8))
    (bytes : List UInt8) (a : α) : Prop where
  whole : ∀ rest, read (bytes ++ rest) = .ok (a, rest)
  cut : ∀ part, part <+: bytes → part ≠ bytes → read part = .error short

namespace Delimits

variable {ε δ α β : Type} {short : ε} {read : List UInt8 → Except ε (α × List UInt8)}
  {next : α × List UInt8 → Except ε (β × List UInt8)} {bytes bytes' : List UInt8} {a : α} {b : β}

/-- A part of two things is a part of the first one, or all of it and a part of the second one. -/
theorem bind (h : Delimits short read bytes a)
    (h' : Delimits short (fun rest => next (a, rest)) bytes' b) :
    Delimits short (fun bytes => read bytes >>= next) (bytes ++ bytes') b := by
  refine ⟨fun rest => ?_, fun part hpart hne => ?_⟩
  · rw [List.append_assoc, h.whole]
    exact h'.whole rest
  · rcases List.prefix_or_prefix_of_prefix hpart (List.prefix_append bytes bytes') with hp | hp
    · by_cases heq : part = bytes
      · have hcut := h'.cut [] List.nil_prefix fun hnil => hne (by rw [heq, ← hnil, List.append_nil])
        have hread := h.whole []
        rw [List.append_nil] at hread
        rw [heq, hread]
        exact hcut
      · rw [h.cut part hp heq]
        rfl
    · obtain ⟨part', rfl⟩ := hp
      rw [h.whole]
      refine h'.cut part' ((List.prefix_append_right_inj bytes).1 hpart) ?_
      rintro rfl
      exact hne rfl

/-- What is read can be taken for something else, as long as no more bytes are read for it. -/
theorem map (h : Delimits short read bytes a) (hnext : ∀ rest, next (a, rest) = .ok (b, rest)) :
    Delimits short (fun bytes => read bytes >>= next) bytes b := by
  refine ⟨fun rest => ?_, fun part hpart hne => ?_⟩
  · rw [h.whole]
    exact hnext rest
  · rw [h.cut part hpart hne]
    rfl

/-- A reader that reports its errors otherwise delimits the same. -/
theorem mapError (h : Delimits short read bytes a) (f : ε → δ) :
    Delimits (f short) (fun bytes => (read bytes).mapError f) bytes a := by
  refine ⟨fun rest => ?_, fun part hpart hne => ?_⟩
  · rw [h.whole]
    rfl
  · rw [h.cut part hpart hne]
    rfl

end Delimits

namespace Bytes

/-! ## Numbers -/

variable {places last n : Nat}

/-- The last digit of a number. Only at the last place it may be too large. -/
theorem delimits_digit (hn : n < 128) (hlast : places = 0 → n ≤ last) :
    Delimits .cutOff (readVarint places last) [UInt8.ofNat n] n := by
  have hdigit : (UInt8.ofNat n).toNat = n :=
    UInt8.toNat_ofNat_of_lt' (Nat.lt_trans hn (by decide))
  refine ⟨fun rest => ?_, fun part hpart hne => ?_⟩
  · rw [List.singleton_append, readVarint.eq_def]
    simp only [hdigit, if_pos hn]
    rw [if_neg]
    rintro ⟨hp, hlt⟩
    exact Nat.not_lt.2 (hlast hp) hlt
  · rcases List.prefix_cons_iff.1 hpart with rfl | ⟨part', rfl, hpart'⟩
    · rw [readVarint]
    · rw [List.prefix_nil.1 hpart'] at hne
      exact absurd rfl hne

/-- A digit that is not the last one goes before the others. -/
theorem readVarint_cons (bytes : List UInt8) :
    readVarint (places + 1) last (UInt8.ofNat (n % 128 + 128) :: bytes) =
      (readVarint places last bytes).map fun (m, rest) => (n % 128 + 128 * m, rest) := by
  have hmod : n % 128 < 128 := Nat.mod_lt n (by decide)
  have hdigit : (UInt8.ofNat (n % 128 + 128)).toNat = n % 128 + 128 :=
    UInt8.toNat_ofNat_of_lt' (by rw [UInt8.size]; omega)
  rw [readVarint, hdigit, if_neg (by omega), Nat.add_sub_cancel]
  cases readVarint places last bytes <;> rfl

/-- One more byte of seven bits goes before those of the rest. -/
theorem delimits_cons {bytes : List UInt8}
    (h : Delimits .cutOff (readVarint places last) bytes (n / 128)) :
    Delimits .cutOff (readVarint (places + 1) last) (UInt8.ofNat (n % 128 + 128) :: bytes) n := by
  refine ⟨fun rest => ?_, fun part hpart hne => ?_⟩
  · rw [List.cons_append, readVarint_cons, h.whole]
    simp only [Except.map, Nat.mod_add_div]
  · rcases List.prefix_cons_iff.1 hpart with rfl | ⟨part', rfl, hpart'⟩
    · rw [readVarint]
    · rw [readVarint_cons, h.cut part' hpart' fun heq => hne (by rw [heq])]
      rfl

/-- A number that a reader of so many places allows. The induction is on the places: each digit but
the last one uses up one of them. -/
theorem delimits_varint (hlast : last < 128) (hn : n < 128 ^ places * (last + 1)) :
    Delimits .cutOff (readVarint places last) (varint n) n := by
  induction places generalizing n with
  | zero =>
    rw [varint, if_pos (by omega)]
    exact delimits_digit (by omega) fun _ => by omega
  | succ places ih =>
    rw [varint]
    split
    · next hsmall => exact delimits_digit hsmall fun hzero => nomatch hzero
    · refine delimits_cons (ih (Nat.div_lt_of_lt_mul ?_))
      rwa [← Nat.mul_assoc, ← Nat.pow_succ']

end Bytes

namespace Delivery

open Bytes (varint readVarint32 readVarint64 split? delimits_varint)

/-- A number of 32 bits is delimited by its bytes. -/
theorem delimits_read32 {n : Nat} (hn : n < 2 ^ 32) : Delimits .cutOff read32 (varint n) n :=
  (delimits_varint (by decide) hn).mapError WireError.ofVarint

/-- A number of 64 bits is delimited by its bytes. -/
theorem delimits_readVarint64 {n : Nat} (hn : n < 2 ^ 64) :
    Delimits .cutOff (fun bytes => (readVarint64 bytes).mapError WireError.ofVarint) (varint n) n :=
  (delimits_varint (by decide) hn).mapError WireError.ofVarint

/-! ## Bytes and texts -/

/-- Bytes whose number is known. -/
theorem delimits_split (bytes : List UInt8) :
    Delimits WireError.cutOff (fun rest =>
      match split? bytes.length rest with
      | some r => .ok r
      | none => .error .cutOff) bytes bytes := by
  refine ⟨fun rest => ?_, fun part hpart hne => ?_⟩
  · simp only [Bytes.split?_append]
  · have hlength : part.length < bytes.length :=
      Nat.lt_of_le_of_ne hpart.length_le fun heq => hne (hpart.eq_of_length heq)
    have hnone : split? bytes.length part = none := by
      rw [Option.eq_none_iff_forall_ne_some]
      rintro ⟨first, others⟩ hsplit
      obtain ⟨rfl, hfirst⟩ := Bytes.append_of_split? hsplit
      rw [List.length_append] at hlength
      omega
    simp only [hnone]

/-- Bytes with their count before them are delimited by the count. -/
theorem delimits_readCounted {bytes : List UInt8} (h : bytes.length < 2 ^ 64) :
    Delimits .cutOff readCounted (counted bytes) bytes :=
  (delimits_readVarint64 h).bind (delimits_split bytes)

/-- The bytes are listed from the front, with those already listed in reverse. -/
theorem toList_loop_eq (bytes : ByteArray) (i : Nat) (listed : List UInt8) :
    ByteArray.toList.loop bytes i listed = listed.reverse ++ bytes.data.toList.drop i := by
  fun_induction ByteArray.toList.loop bytes i listed with
  | case1 i listed h ih =>
    have hi : i < bytes.data.toList.length := h
    rw [ih, List.reverse_cons, List.append_assoc, List.drop_eq_getElem_cons hi]
    simp [ByteArray.get!, h]
  | case2 i listed h =>
    rw [List.drop_eq_nil_of_le (Nat.le_of_not_lt h), List.append_nil]

/-- A byte array lists the bytes that it is made of. -/
theorem toList_eq (bytes : ByteArray) : bytes.toList = bytes.data.toList := by
  rw [ByteArray.toList, toList_loop_eq]
  rfl

/-- A text is made again of its bytes. -/
theorem fromUTF8?_toUTF8 (s : String) : String.fromUTF8? ⟨s.toUTF8.toList.toArray⟩ = some s := by
  rw [toList_eq, Array.toArray_toList, String.fromUTF8?, String.toUTF8_eq_toByteArray,
    dif_pos s.isValidUTF8]
  rfl

/-- The bytes of a text are all there before they are decoded. -/
theorem delimits_readText {s : String} (h : s.toUTF8.toList.length < 2 ^ 64) :
    Delimits .cutOff readText (counted s.toUTF8.toList) s := by
  refine (delimits_readCounted h).map fun rest => ?_
  simp only [fromUTF8?_toUTF8]

/-! ## Deliveries -/

/-- A diagnostic is delimited, since each of its fields is. -/
theorem delimits_readDiagnostic {d : Diagnostic}
    (h : d.location.file.toUTF8.toList.length < 2 ^ 64) :
    Delimits .cutOff readDiagnostic
      (varint d.cause.index ++ (varint d.location.line.toNat ++ counted d.location.file.toUTF8.toList))
      d := by
  have hindex : d.cause.index < 2 ^ 32 := by
    cases d.cause <;> decide
  refine (delimits_read32 hindex).bind ?_
  simp only [Cause.ofIndex?_index]
  refine (delimits_read32 d.location.line.toNat_lt).bind ?_
  dsimp only
  refine (delimits_readText h).map fun rest => ?_
  simp only [UInt32.ofNat_toNat]
  rfl

/-- The delivery that bytes begin with, and what is behind it. -/
def readDelivery (bytes : List UInt8) : Except WireError (Delivery × List UInt8) := do
  let (tag, rest) ← read32 bytes
  match tag with
  | 0 => do
    let (stored, rest) ← readCounted rest
    return (.image stored, rest)
  | 1 => do
    let (d, rest) ← readDiagnostic rest
    return (.refusal d, rest)
  | _ => .error .unknownCase

/-- What is behind a delivery is ignored. -/
theorem ofWire_eq (bytes : List UInt8) : ofWire bytes = (readDelivery bytes).map Prod.fst := by
  simp only [ofWire, readDelivery]
  cases read32 bytes with
  | error e => rfl
  | ok p =>
    obtain ⟨tag, rest⟩ := p
    rcases tag with _ | _ | tag
    · change (readCounted rest >>= _) = Except.map _ (readCounted rest >>= _)
      cases readCounted rest <;> rfl
    · change (readDiagnostic rest >>= _) = Except.map _ (readDiagnostic rest >>= _)
      cases readDiagnostic rest <;> rfl
    · rfl

/-- The bytes that a delivery carries: the image, or the name of the file that the diagnostic is
about. -/
def payload : Delivery → List UInt8
  | image bytes => bytes
  | refusal d => d.location.file.toUTF8.toList

/-- The number of bytes carried is one of 64 bits. No machine holds more bytes than that. -/
def Fits (d : Delivery) : Prop := d.payload.length < 2 ^ 64

instance (d : Delivery) : Decidable d.Fits := inferInstanceAs (Decidable (_ < _))

/-- A delivery of either kind is delimited. -/
theorem delimits_toWire {d : Delivery} (h : d.Fits) : Delimits .cutOff readDelivery d.toWire d := by
  cases d with
  | image bytes =>
    exact (delimits_read32 (by decide)).bind ((delimits_readCounted h).map fun _ => rfl)
  | refusal d =>
    simp only [toWire, List.append_assoc]
    exact (delimits_read32 (by decide)).bind ((delimits_readDiagnostic h).map fun _ => rfl)

/-- A delivery can be read back whatever follows it, and nothing less than all of it is one. -/
theorem ofWire_delimited (d : Delivery) (h : d.Fits) :
    (∀ rest, ofWire (d.toWire ++ rest) = .ok d) ∧
      ∀ part, part <+: d.toWire → part ≠ d.toWire → ofWire part = .error .cutOff := by
  refine ⟨fun rest => ?_, fun part hpart hne => ?_⟩
  · rw [ofWire_eq, (delimits_toWire h).whole]
    rfl
  · rw [ofWire_eq, (delimits_toWire h).cut part hpart hne]
    rfl

/-- A refusal at the last line that there is, with more behind it and cut inside a character. -/
theorem ofWire_delimited_last_line :
    toWire (.refusal ⟨.callPending, ⟨0xFFFFFFFF, "é.bt"⟩⟩) =
        [1, 55, 255, 255, 255, 255, 15, 5, 195, 169, 46, 98, 116] ∧
      ofWire [1, 55, 255, 255, 255, 255, 15, 5, 195, 169, 46, 98, 116, 1, 55] =
        .ok (.refusal ⟨.callPending, ⟨0xFFFFFFFF, "é.bt"⟩⟩) ∧
      ofWire [1, 55, 255, 255, 255, 255, 15, 5, 195] = .error .cutOff := by
  have hwire : toWire (.refusal ⟨.callPending, ⟨0xFFFFFFFF, "é.bt"⟩⟩) =
      [1, 55, 255, 255, 255, 255, 15, 5, 195, 169, 46, 98, 116] := by
    cbv
  have hfits : Fits (.refusal ⟨.callPending, ⟨0xFFFFFFFF, "é.bt"⟩⟩) := by
    cbv
  obtain ⟨hwhole, hcut⟩ := ofWire_delimited _ hfits
  rw [hwire] at hwhole hcut
  exact ⟨hwire, hwhole [1, 55], hcut _ (by decide) (by decide)⟩

end Delivery

end TickScript
