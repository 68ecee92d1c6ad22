import Mathlib
import TickScript.Image.Decode
import TickScript.Proofs.Image.Size
import TickScript.Proofs.Text.Utf16

/-!
# Stored images are read back

Storing and loading are written apart: one goes through the instructions, the other through their
opcodes. They agree, table by table and instruction by instruction, in the sense of `ReadsBack`: what
is written next is what a reader that stands there reads next. The agreement of a table follows from
that of its entries, that of a body from that of its instructions.

Loading refuses a count that is greater than the number of bytes left. Everything that is counted
takes a byte at least, so it never refuses a count that was written.
-/

namespace TickScript

namespace Image

open Bytes (Reader Writer)
open Bytes.Reader (behind)

/-! ## Agreement -/

/-- The reading succeeds with a value and ends where the reader `r` stands. -/
def Reads {α : Type} {bound : Nat} (result : Except Damage (Piece α bound)) (a : α) (r : Reader) :
    Prop :=
  ∃ h, result = .ok ⟨a, r, h⟩

/-- Writing a value takes a byte at least, and reading where it was written gives the value. -/
structure ReadsBack {α : Type} (write : Writer → α → Writer)
    (read : (r : Reader) → Except Damage (Piece α r.left)) (a : α) : Prop where
  grows : ∀ w, Writer.Grows 1 w (write w a)
  reads : ∀ {bytes w}, (write w a).toList <+: bytes →
    Reads (read (behind bytes w)) a (behind bytes (write w a))

variable {bytes : List UInt8} {w w' : Writer}

/-- A word is read where it was written. -/
theorem reads_word {width n : Nat} (h : 0 < width) (hn : n < Nat.pow 256 width)
    (hb : (w.word width n).toList <+: bytes) :
    Reads (readWord (behind bytes w) width h) n (behind bytes (w.word width n)) := by
  have hword := Reader.word_behind hb hn
  unfold readWord
  split
  next n' r' hw =>
    rw [hword] at hw
    cases hw
    exact ⟨_, rfl⟩
  next offset hw =>
    rw [hword] at hw
    cases hw

/-- A word of four bytes is read back. -/
theorem readsBack_uint32 (n : UInt32) : ReadsBack Writer.uint32 readUInt32 n := by
  refine ⟨fun w => (Writer.grows_word w 4 n.toNat).weaken (by decide), fun {bytes w} hb => ?_⟩
  obtain ⟨h, e⟩ := reads_word (by decide) n.toNat_lt hb
  have hread : Reads (readUInt32 (behind bytes w)) (UInt32.ofNat n.toNat)
      (behind bytes (w.uint32 n)) := by
    rw [readUInt32, e]
    exact ⟨h, rfl⟩
  rwa [UInt32.ofNat_toNat] at hread

/-- A unit of a text is read back. -/
theorem readsBack_uint16 (n : UInt16) : ReadsBack Writer.uint16 readUnit n := by
  refine ⟨fun w => (Writer.grows_word w 2 n.toNat).weaken (by decide), fun {bytes w} hb => ?_⟩
  obtain ⟨h, e⟩ := reads_word (by decide) n.toNat_lt hb
  have hread : Reads (readUnit (behind bytes w)) (UInt16.ofNat n.toNat)
      (behind bytes (w.uint16 n)) := by
    rw [readUnit, e]
    exact ⟨h, rfl⟩
  rwa [UInt16.ofNat_toNat] at hread

/-- A count is read back if as many bytes follow. -/
theorem reads_count {n : Nat} (hn : n < UInt32.size) (hg : Writer.Grows n (w.count n) w')
    (hb : w'.toList <+: bytes) : Reads (readCount (behind bytes w)) n (behind bytes (w.count n)) := by
  have hsmall : (UInt32.ofNat n).toNat = n := UInt32.toNat_ofNat_of_lt' hn
  have hcount : w.count n = w.word 4 n := by rw [Writer.count, Writer.uint32, hsmall]
  have hleft : ¬ (behind bytes (w.count n)).rest.length < n :=
    Nat.not_lt.2 (Reader.left_behind n hg hb)
  rw [hcount] at hg hleft ⊢
  obtain ⟨h, e⟩ := reads_word (by decide) hn (hg.keeps.trans hb)
  rw [readCount, e]
  refine ⟨h, ?_⟩
  change (if Bytes.isShorter (behind bytes (w.word 4 n)).rest n then _ else _) = _
  rw [Bytes.isShorter_eq_decide, decide_eq_false hleft]
  rfl

/-! ## Tables -/

/-- If each item is read back, so are many. -/
theorem reads_many {α : Type} {write : Writer → α → Writer}
    {read : (r : Reader) → Except Damage (Piece α r.left)} (items : List α)
    (h : ∀ a ∈ items, ReadsBack write read a) (hb : (items.foldl write w).toList <+: bytes) :
    Reads (readMany read items.length (behind bytes w)) items
      (behind bytes (items.foldl write w)) := by
  induction items generalizing w with
  | nil => exact ⟨_, rfl⟩
  | cons a items ih =>
    have hothers := fun b hb => h b (List.mem_cons_of_mem a hb)
    have hgrows := Writer.grows_foldl items (fun w b hb => (hothers b hb).grows w) (write w a)
    obtain ⟨h₁, e₁⟩ := (h a List.mem_cons_self).reads (hgrows.keeps.trans hb)
    obtain ⟨h₂, e₂⟩ := ih hothers hb
    rw [List.length_cons, readMany, e₁]
    change Reads (readMany read items.length (behind bytes (write w a)) >>= _) _ _
    rw [e₂]
    exact ⟨_, rfl⟩

/-- A table that can be counted is read back if its entries are. -/
theorem readsBack_table {α : Type} {write : Writer → α → Writer}
    {read : (r : Reader) → Except Damage (Piece α r.left)} {table : List α}
    (hlen : table.length < UInt32.size) (h : ∀ a ∈ table, ReadsBack write read a) :
    ReadsBack (writeTable write) (readTable read) table := by
  have hentries := fun w a ha => (h a ha).grows w
  refine ⟨fun w => (grows_table hentries w).weaken (by omega), fun {bytes w} hb => ?_⟩
  obtain ⟨h₁, e₁⟩ := reads_count hlen (Writer.grows_foldl table hentries _) hb
  obtain ⟨h₂, e₂⟩ := reads_many table h hb
  rw [readTable, e₁]
  change Reads (readMany read table.length (behind bytes (w.count table.length)) >>= _) _ _
  rw [e₂]
  exact ⟨_, rfl⟩

/-- The units of a text are read back. -/
theorem readsBack_text (s : String) (hlen : (Text.toUnits s).length < UInt32.size) :
    ReadsBack (writeTable Writer.uint16) (readTable readUnit) (Text.toUnits s) :=
  readsBack_table hlen fun u _ => readsBack_uint16 u

/-- Texts are read back; the number is that of the first one, which only a failure mentions. -/
theorem reads_texts (texts : List String) (id : UInt32)
    (h : ∀ s ∈ texts, (Text.toUnits s).length < UInt32.size)
    (hb : (texts.foldl writeText w).toList <+: bytes) :
    Reads (readTexts texts.length id (behind bytes w)) texts
      (behind bytes (texts.foldl writeText w)) := by
  induction texts generalizing w id with
  | nil => exact ⟨_, rfl⟩
  | cons s texts ih =>
    have hothers := fun t ht => h t (List.mem_cons_of_mem s ht)
    have htext := readsBack_text s (h s List.mem_cons_self)
    have hgrows := Writer.grows_foldl texts
      (fun w t ht => (readsBack_text t (hothers t ht)).grows w) (writeText w s)
    obtain ⟨h₁, e₁⟩ := htext.reads (hgrows.keeps.trans hb)
    obtain ⟨h₂, e₂⟩ := ih (id + 1) hothers hb
    change readTexts _ _ (behind bytes (writeTable Writer.uint16 w (Text.toUnits s))) = _ at e₂
    rw [List.length_cons, readTexts, e₁]
    dsimp only [bind, Except.bind]
    rw [Text.ofUnits?_toUnits]
    dsimp only
    rw [e₂]
    exact ⟨_, rfl⟩

/-! ## Instructions -/

/-- An opcode is read where it was written. -/
theorem reads_opcode (c : UInt8) (hb : (w.uint8 c).toList <+: bytes) :
    Reads (readWord (behind bytes w) 1 (by decide)) c.toNat (behind bytes (w.uint8 c)) := by
  rw [Writer.uint8_eq_word] at hb ⊢
  exact reads_word (by decide) c.toNat_lt hb

/-- An instruction that is its opcode. -/
theorem reads_plain {c : UInt8} {i : Op} (hc : Opcode.plain? c = some i)
    (hb : (w.uint8 c).toList <+: bytes) :
    Reads (readInstr (behind bytes w)) i (behind bytes (w.uint8 c)) := by
  obtain ⟨h, e⟩ := reads_opcode c hb
  rw [readInstr, e]
  refine ⟨h, ?_⟩
  simp only [bind, Except.bind, UInt8.ofNat_toNat, hc]
  rfl

/-- An instruction that is its opcode and a word. -/
theorem reads_worded {c : UInt8} {make : UInt32 → Op} (hp : Opcode.plain? c = none)
    (hc : Opcode.worded? c = some make) (n : UInt32)
    (hb : ((w.uint8 c).uint32 n).toList <+: bytes) :
    Reads (readInstr (behind bytes w)) (make n) (behind bytes ((w.uint8 c).uint32 n)) := by
  have hn := readsBack_uint32 n
  obtain ⟨h, e⟩ := reads_opcode c ((hn.grows (w.uint8 c)).keeps.trans hb)
  obtain ⟨h', e'⟩ := hn.reads hb
  rw [readInstr, e]
  simp only [bind, Except.bind, UInt8.ofNat_toNat, hp, hc, e']
  exact ⟨_, rfl⟩

/-- An integer is read with its sign. -/
theorem reads_pushInt (n : Int64) (hb : ((w.uint8 0x11).int64 n).toList <+: bytes) :
    Reads (readInstr (behind bytes w)) (.pushInt n) (behind bytes ((w.uint8 0x11).int64 n)) := by
  have hgrows := Writer.grows_word (w.uint8 0x11) 8 n.toUInt64.toNat
  obtain ⟨h, e⟩ := reads_opcode 0x11 (hgrows.keeps.trans hb)
  obtain ⟨h', e'⟩ := reads_word (by decide) n.toUInt64.toNat_lt hb
  have hn : n.toUInt64.toNat.toUInt64.toInt64 = n := by simp
  have hread : Reads (readInstr (behind bytes w)) (.pushInt n.toUInt64.toNat.toUInt64.toInt64)
      (behind bytes ((w.uint8 0x11).int64 n)) := by
    rw [readInstr, e]
    change Reads (readWord (behind bytes (w.uint8 0x11)) 8 _ >>= _) _ _
    rw [e']
    exact ⟨_, rfl⟩
  rwa [hn] at hread

/-- A float is read with all of its bits. -/
theorem reads_pushFloat (n : UInt64) (hb : ((w.uint8 0x12).float64 n).toList <+: bytes) :
    Reads (readInstr (behind bytes w)) (.pushFloat n) (behind bytes ((w.uint8 0x12).float64 n)) := by
  have hgrows := Writer.grows_word (w.uint8 0x12) 8 n.toNat
  obtain ⟨h, e⟩ := reads_opcode 0x12 (hgrows.keeps.trans hb)
  obtain ⟨h', e'⟩ := reads_word (by decide) n.toNat_lt hb
  have hn : n.toNat.toUInt64 = n := UInt64.ofNat_toNat
  have hread : Reads (readInstr (behind bytes w)) (.pushFloat n.toNat.toUInt64)
      (behind bytes ((w.uint8 0x12).float64 n)) := by
    rw [readInstr, e]
    change Reads (readWord (behind bytes (w.uint8 0x12)) 8 _ >>= _) _ _
    rw [e']
    exact ⟨_, rfl⟩
  rwa [hn] at hread

/-- A branch is read if its two bodies are. -/
theorem reads_branch {yes no : List Op} (hyes : ReadsBack writeBody readBody yes)
    (hno : ReadsBack writeBody readBody no)
    (hb : (writeBody (writeBody (w.uint8 0x40) yes) no).toList <+: bytes) :
    Reads (readInstr (behind bytes w)) (.branch yes no)
      (behind bytes (writeBody (writeBody (w.uint8 0x40) yes) no)) := by
  have hb₂ := (hno.grows _).keeps.trans hb
  obtain ⟨h, e⟩ := reads_opcode 0x40 ((hyes.grows _).keeps.trans hb₂)
  obtain ⟨h₁, e₁⟩ := hyes.reads hb₂
  obtain ⟨h₂, e₂⟩ := hno.reads hb
  rw [readInstr, e]
  change Reads (readBody (behind bytes (w.uint8 0x40)) >>= _) _ _
  rw [e₁]
  change Reads (readBody (behind bytes (writeBody (w.uint8 0x40) yes)) >>= _) _ _
  rw [e₂]
  exact ⟨_, rfl⟩

/-- A loop is read if its body is. -/
theorem reads_loop {body : List Op} (hbody : ReadsBack writeBody readBody body)
    (hb : (writeBody (w.uint8 0x41) body).toList <+: bytes) :
    Reads (readInstr (behind bytes w)) (.loop body)
      (behind bytes (writeBody (w.uint8 0x41) body)) := by
  obtain ⟨h, e⟩ := reads_opcode 0x41 ((hbody.grows _).keeps.trans hb)
  obtain ⟨h₁, e₁⟩ := hbody.reads hb
  rw [readInstr, e]
  change Reads (readBody (behind bytes (w.uint8 0x41)) >>= _) _ _
  rw [e₁]
  exact ⟨_, rfl⟩

/-- So is a loop that waits for ticks. -/
theorem reads_tick {body : List Op} (hbody : ReadsBack writeBody readBody body)
    (hb : (writeBody (w.uint8 0x42) body).toList <+: bytes) :
    Reads (readInstr (behind bytes w)) (.tick body)
      (behind bytes (writeBody (w.uint8 0x42) body)) := by
  obtain ⟨h, e⟩ := reads_opcode 0x42 ((hbody.grows _).keeps.trans hb)
  obtain ⟨h₁, e₁⟩ := hbody.reads hb
  rw [readInstr, e]
  change Reads (readBody (behind bytes (w.uint8 0x42)) >>= _) _ _
  rw [e₁]
  exact ⟨_, rfl⟩

/-- Instructions that are read back one after the other. -/
def InstrsReadBack (is : List Op) : Prop :=
  ∀ {bytes w}, (writeInstrs w is).toList <+: bytes →
    Reads (readInstrs is.length (behind bytes w)) is (behind bytes (writeInstrs w is))

/-- A body that can be counted is read back if its instructions are. -/
theorem readsBack_body {body : List Op} (hlen : body.length < UInt32.size) (h : InstrsReadBack body) :
    ReadsBack writeBody readBody body := by
  have hinstrs (w : Writer) := (grows_instrs w body).weaken (length_le_countInstrs body)
  refine ⟨fun w => ?_, fun {bytes w} hb => ?_⟩
  · exact ((grows_uint32 w _).trans (hinstrs _)).weaken (by omega)
  · obtain ⟨h₁, e₁⟩ := reads_count hlen (hinstrs _) hb
    obtain ⟨h₂, e₂⟩ := h hb
    rw [readBody, e₁]
    change Reads (readInstrs body.length (behind bytes (w.count body.length)) >>= _) _ _
    rw [e₂]
    exact ⟨_, rfl⟩

mutual

/-- Every instruction is read back. -/
theorem readsBack_instr (i : Op) (h : i.Fits) : ReadsBack writeInstr readInstr i := by
  refine ⟨fun w => (grows_instr w i).weaken i.count_isAny_pos, fun {bytes w} hb => ?_⟩
  cases i with
  | pushInt n => exact reads_pushInt n hb
  | pushFloat n => exact reads_pushFloat n hb
  | unary op => cases op <;> exact reads_plain rfl hb
  | binary op => cases op <;> exact reads_plain rfl hb
  | branch yes no =>
    have hyes := readsBack_body h.1.1 (readsBack_instrs yes h.1.2)
    have hno := readsBack_body h.2.1 (readsBack_instrs no h.2.2)
    exact reads_branch hyes hno hb
  | loop body => exact reads_loop (readsBack_body h.1 (readsBack_instrs body h.2)) hb
  | tick body => exact reads_tick (readsBack_body h.1 (readsBack_instrs body h.2)) hb
  | discard | pushNull | element | pushLocal | storeElement | continueLoop | breakLoop | giveBack =>
    exact reads_plain rfl hb
  | line n | file n | pushText n | makeTuple n | makeObject n | makeArray n | tupleMember n
  | objectMember n | loadGlobal n | loadLocal n | storeGlobal n | storeLocal n | storeMember n
  | call n | callBuiltin n =>
    exact reads_worded rfl rfl n hb

/-- Instructions one after the other are read back. -/
theorem readsBack_instrs (is : List Op) (h : InstrsFit is) : InstrsReadBack is := by
  cases is with
  | nil =>
    intro bytes w _
    rw [List.length_nil, readInstrs]
    exact ⟨_, rfl⟩
  | cons i is =>
    intro bytes w hb
    obtain ⟨h₁, e₁⟩ := (readsBack_instr i h.1).reads ((grows_instrs _ is).keeps.trans hb)
    obtain ⟨h₂, e₂⟩ := readsBack_instrs is h.2 hb
    rw [List.length_cons, readInstrs, e₁]
    change Reads (readInstrs is.length (behind bytes (writeInstr w i)) >>= _) _ _
    rw [e₂]
    exact ⟨_, rfl⟩

end

/-! ## Whole images -/

/-- What a program knows of a function of its host is read back. -/
theorem readsBack_signature (b : Signature UInt32) : ReadsBack writeSignature readSignature b := by
  have hname := readsBack_uint32 b.name
  have harity := readsBack_uint32 b.arity
  have hcost := readsBack_uint32 b.cost
  refine ⟨fun w => grows_signature w b, fun {bytes w} hb => ?_⟩
  have hb₂ := (hcost.grows _).keeps.trans hb
  have hb₁ := (harity.grows _).keeps.trans hb₂
  obtain ⟨h₁, e₁⟩ := hname.reads hb₁
  obtain ⟨h₂, e₂⟩ := harity.reads hb₂
  obtain ⟨h₃, e₃⟩ := hcost.reads hb
  simp only [readSignature, e₁, e₂, e₃, bind, Except.bind]
  exact ⟨_, rfl⟩

/-- A function whose body can be counted is read back. -/
theorem readsBack_function {fn : Function UInt32 UInt32} (hfit : BodyFits fn.body) :
    ReadsBack writeFunction readFunction fn := by
  have hname := readsBack_uint32 fn.name
  have harity := readsBack_uint32 fn.arity
  have hline := readsBack_uint32 fn.line
  have hfile := readsBack_uint32 fn.file
  have hbody := readsBack_body hfit.1 (readsBack_instrs fn.body hfit.2)
  refine ⟨fun w => (grows_function w fn).weaken (by omega), fun {bytes w} hb => ?_⟩
  have hb₄ := (hbody.grows _).keeps.trans hb
  have hb₃ := (hfile.grows _).keeps.trans hb₄
  have hb₂ := (hline.grows _).keeps.trans hb₃
  have hb₁ := (harity.grows _).keeps.trans hb₂
  obtain ⟨h₁, e₁⟩ := hname.reads hb₁
  obtain ⟨h₂, e₂⟩ := harity.reads hb₂
  obtain ⟨h₃, e₃⟩ := hline.reads hb₃
  obtain ⟨h₄, e₄⟩ := hfile.reads hb₄
  obtain ⟨h₅, e₅⟩ := hbody.reads hb
  simp only [readFunction, e₁, e₂, e₃, e₄, e₅, bind, Except.bind]
  exact ⟨_, rfl⟩

/-- The header that was written is accepted. -/
theorem readHeader_ofBytes (hb : headerWritten.toList <+: bytes) :
    readHeader (Reader.ofBytes bytes) = .ok (behind bytes headerWritten) := by
  have hversion := Writer.grows_word (Writer.empty.uint32 magic) 2 version.toNat
  obtain ⟨h₁, e₁⟩ := (readsBack_uint32 magic).reads (hversion.keeps.trans hb)
  obtain ⟨h₂, e₂⟩ := reads_word (by decide) version.toNat_lt hb
  rw [← Reader.behind_empty, readHeader, e₁]
  change (readWord (behind bytes (Writer.empty.uint32 magic)) 2 _ >>= _) = _
  rw [e₂]
  rfl

/-- The functions are read back, past the bytes skipped to align them. -/
theorem reads_functions {image : Image} (h : image.Fits)
    (hb : image.functionsWritten.toList <+: bytes) :
    Reads (readMany readFunction image.program.functions.length
      ((behind bytes image.functionsCounted).align 8)) image.program.functions
      (behind bytes image.functionsWritten) := by
  rw [Reader.align_behind]
  exact reads_many image.program.functions (fun fn hfn => readsBack_function (h.bodies fn hfn)) hb

/-- Loading a stored image gives the image. -/
theorem decode_encode {image : Image} (h : image.Fits) : decode image.encode = .ok image := by
  have hshapes := readsBack_table h.shapes fun shape hs =>
    readsBack_table (h.members shape hs) fun n _ => readsBack_uint32 n
  have hbuiltins := readsBack_table h.builtins fun b _ => readsBack_signature b
  have hglobals := readsBack_table h.globals fun n _ => readsBack_uint32 n
  have hbody := readsBack_body h.body.1 (readsBack_instrs _ h.body.2)
  have htexts : Writer.Grows image.texts.length (headerWritten.count image.texts.length)
      image.textsWritten :=
    Writer.grows_foldl _ (fun w s _ => (grows_text w s).weaken (by omega)) _
  -- Every state of the writing is kept by the next one, hence by the finished bytes.
  have hb₇ : image.allWritten.toList <+: image.allWritten.toList := List.prefix_rfl
  have hb₆ := (grows_allWritten image).keeps.trans hb₇
  have hb₅ := (grows_functionsWritten image).keeps.trans hb₆
  have hb₄ := (grows_functionsCounted image).keeps.trans hb₅
  have hb₃ := (grows_globalsWritten image).keeps.trans hb₄
  have hb₂ := (grows_builtinsWritten image).keeps.trans hb₃
  have hb₁ := (grows_shapesWritten image).keeps.trans hb₂
  have hb₀ := (grows_textsWritten image).keeps.trans hb₁
  have e₀ := readHeader_ofBytes hb₀
  obtain ⟨_, e₁⟩ := reads_count h.texts htexts hb₁
  obtain ⟨_, e₁'⟩ := reads_texts image.texts 0 h.units hb₁
  obtain ⟨_, e₂⟩ := hshapes.reads hb₂
  obtain ⟨_, e₃⟩ := hbuiltins.reads hb₃
  obtain ⟨_, e₄⟩ := hglobals.reads hb₄
  obtain ⟨_, e₅⟩ := reads_count h.functions (grows_functionsWritten image) hb₆
  obtain ⟨_, e₆⟩ := reads_functions h hb₆
  obtain ⟨_, e₇⟩ := hbody.reads hb₇
  generalize hall : image.allWritten.toList = bytes at *
  have hend : ¬ (behind bytes image.allWritten).left > 0 := by
    rw [← hall, Reader.left_behind_self]
    decide
  rw [decode, encode_eq, hall, e₀]
  change (readCount (behind bytes headerWritten) >>= _) = _
  rw [e₁]
  change (readTexts image.texts.length 0
    (behind bytes (headerWritten.count image.texts.length)) >>= _) = _
  rw [e₁']
  change (readTable (readTable readUInt32) (behind bytes image.textsWritten) >>= _) = _
  rw [e₂]
  change (readTable readSignature (behind bytes image.shapesWritten) >>= _) = _
  rw [e₃]
  change (readTable readUInt32 (behind bytes image.builtinsWritten) >>= _) = _
  rw [e₄]
  change (readCount (behind bytes image.globalsWritten) >>= _) = _
  rw [e₅]
  change (readMany readFunction image.program.functions.length
    ((behind bytes image.functionsCounted).align 8) >>= _) = _
  rw [e₆]
  change (readBody (behind bytes image.functionsWritten) >>= _) = _
  rw [e₇]
  change (if (behind bytes image.allWritten).left > 0 then _ else _) = _
  rw [if_neg hend]
  rfl

/-- A program survives being stored: the stored form of its image loads, and replacing every number in
what was loaded by the text or the shape it stands for gives the program, instruction by instruction
and bit by bit. -/
theorem decode_encode_link (p : Program String (List String)) (h : (link p).Fits) :
    ∃ image, decode (link p).encode = .ok image ∧ image.unlink? = some p :=
  ⟨link p, decode_encode h, unlink?_link p h.numbered⟩

/-- A program with bodies inside bodies, a shape, a NaN that is not the usual one and a character beyond
the first plane. -/
theorem decode_encode_link_nested :
    ∃ image, decode (link ⟨[⟨"print", 1, 10⟩], ["g"],
        [⟨"f", 1, 3, "main.bt", [.pushLocal, .pushFloat 0xFFF0000000000001, .giveBack]⟩],
        [.pushInt (-1), .branch [.loop [.tick [.line 7, .pushText "π😀"]]] [.makeObject ["a", "b"]]]⟩
          ).encode = .ok image ∧
      image.unlink? = some ⟨[⟨"print", 1, 10⟩], ["g"],
        [⟨"f", 1, 3, "main.bt", [.pushLocal, .pushFloat 0xFFF0000000000001, .giveBack]⟩],
        [.pushInt (-1), .branch [.loop [.tick [.line 7, .pushText "π😀"]]] [.makeObject ["a", "b"]]]⟩ :=
  decode_encode_link _ (fits_of_length_encode (by decide +kernel))

end Image

end TickScript
