import TickScript.Image.Encode
import TickScript.Proofs.Bytes.Alignment
import TickScript.Proofs.Image.Linking

/-!
# The size of a stored image

A stored image counts what it lists in words of four bytes, and numbers texts, shapes and functions in
words as well, so it can only hold a program whose lists are not longer than that (`Image.Fits`).
Everything that is listed takes a byte at least. Hence nothing is too long in an image whose stored
form is shorter than four gibibytes (`Image.fits_of_length_encode`).
-/

namespace TickScript

section Counting

variable {ν σ : Type}

mutual

/-- How many instructions pass a test, among an instruction and all that are inside it. -/
def Instr.count (p : Instr ν σ → Bool) (i : Instr ν σ) : Nat :=
  (if p i then 1 else 0) +
    match i with
    | .branch yes no => countInstrs p yes + countInstrs p no
    | .loop body => countInstrs p body
    | .tick body => countInstrs p body
    | _ => 0

/-- How many instructions pass a test, among some instructions and all that are inside them. -/
def countInstrs (p : Instr ν σ → Bool) : List (Instr ν σ) → Nat
  | [] => 0
  | i :: is => i.count p + countInstrs p is

end

/-- Whether an instruction is one of all. -/
def Instr.isAny (_ : Instr ν σ) : Bool := true

/-- Instructions one behind the other are counted by themselves. -/
theorem countInstrs_append (p : Instr ν σ → Bool) (is js : List (Instr ν σ)) :
    countInstrs p (is ++ js) = countInstrs p is + countInstrs p js := by
  induction is with
  | nil => simp [countInstrs]
  | cons i is ih => simp only [List.cons_append, countInstrs, ih]; omega

/-- An instruction counts for one at least. -/
theorem Instr.count_isAny_pos (i : Instr ν σ) : 1 ≤ i.count Instr.isAny := by
  unfold Instr.count
  simp [Instr.isAny]

/-- There are no fewer instructions with those inside others than without. -/
theorem length_le_countInstrs (is : List (Instr ν σ)) : is.length ≤ countInstrs Instr.isAny is := by
  induction is with
  | nil => exact Nat.zero_le _
  | cons i is ih =>
    have h := i.count_isAny_pos
    simp only [List.length_cons, countInstrs]
    omega

mutual

/-- No test passes more instructions than there are inside one. -/
theorem Instr.count_le (p : Instr ν σ → Bool) (i : Instr ν σ) : i.count p ≤ i.count Instr.isAny := by
  have hp : (if p i then 1 else 0) ≤ 1 := by split <;> omega
  have hany : (if Instr.isAny i then 1 else 0) = 1 := rfl
  unfold Instr.count
  cases i with
  | branch yes no =>
    have hyes := countInstrs_le p yes
    have hno := countInstrs_le p no
    dsimp only
    omega
  | loop body =>
    have h := countInstrs_le p body
    dsimp only
    omega
  | tick body =>
    have h := countInstrs_le p body
    dsimp only
    omega
  | _ => dsimp only; omega

/-- No test passes more instructions than there are. -/
theorem countInstrs_le (p : Instr ν σ → Bool) (is : List (Instr ν σ)) :
    countInstrs p is ≤ countInstrs Instr.isAny is := by
  cases is with
  | nil => exact Nat.le_refl _
  | cons i is =>
    have hi := Instr.count_le p i
    have his := countInstrs_le p is
    simp only [countInstrs]
    omega

end

mutual

/-- No body inside the instruction has more instructions than a word can count. -/
def Instr.Fits : Instr ν σ → Prop
  | .branch yes no =>
    (yes.length < UInt32.size ∧ InstrsFit yes) ∧ (no.length < UInt32.size ∧ InstrsFit no)
  | .loop body => body.length < UInt32.size ∧ InstrsFit body
  | .tick body => body.length < UInt32.size ∧ InstrsFit body
  | _ => True

/-- No body inside the instructions has more instructions than a word can count. -/
def InstrsFit : List (Instr ν σ) → Prop
  | [] => True
  | i :: is => i.Fits ∧ InstrsFit is

end

/-- Neither the body nor a body inside it has more instructions than a word can count. -/
def BodyFits (body : List (Instr ν σ)) : Prop := body.length < UInt32.size ∧ InstrsFit body

mutual

/-- The bodies inside an instruction of few instructions can be counted. -/
theorem Instr.fits_of_count {i : Instr ν σ} (h : i.count Instr.isAny < UInt32.size) : i.Fits := by
  unfold Instr.count at h
  cases i with
  | branch yes no =>
    dsimp only at h
    exact ⟨bodyFits_of_count (by omega), bodyFits_of_count (by omega)⟩
  | loop body => exact bodyFits_of_count (by dsimp only at h; omega)
  | tick body => exact bodyFits_of_count (by dsimp only at h; omega)
  | _ => trivial

/-- A body of few instructions, with those inside others, can be counted. -/
theorem bodyFits_of_count {body : List (Instr ν σ)} (h : countInstrs Instr.isAny body < UInt32.size) :
    BodyFits body := by
  refine ⟨Nat.lt_of_le_of_lt (length_le_countInstrs body) h, ?_⟩
  cases body with
  | nil => trivial
  | cons i is =>
    rw [countInstrs] at h
    exact ⟨Instr.fits_of_count (by omega), (bodyFits_of_count (by omega)).2⟩

end

end Counting

/-- Everything that a stored image counts can be counted in a word of four bytes: its texts and the
units of each, its shapes and the members of each, its builtins, globals and functions, and the
instructions of every body. -/
structure Image.Fits (image : Image) : Prop where
  texts : image.texts.length < UInt32.size
  units : ∀ s ∈ image.texts, (Text.toUnits s).length < UInt32.size
  shapes : image.shapes.length < UInt32.size
  members : ∀ shape ∈ image.shapes, shape.length < UInt32.size
  builtins : image.program.builtins.length < UInt32.size
  globals : image.program.globals.length < UInt32.size
  functions : image.program.functions.length < UInt32.size
  bodies : ∀ fn ∈ image.program.functions, BodyFits fn.body
  body : BodyFits image.program.body

/-- What can be counted can be numbered. -/
theorem Image.Fits.numbered {image : Image} (h : image.Fits) : image.Numbered :=
  ⟨Nat.le_of_lt h.texts, Nat.le_of_lt h.shapes⟩

namespace Image

open Bytes (Writer)

/-! ## What writing takes -/

/-- A byte takes one byte. -/
theorem grows_uint8 (w : Writer) (n : UInt8) : Writer.Grows 1 w (w.uint8 n) := Writer.grows_raw w [n]

/-- A word of four bytes takes four at least. -/
theorem grows_uint32 (w : Writer) (n : UInt32) : Writer.Grows 4 w (w.uint32 n) :=
  Writer.grows_word w 4 n.toNat

/-- An opcode and a word take one byte at least. -/
theorem grows_worded (w : Writer) (c : UInt8) (n : UInt32) :
    Writer.Grows 1 w ((w.uint8 c).uint32 n) :=
  ((grows_uint8 w c).trans (grows_uint32 _ n)).weaken (by decide)

/-- Writing a table takes as many bytes as the table has entries, and those of its count. -/
theorem grows_table {α : Type} {write : Writer → α → Writer} {table : List α}
    (h : ∀ w, ∀ a ∈ table, Writer.Grows 1 w (write w a)) (w : Writer) :
    Writer.Grows (table.length + 4) w (writeTable write w table) :=
  ((grows_uint32 w _).trans (Writer.grows_foldl table h _)).weaken (by omega)

/-- A text takes a byte at least for each unit, and those of its count. -/
theorem grows_text (w : Writer) (s : String) :
    Writer.Grows ((Text.toUnits s).length + 4) w (writeText w s) :=
  grows_table (fun w u _ => (Writer.grows_word w 2 u.toNat).weaken (by decide)) w

/-- A shape takes a byte at least for each name, and those of its count. -/
theorem grows_shape (w : Writer) (shape : List UInt32) :
    Writer.Grows (shape.length + 4) w (writeTable Writer.uint32 w shape) :=
  grows_table (fun w n _ => (grows_uint32 w n).weaken (by decide)) w

/-- What a program knows of a function of its host takes a byte at least. -/
theorem grows_signature (w : Writer) (b : Signature UInt32) :
    Writer.Grows 1 w (writeSignature w b) :=
  (((grows_uint32 w _).trans (grows_uint32 _ _)).trans (grows_uint32 _ _)).weaken (by decide)

/-- What is written behind its count takes no fewer bytes than without it. -/
theorem grows_counted {k : Nat} {write : Writer → Writer} (w : Writer) (n : Nat)
    (h : ∀ w, Writer.Grows k w (write w)) : Writer.Grows k w (write (w.count n)) :=
  ((grows_uint32 w _).trans (h _)).weaken (Nat.le_add_left k 4)

mutual

/-- Writing an instruction takes a byte at least for it and each instruction inside it. -/
theorem grows_instr (w : Writer) (i : Op) :
    Writer.Grows (i.count Instr.isAny) w (writeInstr w i) := by
  unfold Instr.count
  cases i with
  | branch yes no =>
    have hyes := grows_counted (w.uint8 0x40) yes.length fun w => grows_instrs w yes
    have hno := grows_counted (writeBody (w.uint8 0x40) yes) no.length fun w => grows_instrs w no
    exact (((grows_uint8 w 0x40).trans hyes).trans hno).weaken (by dsimp only [Instr.isAny]; simp; omega)
  | loop body =>
    have hbody := grows_counted (w.uint8 0x41) body.length fun w => grows_instrs w body
    exact ((grows_uint8 w 0x41).trans hbody).weaken (by simp [Instr.isAny])
  | tick body =>
    have hbody := grows_counted (w.uint8 0x42) body.length fun w => grows_instrs w body
    exact ((grows_uint8 w 0x42).trans hbody).weaken (by simp [Instr.isAny])
  | pushInt n =>
    exact ((grows_uint8 w 0x11).trans (Writer.grows_word _ 8 _)).weaken (by simp [Instr.isAny])
  | pushFloat bits =>
    exact ((grows_uint8 w 0x12).trans (Writer.grows_word _ 8 _)).weaken (by simp [Instr.isAny])
  | unary op => exact grows_uint8 w op.opcode
  | binary op => exact grows_uint8 w op.opcode
  | discard | pushNull | element | pushLocal | storeElement | continueLoop | breakLoop | giveBack =>
    exact grows_uint8 w _
  | line n | file n | pushText n | makeTuple n | makeObject n | makeArray n | tupleMember n
  | objectMember n | loadGlobal n | loadLocal n | storeGlobal n | storeLocal n | storeMember n
  | call n | callBuiltin n =>
    exact grows_worded w _ n

/-- So do instructions, each of them with those inside it. -/
theorem grows_instrs (w : Writer) (is : List Op) :
    Writer.Grows (countInstrs Instr.isAny is) w (writeInstrs w is) := by
  cases is with
  | nil => exact .refl w
  | cons i is => exact (grows_instr w i).trans (grows_instrs (writeInstr w i) is)

end

/-- So does a body. -/
theorem grows_body (w : Writer) (body : List Op) :
    Writer.Grows (countInstrs Instr.isAny body) w (writeBody w body) :=
  grows_counted w body.length fun w => grows_instrs w body

/-- So does a function, and one byte more. -/
theorem grows_function (w : Writer) (fn : Function UInt32 UInt32) :
    Writer.Grows (countInstrs Instr.isAny fn.body + 1) w (writeFunction w fn) :=
  (((((grows_uint32 w _).trans (grows_uint32 _ _)).trans (grows_uint32 _ _)).trans
    (grows_uint32 _ _)).trans (grows_body _ fn.body)).weaken (by omega)

/-! ## The states of the writing

What has been written after each part of the image. -/

/-- The header is written. -/
def headerWritten : Writer := (Writer.empty.uint32 magic).uint16 version

/-- The texts are written. -/
def textsWritten (image : Image) : Writer := writeTable writeText headerWritten image.texts

/-- The shapes are written. -/
def shapesWritten (image : Image) : Writer :=
  writeTable (writeTable Writer.uint32) image.textsWritten image.shapes

/-- The builtins are written. -/
def builtinsWritten (image : Image) : Writer :=
  writeTable writeSignature image.shapesWritten image.program.builtins

/-- The globals are written. -/
def globalsWritten (image : Image) : Writer :=
  writeTable Writer.uint32 image.builtinsWritten image.program.globals

/-- The number of functions is written. -/
def functionsCounted (image : Image) : Writer :=
  image.globalsWritten.count image.program.functions.length

/-- The functions are written. -/
def functionsWritten (image : Image) : Writer :=
  image.program.functions.foldl writeFunction (image.functionsCounted.align 8)

/-- Everything is written. -/
def allWritten (image : Image) : Writer := writeBody image.functionsWritten image.program.body

/-! ## Code written apart -/

theorem relocates_uint8 (n : UInt8) : Writer.Relocates (·.uint8 n) := Writer.relocates_raw [n]

theorem relocates_uint32 (n : UInt32) : Writer.Relocates (·.uint32 n) :=
  Writer.relocates_word (by decide) n.toNat

theorem relocates_worded (c : UInt8) (n : UInt32) :
    Writer.Relocates fun w => (w.uint8 c).uint32 n :=
  (relocates_uint8 c).trans (relocates_uint32 n)

/-- What relocates does so behind its count. -/
theorem relocates_counted (n : Nat) {write : Writer → Writer} (h : Writer.Relocates write) :
    Writer.Relocates fun w => write (w.count n) :=
  (relocates_uint32 _).trans h

mutual

/-- An instruction is written the same in the code that is appended as in its place. -/
theorem relocates_instr (i : Op) : Writer.Relocates (writeInstr · i) := by
  cases i with
  | branch yes no =>
    exact ((relocates_uint8 0x40).trans (relocates_counted _ (relocates_instrs yes))).trans
      (relocates_counted _ (relocates_instrs no))
  | loop body => exact (relocates_uint8 0x41).trans (relocates_counted _ (relocates_instrs body))
  | tick body => exact (relocates_uint8 0x42).trans (relocates_counted _ (relocates_instrs body))
  | pushInt n => exact (relocates_uint8 0x11).trans (Writer.relocates_word (by decide) _)
  | pushFloat bits => exact (relocates_uint8 0x12).trans (Writer.relocates_word (by decide) _)
  | unary op => exact relocates_uint8 op.opcode
  | binary op => exact relocates_uint8 op.opcode
  | discard | pushNull | element | pushLocal | storeElement | continueLoop | breakLoop | giveBack =>
    exact relocates_uint8 _
  | line n | file n | pushText n | makeTuple n | makeObject n | makeArray n | tupleMember n
  | objectMember n | loadGlobal n | loadLocal n | storeGlobal n | storeLocal n | storeMember n
  | call n | callBuiltin n =>
    exact relocates_worded _ n

theorem relocates_instrs (is : List Op) : Writer.Relocates (writeInstrs · is) := by
  cases is with
  | nil => exact .refl
  | cons i is => exact (relocates_instr i).trans (relocates_instrs is)

end

theorem relocates_body (body : List Op) : Writer.Relocates (writeBody · body) :=
  relocates_counted _ (relocates_instrs body)

theorem relocates_function (fn : Function UInt32 UInt32) : Writer.Relocates (writeFunction · fn) :=
  ((((relocates_uint32 _).trans (relocates_uint32 _)).trans (relocates_uint32 _)).trans
    (relocates_uint32 _)).trans (relocates_body fn.body)

/-- The code as a whole relocates, since all its words do. -/
theorem relocates_code (p : Program UInt32 UInt32) : Writer.Relocates (writeCode · p) :=
  (Writer.Relocates.foldl relocates_function p.functions).trans (relocates_body p.body)

/-- The code is written apart, and it is the same bytes as if it were written in its place. -/
theorem encode_eq (image : Image) : image.encode = image.allWritten.toList :=
  congrArg Writer.toList ((relocates_code image.program).append image.functionsCounted)

section

variable (image : Image)

/-- The texts take a byte each. -/
theorem grows_textsWritten : Writer.Grows (image.texts.length + 4) headerWritten image.textsWritten :=
  grows_table (fun w s _ => (grows_text w s).weaken (by omega)) _

/-- The shapes take a byte each. -/
theorem grows_shapesWritten :
    Writer.Grows (image.shapes.length + 4) image.textsWritten image.shapesWritten :=
  grows_table (fun w shape _ => (grows_shape w shape).weaken (by omega)) _

/-- The builtins take a byte each. -/
theorem grows_builtinsWritten :
    Writer.Grows (image.program.builtins.length + 4) image.shapesWritten image.builtinsWritten :=
  grows_table (fun w b _ => grows_signature w b) _

/-- The globals take a byte each. -/
theorem grows_globalsWritten :
    Writer.Grows (image.program.globals.length + 4) image.builtinsWritten image.globalsWritten :=
  grows_shape _ _

theorem grows_functionsCounted : Writer.Grows 4 image.globalsWritten image.functionsCounted :=
  grows_uint32 _ _

/-- The functions take a byte each. -/
theorem grows_functionsWritten :
    Writer.Grows image.program.functions.length image.functionsCounted image.functionsWritten :=
  ((Writer.grows_align _ 8).trans (Writer.grows_foldl _
    (fun w fn _ => (grows_function w fn).weaken (by omega)) _)).weaken (by omega)

/-- The body takes a byte for each of its instructions. -/
theorem grows_allWritten :
    Writer.Grows (countInstrs Instr.isAny image.program.body) image.functionsWritten
      image.allWritten :=
  grows_body _ _

end

/-- A stored form has a byte at least for every instruction of a body. -/
theorem counts_of_length_encode {image : Image} {n : Nat} (h : image.encode.length < n) :
    (∀ fn ∈ image.program.functions, countInstrs Instr.isAny fn.body < n) ∧
      countInstrs Instr.isAny image.program.body < n := by
  rw [encode_eq, ← Writer.size_eq_length] at h
  have hbody := (grows_allWritten image).more
  refine ⟨fun fn hfn => ?_, by omega⟩
  have hfunctions := (Writer.grows_foldl_of_mem (fun w f _ => grows_function w f) hfn
    (image.functionsCounted.align 8)).more
  change _ ≤ image.functionsWritten.size at hfunctions
  omega

/-- Nothing is too long to be counted in an image whose stored form is shorter than four
gibibytes. -/
theorem fits_of_length_encode {image : Image} (h : image.encode.length < UInt32.size) : image.Fits := by
  obtain ⟨hbodies, hbody⟩ := counts_of_length_encode h
  rw [encode_eq, ← Writer.size_eq_length] at h
  have htexts := (grows_textsWritten image).more
  have hshapes := (grows_shapesWritten image).more
  have hbuiltins := (grows_builtinsWritten image).more
  have hglobals := (grows_globalsWritten image).more
  have hcounted := (grows_functionsCounted image).more
  have hfunctions := (grows_functionsWritten image).more
  have hall := (grows_allWritten image).more
  refine ⟨by omega, fun s hs => ?_, by omega, fun shape hs => ?_, by omega, by omega, by omega,
    fun fn hfn => bodyFits_of_count (hbodies fn hfn), bodyFits_of_count hbody⟩
  · have := (Writer.grows_foldl_of_mem (fun w s _ => grows_text w s) hs
      (headerWritten.count image.texts.length)).more
    change _ ≤ image.textsWritten.size at this
    omega
  · have := (Writer.grows_foldl_of_mem (fun w s _ => grows_shape w s) hs
      (image.textsWritten.count image.shapes.length)).more
    change _ ≤ image.shapesWritten.size at this
    omega

end Image

end TickScript
