import TickScript.Proofs.Bytes.ReadBack

/-!
# Aligned words, and parts inside parts

What is written may be put together from parts that were written apart, each from an offset of its own
that counts as zero. A part is appended at a multiple of eight, and no word is longer than eight bytes.
So a part is written as if it had been written in its place from the start (`Writer.pieces_eq_foldl`),
and what is written is one sequence of words and alignments (`Piece.steps`), however its parts are
nested. Every word stands at a multiple of its size and all that is skipped is zero (`Layout`); a reader
that makes the same steps gets the words and comes to the end (`pieces_laid_out`).
-/

namespace TickScript.Bytes

/-! ## What is written -/

/-- A word to be written, a float by its bits. -/
inductive Datum where
  | uint8 (n : UInt8)
  | uint16 (n : UInt16)
  | uint32 (n : UInt32)
  | int64 (n : Int64)
  | float64 (bits : UInt64)
deriving Repr, DecidableEq

namespace Datum

/-- The kind as which a word is read. -/
def kind : Datum → WordKind
  | uint8 _ => .uint8
  | uint16 _ => .uint16
  | uint32 _ => .uint32
  | int64 _ => .int64
  | float64 _ => .float64

/-- The number that the bytes of a word stand for. -/
def number : Datum → Nat
  | uint8 n => n.toNat
  | uint16 n => n.toNat
  | uint32 n => n.toNat
  | int64 n => n.toUInt64.toNat
  | float64 bits => bits.toNat

/-- The bytes of a word. -/
def bytes (d : Datum) : List UInt8 := littleEndian d.kind.width d.number

/-- The word as it should be read. -/
def word : Datum → Word
  | uint8 n => .whole n.toNat
  | uint16 n => .whole n.toNat
  | uint32 n => .whole n.toNat
  | int64 n => .whole n.toInt
  | float64 bits => .float bits

end Datum

/-- The sizes to which a writer aligns. -/
inductive Alignment where
  | one
  | two
  | four
  | eight
deriving Repr, DecidableEq

/-- The alignment in bytes. -/
def Alignment.size : Alignment → Nat
  | one => 1
  | two => 2
  | four => 4
  | eight => 8

/-- What is written: a word, zeros up to an alignment, or all that another writer wrote. -/
inductive Piece where
  | word (d : Datum)
  | align (a : Alignment)
  | part (pieces : List Piece)
deriving Repr

namespace Writer

/-- Writes a word. -/
def datum (w : Writer) : Datum → Writer
  | .uint8 n => w.uint8 n
  | .uint16 n => w.uint16 n
  | .uint32 n => w.uint32 n
  | .int64 n => w.int64 n
  | .float64 bits => w.float64 bits

mutual

/-- Writes a piece. A part is written by a writer of its own and appended. -/
def piece (w : Writer) : Piece → Writer
  | .word d => w.datum d
  | .align a => w.align a.size
  | .part ps => w.append (empty.pieces ps)

/-- Writes pieces one after the other. -/
def pieces (w : Writer) : List Piece → Writer
  | [] => w
  | p :: ps => (w.piece p).pieces ps

end

end Writer

/-! ## Steps -/

/-- A step through what is written: a word or an alignment. -/
inductive Step where
  | word (d : Datum)
  | align (a : Alignment)
deriving Repr

mutual

/-- The steps of a piece. A part begins with an alignment to eight bytes. -/
def Piece.steps : Piece → List Step
  | .word d => [.word d]
  | .align a => [.align a]
  | .part ps => .align .eight :: stepsOf ps

/-- The steps of pieces one after the other. -/
def stepsOf : List Piece → List Step
  | [] => []
  | p :: ps => p.steps ++ stepsOf ps

end

/-- The words of steps. -/
def dataOf (ss : List Step) : List Datum :=
  ss.filterMap fun
    | .word d => some d
    | .align _ => none

/-- What a reader is asked for: a word of some kind, or to skip to an alignment. -/
inductive Request where
  | word (k : WordKind)
  | align (a : Alignment)
deriving Repr, DecidableEq

/-- What a reader is asked for at a step. It is told the kind of a word and nothing more. -/
def Step.request : Step → Request
  | .word d => .word d.kind
  | .align a => .align a

/-- What a reader answers to requests, one after the other, and where it stands then. -/
def Reader.answers (r : Reader) : List Request → List (Except Nat Word) × Reader
  | [] => ([], r)
  | .word k :: qs =>
    let others := (r.next k).2.answers qs
    ((r.next k).1 :: others.1, others.2)
  | .align a :: qs => (r.align a.size).answers qs

/-- Writes what a step is about. -/
def Writer.step (w : Writer) : Step → Writer
  | .word d => w.datum d
  | .align a => w.align a.size

/-! ## Layout -/

/-- Bytes from an offset on that hold some words in their order, each at a multiple of its size. All
other bytes are zero. -/
inductive Layout : Nat → List UInt8 → List Datum → Prop where
  | nil (offset : Nat) : Layout offset [] []
  | skipped {offset : Nat} {bs : List UInt8} {ds : List Datum} (h : Layout (offset + 1) bs ds) :
      Layout offset (0 :: bs) ds
  | word {offset : Nat} {bs : List UInt8} {ds : List Datum} (d : Datum)
      (aligned : d.kind.width ∣ offset) (h : Layout (offset + d.kind.width) bs ds) :
      Layout offset (d.bytes ++ bs) (d :: ds)

namespace Layout

/-- Two layouts follow each other where the first one ends. -/
theorem append {offset : Nat} {bs bs' : List UInt8} {ds ds' : List Datum} (h : Layout offset bs ds)
    (h' : Layout (offset + bs.length) bs' ds') : Layout offset (bs ++ bs') (ds ++ ds') := by
  induction h with
  | nil => exact h'
  | skipped h ih =>
    refine .skipped (ih ?_)
    rwa [List.length_cons, Nat.add_comm _ 1, ← Nat.add_assoc] at h'
  | word d aligned h ih =>
    rw [List.append_assoc]
    refine .word d aligned (ih ?_)
    rwa [List.length_append, Datum.bytes, length_littleEndian, ← Nat.add_assoc] at h'

theorem zeros (offset n : Nat) : Layout offset (List.replicate n 0) [] := by
  induction n generalizing offset with
  | zero => exact .nil offset
  | succ n ih => exact .skipped (ih (offset + 1))

end Layout

/-- Behind its padding a word stands at a multiple of its size. -/
theorem WordKind.width_dvd (k : WordKind) (offset : Nat) :
    k.width ∣ offset + padding k.width offset := by
  cases k <;> simp only [WordKind.width, padding] <;> omega

/-- The padding is the same behind what ends at a multiple of the alignment. -/
theorem padding_add {alignment k : Nat} (h : alignment ∣ k) (offset : Nat) :
    padding alignment (k + offset) = padding alignment offset := by
  obtain ⟨m, rfl⟩ := h
  rw [padding, padding, Nat.mul_add_mod]

/-- No word is longer than eight bytes, and its size divides them. -/
theorem WordKind.width_dvd_eight (k : WordKind) : k.width ∣ 8 := by cases k <;> decide

theorem Alignment.size_dvd_eight (a : Alignment) : a.size ∣ 8 := by cases a <;> decide

namespace Writer

/-- Every kind of word is written by its size and its number. -/
theorem datum_eq_word (w : Writer) (d : Datum) : w.datum d = w.word d.kind.width d.number := by
  cases d with
  | uint8 n => exact w.uint8_eq_word n
  | uint16 n | uint32 n | int64 n | float64 bits => rfl

/-- A word is written as its padding and its bytes. -/
theorem toList_datum (w : Writer) (d : Datum) :
    (w.datum d).toList = w.toList ++ (List.replicate (padding d.kind.width w.size) 0 ++ d.bytes) := by
  rw [datum_eq_word, toList_word, List.append_assoc, Datum.bytes]

/-- A step leaves in place what was written before. -/
theorem grows_step (w : Writer) (s : Step) : Grows 0 w (w.step s) := by
  cases s with
  | word d =>
    rw [step, datum_eq_word]
    exact (grows_word w _ _).weaken (Nat.zero_le _)
  | align a => exact grows_align w a.size

/-! ## Parts -/

theorem raw_append (w : Writer) (bs bs' : List UInt8) : w.raw (bs ++ bs') = (w.raw bs).raw bs' := by
  rw [raw, List.foldl_append]
  rfl

/-- Whether the same is written in a part as behind what stands before the part, if that ends at a
multiple of eight. -/
def Relocates (write : Writer → Writer) : Prop :=
  ∀ w v : Writer, 8 ∣ w.size → write (w.raw v.toList) = w.raw (write v).toList

namespace Relocates

variable {write write' : Writer → Writer}

theorem refl : Relocates fun w => w := fun _ _ _ => rfl

theorem trans (h : Relocates write) (h' : Relocates write') : Relocates fun w => write' (write w) := by
  intro w v hw
  dsimp only
  rw [h w v hw, h' w (write v) hw]

/-- Items that are written one after the other relocate if each does. -/
theorem foldl {α : Type} {write : Writer → α → Writer} (h : ∀ a, Relocates (write · a)) (as : List α) :
    Relocates (as.foldl write ·) := by
  induction as with
  | nil => exact refl
  | cons a as ih => exact (h a).trans ih

/-- Appending what was written apart is writing it in its place. -/
theorem append (h : Relocates write) (w : Writer) : w.append (write empty) = write (w.align 8) := by
  have hw : 8 ∣ (w.align 8).size := by
    rw [size_align]
    exact WordKind.int64.width_dvd w.size
  exact (h (w.align 8) empty hw).symm

end Relocates

theorem relocates_raw (bs : List UInt8) : Relocates (·.raw bs) := by
  intro w v _
  dsimp only
  rw [toList_raw, raw_append]

/-- Skipping to an alignment relocates, because a part begins at a multiple of all alignments. -/
theorem relocates_align {alignment : Nat} (h : alignment ∣ 8) : Relocates (·.align alignment) := by
  intro w v hw
  have hsize : (w.raw v.toList).size = w.size + v.size := by rw [size_raw, ← size_eq_length]
  have hpad := padding_add (Nat.dvd_trans h hw) v.size
  dsimp only
  rw [align, hsize, hpad, toList_align, raw_append]

/-- A word of at most eight bytes relocates, because the padding before it stays the same. -/
theorem relocates_word {width : Nat} (h : width ∣ 8) (n : Nat) : Relocates (·.word width n) :=
  (relocates_align h).trans (relocates_raw _)

theorem relocates_step (s : Step) : Relocates (·.step s) := by
  cases s with
  | word d =>
    intro w v hw
    dsimp only
    rw [step, step, datum_eq_word, datum_eq_word]
    exact relocates_word d.kind.width_dvd_eight d.number w v hw
  | align a => exact relocates_align a.size_dvd_eight

mutual

theorem piece_eq_foldl (w : Writer) (p : Piece) : w.piece p = p.steps.foldl step w := by
  cases p with
  | word d => rfl
  | align a => rfl
  | part ps =>
    rw [piece, pieces_eq_foldl empty ps, (Relocates.foldl relocates_step (stepsOf ps)).append]
    rfl

/-- However parts are nested, what is written is written step by step. -/
theorem pieces_eq_foldl (w : Writer) (ps : List Piece) : w.pieces ps = (stepsOf ps).foldl step w := by
  cases ps with
  | nil => rfl
  | cons p ps => rw [pieces, piece_eq_foldl w p, pieces_eq_foldl _ ps, stepsOf, List.foldl_append]

end

/-! ## Words in their places -/

/-- What a step writes is laid out from where the writer stood. -/
theorem layout_step (w : Writer) (s : Step) :
    ∃ bs, (w.step s).toList = w.toList ++ bs ∧ Layout w.size bs (dataOf [s]) := by
  cases s with
  | word d =>
    refine ⟨_, toList_datum w d, ?_⟩
    refine (Layout.zeros w.size _).append ?_
    rw [List.length_replicate]
    have hword := Layout.word d (d.kind.width_dvd w.size) (.nil _)
    rwa [List.append_nil] at hword
  | align a => exact ⟨_, toList_align w a.size, Layout.zeros w.size _⟩

/-- So is what several steps write. -/
theorem layout_steps (w : Writer) (ss : List Step) :
    ∃ bs, (ss.foldl step w).toList = w.toList ++ bs ∧ Layout w.size bs (dataOf ss) := by
  induction ss generalizing w with
  | nil => exact ⟨[], (List.append_nil _).symm, .nil _⟩
  | cons s ss ih =>
    obtain ⟨bs, hbs, hfirst⟩ := layout_step w s
    obtain ⟨bs', hbs', hothers⟩ := ih (w.step s)
    refine ⟨bs ++ bs', by rw [List.foldl_cons, hbs', hbs, List.append_assoc], ?_⟩
    have hdata : dataOf (s :: ss) = dataOf [s] ++ dataOf ss := List.filterMap_append (l := [s])
    rw [hdata]
    refine hfirst.append ?_
    rwa [size_eq_length, hbs, List.length_append, ← size_eq_length] at hothers

end Writer

/-! ## Words read back -/

namespace Reader

open Writer (step)

variable {bytes : List UInt8}

/-- The number of a word fits into its bytes. -/
theorem number_lt (d : Datum) : d.number < Nat.pow 256 d.kind.width := by
  cases d with
  | uint8 n => exact n.toNat_lt
  | uint16 n => exact n.toNat_lt
  | uint32 n => exact n.toNat_lt
  | int64 n => exact n.toUInt64.toNat_lt
  | float64 bits => exact bits.toNat_lt

/-- A word is made again of its number. -/
theorem ofNumber_number (d : Datum) : d.kind.ofNumber d.number = d.word := by
  cases d with
  | uint8 n | uint16 n | uint32 n => rfl
  | int64 n => simp [Datum.kind, Datum.number, Datum.word, WordKind.ofNumber]
  | float64 bits => exact congrArg Word.float UInt64.ofNat_toNat

/-- A reader that stands where a word was written gets the word. -/
theorem next_behind {w : Writer} (d : Datum) (hb : (w.datum d).toList <+: bytes) :
    (behind bytes w).next d.kind = (.ok d.word, behind bytes (w.datum d)) := by
  rw [Writer.datum_eq_word] at hb ⊢
  rw [next, word_behind hb (number_lt d)]
  dsimp only
  rw [ofNumber_number]

/-- A reader that makes a writer's steps gets its words, and stands where the writer stood. -/
theorem answers_behind {w : Writer} (ss : List Step) (hb : (ss.foldl step w).toList <+: bytes) :
    (behind bytes w).answers (ss.map Step.request) =
      ((dataOf ss).map fun d => .ok d.word, behind bytes (ss.foldl step w)) := by
  induction ss generalizing w with
  | nil => rfl
  | cons s ss ih =>
    have hkeeps : Writer.Grows 0 (w.step s) (ss.foldl step (w.step s)) :=
      Writer.keeps_foldl (fun w s _ => (Writer.grows_step w s).keeps) (w.step s)
    have hothers := ih hb
    cases s with
    | word d =>
      rw [List.map_cons, Step.request, answers, next_behind d (hkeeps.keeps.trans hb)]
      exact congrArg (fun others => (.ok d.word :: others.1, others.2)) hothers
    | align a =>
      rw [List.map_cons, Step.request, answers, align_behind]
      exact hothers

end Reader

/-- **Words stand aligned and are read back.** -/
theorem pieces_laid_out (ps : List Piece) :
    let bytes := (Writer.empty.pieces ps).toList
    Layout 0 bytes (dataOf (stepsOf ps)) ∧
      (Reader.ofBytes bytes).answers ((stepsOf ps).map Step.request) =
        ((dataOf (stepsOf ps)).map fun d => .ok d.word, ⟨bytes.length, []⟩) := by
  intro bytes
  have hbytes : ((stepsOf ps).foldl Writer.step Writer.empty).toList = bytes := by
    rw [← Writer.pieces_eq_foldl]
  constructor
  · obtain ⟨bs, hbs, hlayout⟩ := Writer.layout_steps Writer.empty (stepsOf ps)
    rw [hbytes] at hbs
    rw [hbs]
    exact hlayout
  · have hall : ((stepsOf ps).foldl Writer.step Writer.empty).toList <+: bytes :=
      ⟨[], by rw [List.append_nil, hbytes]⟩
    have hanswers := Reader.answers_behind (stepsOf ps) hall
    rw [Reader.behind_empty] at hanswers
    rw [hanswers, Reader.behind, Writer.size_eq_length, hbytes, List.drop_length]

/-- A part begins at a multiple of eight, and its word of two bytes behind a zero. -/
example : (Writer.empty.pieces
    [.word (.uint8 1), .part [.word (.uint8 2), .word (.uint16 0x304)]]).toList =
      [1, 0, 0, 0, 0, 0, 0, 0, 2, 0, 4, 3] := by decide

end TickScript.Bytes
