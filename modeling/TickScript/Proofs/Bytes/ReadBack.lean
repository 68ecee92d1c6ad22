import TickScript.Bytes.Reader
import TickScript.Bytes.Writer

/-!
# Reading what was written

A reader of the finished bytes that stands where a writer once stood (`Reader.behind`) reads the word
that was written next, and then stands where the writer stood afterwards. Both skip to the same
alignment, because both count offsets from the start of the bytes.

What holds of every writing is that nothing written is changed afterwards (`Writer.Grows`), so it is
enough to know of the finished bytes that they begin with what was written up to some point.
-/

namespace TickScript.Bytes

/-- What comes first can be split off again. -/
theorem split?_append {α : Type} (first others : List α) :
    split? first.length (first ++ others) = some (first, others) := by
  induction first with
  | nil => rfl
  | cons a first ih => simp [split?, ih]

namespace Writer

@[simp] theorem size_raw (w : Writer) (bs : List UInt8) : (w.raw bs).size = w.size + bs.length := by
  rw [size_eq_length, size_eq_length, toList_raw, List.length_append]

@[simp] theorem size_align (w : Writer) (alignment : Nat) :
    (w.align alignment).size = w.size + padding alignment w.size := by
  simp [align]

@[simp] theorem size_word (w : Writer) (width n : Nat) :
    (w.word width n).size = w.size + padding width w.size + width := by
  simp [word]

/-- A byte is a word of one byte, which needs no padding. -/
theorem uint8_eq_word (w : Writer) (n : UInt8) : w.uint8 n = w.word 1 n.toNat := by
  have hpad : padding 1 w.size = 0 := by simp [padding, Nat.mod_one]
  have hbyte : n.toNat % 256 = n.toNat := Nat.mod_eq_of_lt n.toNat_lt
  rw [uint8, word, align, hpad]
  simp only [littleEndian, hbyte, UInt8.ofNat_toNat, List.replicate_zero]
  rfl

/-- A later state of the writing keeps what was written, and has at least `n` bytes more. -/
structure Grows (n : Nat) (w w' : Writer) : Prop where
  keeps : w.toList <+: w'.toList
  more : w.size + n ≤ w'.size

namespace Grows

theorem refl (w : Writer) : Grows 0 w w := ⟨List.prefix_rfl, Nat.le_refl _⟩

/-- What grows by some bytes and then by others grows by both. -/
theorem trans {n k : Nat} {a b c : Writer} (h : Grows n a b) (h' : Grows k b c) :
    Grows (n + k) a c := by
  refine ⟨h.keeps.trans h'.keeps, ?_⟩
  have := h.more
  have := h'.more
  omega

theorem weaken {n k : Nat} {a b : Writer} (h : Grows n a b) (hk : k ≤ n) : Grows k a b :=
  ⟨h.keeps, by have := h.more; omega⟩

end Grows

/-- Bytes as they are make a writer grow by as many. -/
theorem grows_raw (w : Writer) (bs : List UInt8) : Grows bs.length w (w.raw bs) := by
  refine ⟨?_, by simp⟩
  rw [toList_raw]
  exact List.prefix_append _ _

/-- Zeros up to an alignment may be none. -/
theorem grows_align (w : Writer) (alignment : Nat) : Grows 0 w (w.align alignment) :=
  (grows_raw w _).weaken (Nat.zero_le _)

/-- A word takes its bytes at least. -/
theorem grows_word (w : Writer) (width n : Nat) : Grows width w (w.word width n) := by
  have h := (grows_align w width).trans (grows_raw (w.align width) (littleEndian width n))
  exact h.weaken (by simp)

/-- Writing items one after the other, each of which keeps what was written. -/
theorem keeps_foldl {α : Type} {write : Writer → α → Writer} {items : List α}
    (h : ∀ w, ∀ a ∈ items, w.toList <+: (write w a).toList) (w : Writer) :
    Grows 0 w (items.foldl write w) := by
  induction items generalizing w with
  | nil => exact .refl w
  | cons a items ih =>
    have hfirst := h w a List.mem_cons_self
    have hothers := ih (fun w b hb => h w b (List.mem_cons_of_mem a hb)) (write w a)
    refine ⟨hfirst.trans hothers.keeps, ?_⟩
    have := hfirst.length_le
    have := hothers.more
    simp only [size_eq_length, List.foldl_cons] at *
    omega

/-- Writing items one after the other, each of which takes a byte at least. -/
theorem grows_foldl {α : Type} {write : Writer → α → Writer} (items : List α)
    (h : ∀ w, ∀ a ∈ items, Grows 1 w (write w a)) (w : Writer) :
    Grows items.length w (items.foldl write w) := by
  induction items generalizing w with
  | nil => exact .refl w
  | cons a items ih =>
    have hfirst := h w a List.mem_cons_self
    have hothers := ih (fun w b hb => h w b (List.mem_cons_of_mem a hb)) (write w a)
    refine (hfirst.trans hothers).weaken ?_
    rw [List.length_cons]
    omega

/-- Writing items one after the other takes what any one of them takes. -/
theorem grows_foldl_of_mem {α : Type} {write : Writer → α → Writer} {taken : α → Nat} {a : α}
    {items : List α} (h : ∀ w, ∀ b ∈ items, Grows (taken b) w (write w b)) (ha : a ∈ items)
    (w : Writer) : Grows (taken a) w (items.foldl write w) := by
  induction items generalizing w with
  | nil => cases ha
  | cons b items ih =>
    have hfirst := h w b List.mem_cons_self
    have hrest := fun w c hc => h w c (List.mem_cons_of_mem b hc)
    rcases List.mem_cons.1 ha with rfl | ha
    · have hothers := keeps_foldl (fun w c hc => (hrest w c hc).keeps) (write w a)
      exact (hfirst.trans hothers).weaken (by omega)
    · exact ((hfirst.weaken (Nat.zero_le _)).trans (ih hrest ha (write w b))).weaken (by omega)

end Writer

namespace Reader

/-- The reader of some bytes that stands where a writer stands. -/
def behind (bytes : List UInt8) (w : Writer) : Reader := ⟨w.size, bytes.drop w.size⟩

variable {bytes : List UInt8} {w w' : Writer}

/-- A reader behind nothing stands at the start. -/
theorem behind_empty : behind bytes Writer.empty = ofBytes bytes := rfl

/-- The bytes between two states of a writing are there to be read. -/
theorem left_behind (n : Nat) (h : Writer.Grows n w w') (hb : w'.toList <+: bytes) :
    n ≤ (behind bytes w).left := by
  have hlen := hb.length_le
  have hmore := h.more
  rw [← Writer.size_eq_length] at hlen
  simp only [behind, left, List.length_drop]
  omega

/-- A reader at the end of the writing has nothing left. -/
theorem left_behind_self : (behind w.toList w).left = 0 := by
  simp [behind, left, Writer.size_eq_length]

/-- What is behind a writer's bytes is found by skipping as many. -/
theorem drop_size_of_append {first others : List UInt8} (h : w.toList ++ first ++ others = bytes) :
    bytes.drop w.size = first ++ others := by
  rw [← h, Writer.size_eq_length, List.append_assoc, List.drop_left]

/-- Both sides skip to the same alignment. -/
theorem align_behind (alignment : Nat) :
    (behind bytes w).align alignment = behind bytes (w.align alignment) := by
  simp [align, behind]

/-- The word that was written next is the word that is read next. -/
theorem word_behind {width n : Nat} (hb : (w.word width n).toList <+: bytes)
    (hn : n < Nat.pow 256 width) :
    (behind bytes w).word width = .ok (n, behind bytes (w.word width n)) := by
  obtain ⟨rest, hrest⟩ := hb
  have hdrop : bytes.drop (w.align width).size = littleEndian width n ++ rest := by
    apply drop_size_of_append
    rw [← hrest, Writer.word, Writer.toList_raw]
  have hafter : bytes.drop ((w.align width).size + width) = rest := by
    rw [← List.drop_drop, hdrop, List.drop_left' (length_littleEndian width n)]
  have hsplit : split? width (littleEndian width n ++ rest) = some (littleEndian width n, rest) := by
    have h := split?_append (littleEndian width n) rest
    rwa [length_littleEndian] at h
  unfold word
  rw [align_behind]
  simp only [behind, hdrop, hsplit, number_littleEndian, Nat.mod_eq_of_lt hn]
  rw [Writer.size_word, ← Writer.size_align, hafter]

end Reader

end TickScript.Bytes
