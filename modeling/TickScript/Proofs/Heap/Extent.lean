import TickScript.Heap.Display
import TickScript.Proofs.Decimal.Lengths
import TickScript.Proofs.Machine.Contents

/-!
# How long shown values are

A value is shown as a tree, so a part that is shared is shown once for each way to it. What bounds the
tree is its depth, and how many parts each of its values has: a part takes `valueSize` bytes of its cell,
which are charged. So each level of nesting costs a factor (`size_display_le`), and there is no bound
without that: a part may be shared by all parts of the level above it.
-/

namespace TickScript

/-! ## Where texts come from -/

/-- Texts outside of the heap and the names of members are texts of the program, and an array has room
for its items. -/
def Norm.ofTexts (texts : List String) : Norm where
  value
    | .text none s => s ∈ texts
    | _ => True
  body
    | .object names _ => ∀ s ∈ names, s ∈ texts
    | .array capacity items => items.length ≤ capacity
    | _ => True

/-- The texts of a program and those of its shapes are within the norm that is made of them. -/
theorem Norm.allows_ofTexts {image : Image} {shapes : List (List String)} {limits : Limits}
    (hshapes : ∀ names ∈ shapes, ∀ s ∈ names, s ∈ image.texts) :
    (Norm.ofTexts image.texts).Allows image shapes limits where
  null := trivial
  int _ := trivial
  float _ := trivial
  literal _ _ hs := List.mem_of_getElem? hs
  text _ _ := ⟨trivial, trivial⟩
  tupleBody _ _ := trivial
  tuple _ _ _ _ _ := trivial
  objectBody names hnames _ _ := hshapes names hnames
  object _ := trivial
  arrayBody _ _ := Nat.le_refl _
  array _ := trivial
  setMember _ _ _ _ hb := hb
  setItem capacity items i v hb := by
    show (items.set i v).length ≤ capacity
    rw [List.length_set]
    exact hb
  push capacity items v hb _ := by
    show (items ++ [v]).length ≤ _
    have hroom : items.length ≤ capacity := hb
    rw [List.length_append, List.length_singleton]
    split
    · omega
    · unfold Heap.grownCapacity
      omega
  pop capacity items hb := by
    show items.dropLast.length ≤ capacity
    have hroom : items.length ≤ capacity := hb
    rw [List.length_dropLast]
    omega

/-! ## Parts -/

/-- Parts that are bounded with their separators make a bounded text. -/
theorem size_intercalate_le {sep : String} {texts : List String} {bound : Nat}
    (h : ∀ s ∈ texts, s.utf8ByteSize + sep.utf8ByteSize ≤ bound) :
    (sep.intercalate texts).utf8ByteSize ≤ texts.length * bound := by
  have hall : textSizes texts + texts.length * sep.utf8ByteSize ≤ texts.length * bound := by
    induction texts with
    | nil => simp [textSizes]
    | cons s texts ih =>
      obtain ⟨hs, htexts⟩ := List.forall_mem_cons.1 h
      have hrest := ih htexts
      rw [textSizes_cons, List.length_cons, Nat.add_one_mul, Nat.add_one_mul]
      omega
  have hlast := Nat.mul_le_mul_right sep.utf8ByteSize (Nat.sub_le texts.length 1)
  rw [size_intercalate]
  omega

variable {s : Books} {texts : List String} {memory : Nat}

namespace Books.Exact

/-- Each value that a cell holds is charged for. -/
theorem length_held_le (hx : s.Exact) (hn : (Norm.ofTexts texts).Holds s) (hu : s.heap.used ≤ memory)
    {r : Ref} {b : Body} (hb : s.heap.body? r = some b) : b.held.length ≤ memory / valueSize := by
  obtain ⟨c, hc, rfl⟩ := Heap.body?_eq_some hb
  have hcharge := (hx.charge_le_used hc).trans hu
  have hbody := hn.bodies c (Heap.cell?_eq_some hc).1
  refine (Nat.le_div_iff_mul_le (by decide)).2 ?_
  rw [Nat.mul_comm]
  cases hcb : c.body with
  | text s => exact Nat.zero_le _
  | tuple items | object names values =>
    rw [hcb, Body.charge] at hcharge
    rw [Body.held]
    omega
  | array capacity items =>
    rw [hcb] at hbody
    rw [hcb, Body.charge] at hcharge
    have hroom : valueSize * items.length ≤ valueSize * capacity := Nat.mul_le_mul_left _ hbody
    rw [Body.held]
    omega

/-- A text of the heap is charged for, and any other is a text of the program. -/
theorem size_text_le (hx : s.Exact) (hn : (Norm.ofTexts texts).Holds s) (hu : s.heap.used ≤ memory)
    {cell : Option Ref} {text : String} (hv : .text cell text ∈ s.all) :
    text.utf8ByteSize ≤ memory + textSizes texts := by
  cases cell with
  | none => exact (size_le_textSizes (hn.values _ hv)).trans (Nat.le_add_left _ _)
  | some r =>
    obtain ⟨c, hc, hshows⟩ := hx.exists_cell? hv rfl
    have hcharge := (hx.charge_le_used hc).trans hu
    have hbody : c.body = .text text := hshows
    rw [hbody, Body.charge] at hcharge
    omega

end Books.Exact

/-! ## Values -/

/-- What a value without parts may take: enough for a quoted text, and for each number. -/
def leafSize (memory texts : Nat) : Nat := 64 * (memory + texts) + 4096

/-- What a value may take that is shown down to a depth. -/
def shownSize (memory texts depth : Nat) : Nat := (memory / valueSize + 1) ^ depth * leafSize memory texts

/-- A value that nothing is inside of is shown in as little as any. -/
theorem leafSize_le_shownSize (memory texts depth : Nat) :
    leafSize memory texts ≤ shownSize memory texts depth :=
  Nat.le_mul_of_pos_left _ (Nat.pow_pos (Nat.succ_pos _))

/-- Parts between two brackets. There is room left for a name, an equals sign and a comma, with which the
value may be a part itself. -/
theorem size_enclosed_le {memory K depth : Nat} {opening closing : String} {parts : List String}
    (hopening : opening.utf8ByteSize = 1) (hclosing : closing.utf8ByteSize = 1)
    (hlength : parts.length ≤ memory / valueSize)
    (hparts : ∀ part ∈ parts, part.utf8ByteSize + 2 ≤ shownSize memory K depth) :
    (opening ++ ", ".intercalate parts ++ closing).utf8ByteSize + (K + 5) ≤
      shownSize memory K (depth + 1) := by
  have hinner : (", ".intercalate parts).utf8ByteSize ≤ parts.length * shownSize memory K depth :=
    size_intercalate_le hparts
  have hfew := Nat.mul_le_mul_right (shownSize memory K depth) hlength
  have hone := leafSize_le_shownSize memory K depth
  have hsucc : shownSize memory K (depth + 1) =
      memory / valueSize * shownSize memory K depth + shownSize memory K depth := by
    rw [shownSize, Nat.pow_succ, Nat.mul_right_comm, Nat.mul_add_one, Nat.mul_comm _ (memory / valueSize)]
    rfl
  rw [leafSize] at hone
  rw [String.utf8ByteSize_append, String.utf8ByteSize_append, hsucc, hopening, hclosing]
  omega

/-- **A shown value is as long as its depth allows.** -/
theorem Books.Exact.size_display_le (hx : s.Exact) (hn : (Norm.ofTexts texts).Holds s)
    (hu : s.heap.used ≤ memory) (alone : Bool) (depth : Nat) {v : Value} (hv : v ∈ s.all) :
    (s.heap.display alone depth v).utf8ByteSize + (textSizes texts + 5) ≤
      shownSize memory (textSizes texts) depth := by
  induction depth generalizing alone v with
  | zero =>
    have hdots : "...".utf8ByteSize = 3 := rfl
    rw [Heap.display, shownSize, Nat.pow_zero, Nat.one_mul, leafSize, hdots]
    omega
  | succ depth ih =>
    -- A leaf has its bound at every depth, so only what holds values needs the induction.
    have hleaf := leafSize_le_shownSize memory (textSizes texts) (depth + 1)
    rw [leafSize] at hleaf
    cases v with
    | null =>
      have hnull : "null".utf8ByteSize = 4 := rfl
      rw [Heap.display, hnull]
      omega
    | int i =>
      have hint := Decimal.size_int64Text_le i
      rw [Heap.display]
      omega
    | float x =>
      have hfloat := Decimal.size_floatText_le x
      rw [Heap.display]
      omega
    | text cell text =>
      have htext := hx.size_text_le hn hu hv
      have hquoted := Text.size_quoted_le text
      rw [Heap.display]
      split
      · omega
      · omega
    | tuple r flat items =>
      -- The items that a tuple value carries are those of its cell, which the charges bound.
      obtain ⟨c, hc, hshows⟩ := hx.exists_cell? hv rfl
      have hbody : s.heap.body? r = some (.tuple items) := by
        rw [Heap.body?, hc]
        exact congrArg some hshows
      have hlength := hx.length_held_le hn hu hbody
      rw [Heap.display]
      refine size_enclosed_le rfl rfl ?_ ?_
      · rw [List.length_map]
        exact hlength
      · intro part hpart
        obtain ⟨w, hw, rfl⟩ := List.mem_map.1 hpart
        have hshown := ih false (List.mem_append_right _ (hx.mem_held_of_tuple hv hw))
        omega
    | object r =>
      rw [Heap.display, Heap.members]
      split
      · next names values hbody =>
        have hlength := hx.length_held_le hn hu hbody
        refine size_enclosed_le rfl rfl ?_ ?_
        · rw [List.length_map, List.length_zip]
          exact (Nat.min_le_right _ _).trans hlength
        · intro part hpart
          obtain ⟨⟨called, w⟩, hw, rfl⟩ := List.mem_map.1 hpart
          obtain ⟨hcalled, hw⟩ := List.of_mem_zip hw
          have hname := size_le_textSizes (hn.body hbody called hcalled)
          have hshown := ih false (List.mem_append_right _ (Heap.mem_held hbody hw))
          have hequals : " = ".utf8ByteSize = 3 := rfl
          simp only [String.utf8ByteSize_append, hequals]
          omega
      · exact size_enclosed_le rfl rfl (Nat.zero_le _) (List.forall_mem_nil _)
    | array r =>
      rw [Heap.display, Heap.items]
      split
      · next capacity items hbody =>
        have hlength := hx.length_held_le hn hu hbody
        refine size_enclosed_le rfl rfl ?_ ?_
        · rw [List.length_map]
          exact hlength
        · intro part hpart
          obtain ⟨w, hw, rfl⟩ := List.mem_map.1 hpart
          have hshown := ih false (List.mem_append_right _ (Heap.mem_held hbody hw))
          omega
      · exact size_enclosed_le rfl rfl (Nat.zero_le _) (List.forall_mem_nil _)

end TickScript
