import Mathlib.Data.List.Basic
import Mathlib.Data.List.Forall2
import TickScript.Image

/-!
# Linking keeps the program

Linking replaces texts and shapes by numbers while it fills the tables, so what a number stands for
is only settled once the last text is entered. The tables never lose or move an entry, though, and
that is enough: a number means in the finished tables what it meant when it was handed out
(`Links`). Hence a linked program, with every number replaced by what it stands for, is the program
that was linked (`Image.unlink?_link`).

Numbers have 32 bits, so this is true as long as the finished tables have no more entries than that.
-/

namespace TickScript

/-- A table is never too long for its numbers. -/
structure Image.Numbered (image : Image) : Prop where
  texts : image.texts.length ≤ UInt32.size
  shapes : image.shapes.length ≤ UInt32.size

namespace Tables

/-- Shapes name texts of the table only. -/
def Closed (t : Tables) : Prop := ∀ shape ∈ t.shapes, ∀ id ∈ shape, id.toNat < t.texts.length

/-- Entries are kept at their places, and shapes go on naming texts of the table. -/
structure Keeps (t t' : Tables) : Prop where
  texts : t.texts <+: t'.texts
  shapes : t.shapes <+: t'.shapes
  closed : t.Closed → t'.Closed

/-- Tables keep what they have. -/
theorem Keeps.refl (t : Tables) : Keeps t t := ⟨List.prefix_rfl, List.prefix_rfl, id⟩

/-- What is kept twice is kept. -/
theorem Keeps.trans {a b c : Tables} (h : Keeps a b) (h' : Keeps b c) : Keeps a c :=
  ⟨h.texts.trans h'.texts, h.shapes.trans h'.shapes, fun hc => h'.closed (h.closed hc)⟩

/-- The tables as an image has them. -/
def ofImage (image : Image) : Tables := ⟨image.texts, image.shapes⟩

end Tables

/-! ## Entering -/

section Entering

variable {α : Type} [BEq α]

/-- A table begins as it did before something was entered. -/
theorem prefix_enter (table : List α) (a : α) : table <+: (enter table a).2 := by
  unfold enter
  split
  · exact List.prefix_rfl
  · exact List.prefix_append _ _

/-- The number of what was entered is one of the table. -/
theorem enter_lt (table : List α) (a : α) : (enter table a).1.toNat < (enter table a).2.length := by
  have hle (i : Nat) : (UInt32.ofNat i).toNat ≤ i := by
    rw [UInt32.toNat_ofNat']
    exact Nat.mod_le i _
  unfold enter
  split
  · next i hi => exact Nat.lt_of_le_of_lt (hle i) (List.findIdx?_eq_some_iff_findIdx_eq.1 hi).1
  · rw [List.length_append]
    exact Nat.lt_succ_of_le (hle _)

/-- The table after items were entered one after the other. -/
def enterAll (table as : List α) : List α := as.foldl (fun table a => (enter table a).2) table

/-- A table begins as it did before several things were entered. -/
theorem prefix_enterAll (table as : List α) : table <+: enterAll table as := by
  induction as generalizing table with
  | nil => exact List.prefix_rfl
  | cons a as ih => exact (prefix_enter table a).trans (ih _)

/-- The number of an item that stands in a table. -/
def numberIn (table : List α) (a : α) : UInt32 := UInt32.ofNat (table.idxOf a)

variable [LawfulBEq α]

/-- What is in the table has its number, and the table stays. -/
theorem enter_of_mem {table : List α} {a : α} (h : a ∈ table) :
    enter table a = (UInt32.ofNat (table.idxOf a), table) := by
  have hfound : table.findIdx? (· == a) = some (table.idxOf a) :=
    List.findIdx?_eq_some_iff_findIdx_eq.2 ⟨List.idxOf_lt_length_of_mem h, rfl⟩
  rw [enter, hfound]

/-- What is not in the table gets the next number. -/
theorem enter_of_not_mem {table : List α} {a : α} (h : a ∉ table) :
    enter table a = (UInt32.ofNat table.length, table ++ [a]) := by
  have hfound : table.findIdx? (· == a) = none :=
    List.findIdx?_eq_none_iff.2 fun b hb => beq_eq_false_iff_ne.2 fun hba => h (hba ▸ hb)
  rw [enter, hfound]

/-- What was entered is in the table. -/
theorem mem_enter (table : List α) (a : α) : a ∈ (enter table a).2 := by
  by_cases h : a ∈ table
  · rwa [enter_of_mem h]
  · rw [enter_of_not_mem h]
    exact List.mem_append_right _ (List.mem_singleton_self a)

/-- An item has the same number in the table that it joins and in every later one. -/
theorem fst_enter {table later : List α} {a : α} (h : (enter table a).2 <+: later) :
    (enter table a).1 = numberIn later a := by
  rw [numberIn, ← h.idxOf_eq_of_mem (mem_enter table a)]
  by_cases hmem : a ∈ table
  · rw [enter_of_mem hmem]
  · rw [enter_of_not_mem hmem, List.idxOf_append_of_notMem hmem, List.idxOf_cons_self, Nat.add_zero]

/-- Under its number stands what was entered. -/
theorem getElem?_numberIn {table : List α} (hlen : table.length ≤ UInt32.size) {a : α} (h : a ∈ table) :
    table[(numberIn table a).toNat]? = some a := by
  have hlt : table.idxOf a < UInt32.size := Nat.lt_of_lt_of_le (List.idxOf_lt_length_of_mem h) hlen
  rw [numberIn, UInt32.toNat_ofNat_of_lt' hlt, List.getElem?_idxOf h]

/-- The number of an item finds the item in every later table. -/
theorem getElem?_enter {table later : List α} {a : α} (h : (enter table a).2 <+: later)
    (hlen : later.length ≤ UInt32.size) : later[(enter table a).1.toNat]? = some a := by
  rw [fst_enter h]
  exact getElem?_numberIn hlen (h.subset (mem_enter table a))

end Entering

/-! ## Entering texts -/

/-- Several are done one after the other, with the tables of each for the next. -/
theorem run_mapM_cons {α β : Type} (f : α → StateM Tables β) (a : α) (as : List α) (t : Tables) :
    ((a :: as).mapM f).run t = (((f a).run t).1 :: ((as.mapM f).run ((f a).run t).2).1,
      ((as.mapM f).run ((f a).run t).2).2) := by
  rw [List.mapM_cons]
  rfl

/-- Texts are entered one after the other, and nothing else is. -/
theorem run_texts (names : List String) (t : Tables) :
    ((names.mapM Tables.text).run t).2 = { t with texts := enterAll t.texts names } := by
  induction names generalizing t with
  | nil => rfl
  | cons s names ih =>
    rw [run_mapM_cons, ih]
    rfl

/-! ## Actions on the tables -/

/-- Whatever the tables were before it, the action keeps their entries, and its result is as told if
the tables of `image` keep the entries that are there after it. -/
def Links (image : Image) {β : Type} (act : StateM Tables β) (told : β → Prop) : Prop :=
  ∀ t : Tables, t.Keeps (act.run t).2 ∧ ((act.run t).2.Keeps (.ofImage image) → told (act.run t).1)

namespace Links

variable {image : Image} {α β γ : Type} {told : β → Prop}

theorem pure {b : β} (h : told b) : Links image (Pure.pure b) told :=
  fun t => ⟨.refl t, fun _ => h⟩

/-- What the first action is told to give holds when the second one's result is told, because the
entries after the first action are kept by the second. -/
theorem bind {act : StateM Tables β} {next : β → StateM Tables γ} {told' : γ → Prop}
    (h : Links image act told) (h' : ∀ b, Links image (next b) fun c => told b → told' c) :
    Links image (act >>= next) told' := by
  intro t
  obtain ⟨hkeep, htold⟩ := h t
  obtain ⟨hkeep', htold'⟩ := h' (act.run t).1 (act.run t).2
  refine ⟨hkeep.trans hkeep', fun hlater => ?_⟩
  exact htold' hlater (htold (hkeep'.trans hlater))

theorem map {act : StateM Tables β} {f : β → γ} {told' : γ → Prop} (h : Links image act told)
    (hf : ∀ b, told b → told' (f b)) : Links image (f <$> act) told' :=
  fun t => ⟨(h t).1, fun hlater => hf _ ((h t).2 hlater)⟩

/-- An action for each item of a list. -/
theorem mapM {f : α → StateM Tables β} {R : α → β → Prop} (items : List α)
    (h : ∀ a ∈ items, Links image (f a) (R a)) :
    Links image (items.mapM f) (List.Forall₂ R items) := by
  induction items with
  | nil => exact .pure .nil
  | cons a items ih =>
    rw [List.mapM_cons]
    refine (h a List.mem_cons_self).bind ?_
    intro b
    refine (ih fun a' ha => h a' (List.mem_cons_of_mem a ha)).bind ?_
    intro bs
    exact .pure fun hbs hb => .cons hb hbs

end Links

section

variable {image : Image}

/-- The number of a text stands for it in the image. -/
theorem links_text (hn : image.Numbered) (s : String) :
    Links image (Tables.text s) fun id => image.text? id = some s := by
  intro t
  refine ⟨⟨prefix_enter t.texts s, List.prefix_rfl, fun hc shape hs id hid => ?_⟩, fun hlater => ?_⟩
  · exact Nat.lt_of_lt_of_le (hc shape hs id hid) (prefix_enter t.texts s).length_le
  · exact getElem?_enter hlater.texts hn.texts

/-- Items that stand for others one by one stand for all of them. -/
theorem mapM_eq_some_of_forall₂ {α β : Type} {f : β → Option α} {as : List α} {bs : List β}
    (h : List.Forall₂ (fun a b => f b = some a) as bs) : bs.mapM f = some as := by
  induction h with
  | nil => rfl
  | cons hab _ ih => rw [List.mapM_cons, hab, ih]; rfl

/-- Of two related lists both have an item at a place, or neither has. -/
theorem forall₂_getElem? {α β : Type} {R : α → β → Prop} {as : List α} {bs : List β}
    (h : List.Forall₂ R as bs) (i : Nat) :
    (as[i]? = none ∧ bs[i]? = none) ∨ ∃ a b, as[i]? = some a ∧ bs[i]? = some b ∧ R a b := by
  induction h generalizing i with
  | nil => exact .inl ⟨rfl, rfl⟩
  | cons hab _ ih =>
    cases i with
    | zero => exact .inr ⟨_, _, rfl, rfl, hab⟩
    | succ i => exact ih i

/-- An item of the first list has a related one at its place in the second. -/
theorem getElem?_of_forall₂_left {α β : Type} {R : α → β → Prop} {as : List α} {bs : List β} {i : Nat}
    {a : α} (h : List.Forall₂ R as bs) (ha : as[i]? = some a) : ∃ b, bs[i]? = some b ∧ R a b := by
  rcases forall₂_getElem? h i with ⟨hn, -⟩ | ⟨a', b, ha', hb, hab⟩
  · exact nomatch ha.symm.trans hn
  · cases ha.symm.trans ha'
    exact ⟨b, hb, hab⟩

/-- An item of the second list has a related one at its place in the first. -/
theorem getElem?_of_forall₂_right {α β : Type} {R : α → β → Prop} {as : List α} {bs : List β} {i : Nat}
    {b : β} (h : List.Forall₂ R as bs) (hb : bs[i]? = some b) : ∃ a, as[i]? = some a ∧ R a b :=
  getElem?_of_forall₂_left h.flip hb

/-- An item of the first list is related to one of the second. -/
theorem exists_of_forall₂_left {α β : Type} {R : α → β → Prop} {as : List α} {bs : List β} {a : α}
    (h : List.Forall₂ R as bs) (ha : a ∈ as) : ∃ b ∈ bs, R a b := by
  obtain ⟨i, hi⟩ := List.mem_iff_getElem?.1 ha
  obtain ⟨b, hb, hab⟩ := getElem?_of_forall₂_left h hi
  exact ⟨b, List.mem_of_getElem? hb, hab⟩

/-- An item of the second list is related to one of the first. -/
theorem exists_of_forall₂_right {α β : Type} {R : α → β → Prop} {as : List α} {bs : List β} {b : β}
    (h : List.Forall₂ R as bs) (hb : b ∈ bs) : ∃ a ∈ as, R a b :=
  exists_of_forall₂_left h.flip hb

/-- The numbers of several texts are in the table when the last of them is entered. -/
theorem mapM_text_lt (names : List String) (t : Tables) :
    ∀ id ∈ ((names.mapM Tables.text).run t).1,
      id.toNat < ((names.mapM Tables.text).run t).2.texts.length := by
  induction names generalizing t with
  | nil =>
    intro id hid
    exact nomatch hid
  | cons s names ih =>
    have hgrow : (Tables.text s t).2.texts <+:
        ((names.mapM Tables.text).run (Tables.text s t).2).2.texts := by
      rw [run_texts]
      exact prefix_enterAll _ names
    intro id hid
    rw [run_mapM_cons] at hid ⊢
    rcases List.mem_cons.1 hid with rfl | hid
    · exact Nat.lt_of_lt_of_le (enter_lt t.texts s) hgrow.length_le
    · exact ih (Tables.text s t).2 id hid

/-- The number of a shape stands for its names in the image. -/
theorem links_shape (hn : image.Numbered) (names : List String) :
    Links image (Tables.shape names) fun id => image.shape? id = some names := by
  intro t
  obtain ⟨hkeep, htold⟩ := Links.mapM names (fun s _ => links_text hn s) t
  have hlt := mapM_text_lt names t
  change t.Keeps { ((names.mapM Tables.text).run t).2 with shapes :=
      (enter ((names.mapM Tables.text).run t).2.shapes ((names.mapM Tables.text).run t).1).2 } ∧
    (Tables.Keeps { ((names.mapM Tables.text).run t).2 with shapes :=
      (enter ((names.mapM Tables.text).run t).2.shapes ((names.mapM Tables.text).run t).1).2 }
      (.ofImage image) → image.shape? (enter ((names.mapM Tables.text).run t).2.shapes
        ((names.mapM Tables.text).run t).1).1 = some names)
  generalize (names.mapM Tables.text).run t = done at hkeep htold hlt ⊢
  obtain ⟨ids, t'⟩ := done
  dsimp only at hkeep htold hlt ⊢
  have henter : t'.Keeps { t' with shapes := (enter t'.shapes ids).2 } := by
    refine ⟨List.prefix_rfl, prefix_enter t'.shapes ids, fun hc shape hs => ?_⟩
    unfold enter at hs
    split at hs
    · exact hc shape hs
    · rcases List.mem_append.1 hs with hs | hs
      · exact hc shape hs
      · cases List.mem_singleton.1 hs
        exact hlt
  refine ⟨hkeep.trans henter, fun hlater => ?_⟩
  have hids := htold (henter.trans hlater)
  have hshape : image.shapes[(enter t'.shapes ids).1.toNat]? = some ids :=
    getElem?_enter hlater.shapes hn.shapes
  unfold Image.shape?
  rw [hshape]
  exact mapM_eq_some_of_forall₂ hids

mutual

/-- A linked instruction is the instruction again when its numbers are replaced. -/
theorem links_instr (hn : image.Numbered) (i : Instr String (List String)) :
    Links image (i.mapM Tables.text Tables.shape) fun op =>
      op.mapM image.text? image.shape? = some i := by
  cases i with
  | file s => exact (links_text hn s).map fun id h => by rw [Instr.mapM, h]; rfl
  | pushText s => exact (links_text hn s).map fun id h => by rw [Instr.mapM, h]; rfl
  | objectMember s => exact (links_text hn s).map fun id h => by rw [Instr.mapM, h]; rfl
  | storeMember s => exact (links_text hn s).map fun id h => by rw [Instr.mapM, h]; rfl
  | makeObject shape => exact (links_shape hn shape).map fun id h => by rw [Instr.mapM, h]; rfl
  | branch yes no =>
    refine (links_instrs hn yes).bind ?_
    intro yes'
    refine (links_instrs hn no).bind ?_
    intro no'
    exact .pure fun hno hyes => by rw [Instr.mapM, hyes, hno]; rfl
  | loop body => exact (links_instrs hn body).map fun body' h => by rw [Instr.mapM, h]; rfl
  | tick body => exact (links_instrs hn body).map fun body' h => by rw [Instr.mapM, h]; rfl
  | _ => exact .pure rfl

/-- Linked instructions are the instructions again when their numbers are replaced. -/
theorem links_instrs (hn : image.Numbered) (is : List (Instr String (List String))) :
    Links image (mapInstrsM Tables.text Tables.shape is) fun ops =>
      mapInstrsM image.text? image.shape? ops = some is := by
  cases is with
  | nil => exact .pure rfl
  | cons i is =>
    refine (links_instr hn i).bind ?_
    intro op
    refine (links_instrs hn is).bind ?_
    intro ops
    exact .pure fun hops hop => by rw [mapInstrsM, hop, hops]; rfl

end

/-! ## Whole programs -/

/-- A linked signature, and the signature it stands for. -/
structure SignatureLinked (image : Image) (b : Signature String) (b' : Signature UInt32) : Prop where
  name : image.text? b'.name = some b.name
  arity : b'.arity = b.arity
  cost : b'.cost = b.cost

/-- A linked function, and the function it stands for. -/
structure FunctionLinked (image : Image) (fn : Function String (List String))
    (fn' : Function UInt32 UInt32) : Prop where
  name : image.text? fn'.name = some fn.name
  arity : fn'.arity = fn.arity
  line : fn'.line = fn.line
  file : image.text? fn'.file = some fn.file
  body : mapInstrsM image.text? image.shape? fn'.body = some fn.body

/-- A linked program, and the program it stands for. -/
structure ProgramLinked (image : Image) (p : Program String (List String))
    (q : Program UInt32 UInt32) : Prop where
  builtins : List.Forall₂ (SignatureLinked image) p.builtins q.builtins
  globals : List.Forall₂ (fun s id => image.text? id = some s) p.globals q.globals
  functions : List.Forall₂ (FunctionLinked image) p.functions q.functions
  body : mapInstrsM image.text? image.shape? q.body = some p.body

/-- The heads of functions are linked before their bodies; here each meets its body again. -/
private theorem functionsLinked_of_zip {fns : List (Function String (List String))}
    {heads : List (UInt32 × UInt32)} {fns' : List (Function UInt32 UInt32)}
    (hheads : List.Forall₂ (fun fn (head : UInt32 × UInt32) =>
      image.text? head.1 = some fn.name ∧ image.text? head.2 = some fn.file) fns heads)
    (hfns : List.Forall₂ (fun (x : Function String (List String) × UInt32 × UInt32)
      (fn' : Function UInt32 UInt32) => (fn'.name = x.2.1 ∧ fn'.file = x.2.2) ∧
        (fn'.arity = x.1.arity ∧ fn'.line = x.1.line) ∧
        mapInstrsM image.text? image.shape? fn'.body = some x.1.body) (fns.zip heads) fns') :
    List.Forall₂ (FunctionLinked image) fns fns' := by
  induction hheads generalizing fns' with
  | nil => cases hfns; exact .nil
  | cons hhead _ ih =>
    cases hfns with
    | cons hfn hrest =>
      obtain ⟨⟨hname, hfile⟩, ⟨harity, hline⟩, hbody⟩ := hfn
      refine .cons ⟨?_, harity, hline, ?_, hbody⟩ (ih hrest)
      · rw [hname]; exact hhead.1
      · rw [hfile]; exact hhead.2

/-- A program is linked when all that it mentions is numbered. -/
theorem links_program (hn : image.Numbered) (p : Program String (List String)) :
    Links image (p.mapM Tables.text Tables.shape) (ProgramLinked image p) := by
  unfold Program.mapM
  refine (Links.mapM (R := SignatureLinked image) p.builtins fun b _ => ?_).bind fun builtins => ?_
  · refine (links_text hn b.name).bind ?_
    intro id
    exact .pure fun h => ⟨h, rfl, rfl⟩
  refine (Links.mapM p.globals fun s _ => links_text hn s).bind ?_
  intro globals
  refine (Links.mapM (R := fun fn head => image.text? head.1 = some fn.name ∧
    image.text? head.2 = some fn.file) p.functions fun fn _ => ?_).bind fun heads => ?_
  · refine (links_text hn fn.name).bind ?_
    intro name
    refine (links_text hn fn.file).bind ?_
    intro file
    exact .pure fun hfile hname => ⟨hname, hfile⟩
  refine (Links.mapM (R := fun x fn' => (fn'.name = x.2.1 ∧ fn'.file = x.2.2) ∧
    (fn'.arity = x.1.arity ∧ fn'.line = x.1.line) ∧
    mapInstrsM image.text? image.shape? fn'.body = some x.1.body) (p.functions.zip heads)
    fun x _ => ?_).bind fun functions => ?_
  · refine (links_instrs hn x.1.body).bind ?_
    intro body
    exact .pure fun h => ⟨⟨rfl, rfl⟩, ⟨rfl, rfl⟩, h⟩
  refine (links_instrs hn p.body).bind ?_
  intro body
  exact .pure fun hbody hfunctions hheads hglobals hbuiltins =>
    ⟨hbuiltins, hglobals, functionsLinked_of_zip hheads hfunctions, hbody⟩

end

private theorem some_bind {α β : Type} (a : α) (f : α → Option β) : (some a >>= f) = f a := rfl

/-- Functions that stand for each other, one of them with the head of the other. -/
private theorem forall₂_zip_heads {image : Image} {fns : List (Function String (List String))}
    {fns' : List (Function UInt32 UInt32)}
    {rel : Function String (List String) → Function UInt32 UInt32 × String × String → Prop}
    (h : List.Forall₂ (FunctionLinked image) fns fns')
    (hrel : ∀ fn fn', FunctionLinked image fn fn' → rel fn (fn', fn.name, fn.file)) :
    List.Forall₂ rel fns (fns'.zip (fns.map fun fn => (fn.name, fn.file))) := by
  induction h with
  | nil => exact .nil
  | cons hfn _ ih => exact .cons (hrel _ _ hfn) ih

/-- Replacing the numbers of a linked program gives the program it stands for. -/
theorem ProgramLinked.mapM_eq {image : Image} {p : Program String (List String)}
    {q : Program UInt32 UInt32} (h : ProgramLinked image p q) :
    q.mapM image.text? image.shape? = some p := by
  have hbuiltins : (q.builtins.mapM fun b => do
      let name ← image.text? b.name
      return ({ name, arity := b.arity, cost := b.cost } : Signature String)) = some p.builtins := by
    refine mapM_eq_some_of_forall₂ (h.builtins.imp fun b b' hb => ?_)
    rw [hb.name, hb.arity, hb.cost]
    rfl
  have hglobals : q.globals.mapM image.text? = some p.globals := mapM_eq_some_of_forall₂ h.globals
  have hheads : (q.functions.mapM fun fn => do
      let name ← image.text? fn.name
      let file ← image.text? fn.file
      return (name, file)) = some (p.functions.map fun fn => (fn.name, fn.file)) := by
    refine mapM_eq_some_of_forall₂ (List.forall₂_map_left_iff.2 (h.functions.imp fun fn fn' hfn => ?_))
    rw [hfn.name, hfn.file]
    rfl
  have hfunctions : ((q.functions.zip (p.functions.map fun fn => (fn.name, fn.file))).mapM
      fun (fn, name, file) => do
        let body ← mapInstrsM image.text? image.shape? fn.body
        return ({ name, arity := fn.arity, line := fn.line, file, body } :
          Function String (List String))) = some p.functions := by
    refine mapM_eq_some_of_forall₂ (forall₂_zip_heads h.functions fun fn fn' hfn => ?_)
    dsimp only
    rw [hfn.body, hfn.arity, hfn.line]
    rfl
  rw [Program.mapM, hbuiltins, some_bind, hglobals, some_bind, hheads, some_bind, hfunctions,
    some_bind, h.body, some_bind]
  rfl

/-- The program of an image that was made by linking, as its parts. -/
theorem programLinked_link (p : Program String (List String)) (hn : (Image.link p).Numbered) :
    ProgramLinked (Image.link p) p (Image.link p).program :=
  (links_program hn p ⟨[], []⟩).2 (.refl _)

/-- The shapes of a linked program name texts of its table. -/
theorem closed_link (p : Program String (List String)) (hn : (Image.link p).Numbered) :
    (Tables.ofImage (Image.link p)).Closed :=
  (links_program hn p ⟨[], []⟩).1.closed fun _ hs => nomatch hs

/-- A linked program whose numbers are replaced by what they stand for is the program again. -/
theorem Image.unlink?_link (p : Program String (List String)) (hn : (Image.link p).Numbered) :
    (Image.link p).unlink? = some p :=
  (programLinked_link p hn).mapM_eq

end TickScript
