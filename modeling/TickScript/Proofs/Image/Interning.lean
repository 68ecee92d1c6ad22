import Mathlib.Data.List.Induction
import Mathlib.Data.List.Nodup
import TickScript.Proofs.Image.Linking

/-!
# The tables of an image

Linking goes through all that a program mentions, in one order: the names of its builtins, globals and
functions first, the bodies of the functions next and the body of the program last (`Program.mentions`).
It does nothing to its tables but number one mention after the other (`run_mentions`), and what is
numbered is entered behind what was mentioned before it, unless it is there already
(`enterAll_eraseDups`). So the tables list each text and each shape once, in the order of first mention
(`Image.tables_minimal`).

A shape is entered by the numbers of its names, which are settled while the table of texts still grows.
They are the places of the names in the finished table all the same (`numberIn`), because a table only
grows at its end. Names are told apart by their numbers as long as the numbers reach, and so are shapes.
-/

namespace TickScript

/-! ## Mentions -/

section Mentions

variable {ν σ : Type}

mutual

/-- The texts and shapes that an instruction mentions, and those inside it. -/
def Instr.mentions : Instr ν σ → List (ν ⊕ σ)
  | .file s => [.inl s]
  | .pushText s => [.inl s]
  | .objectMember s => [.inl s]
  | .storeMember s => [.inl s]
  | .makeObject shape => [.inr shape]
  | .branch yes no => mentionsAll yes ++ mentionsAll no
  | .loop body => mentionsAll body
  | .tick body => mentionsAll body
  | _ => []

/-- The texts and shapes that instructions mention. -/
def mentionsAll : List (Instr ν σ) → List (ν ⊕ σ)
  | [] => []
  | i :: is => i.mentions ++ mentionsAll is

end

/-- The texts and shapes that a program mentions: the names of builtins, globals and functions, with the
files of the functions, before all that the instructions mention. -/
def Program.mentions (p : Program ν σ) : List (ν ⊕ σ) :=
  p.builtins.map (fun b => .inl b.name) ++
    (p.globals.map .inl ++
      (p.functions.flatMap (fun fn => [.inl fn.name, .inl fn.file]) ++
        (p.functions.flatMap (fun fn => mentionsAll fn.body) ++ mentionsAll p.body)))

/-- The shapes among mentions. -/
def shapesOf (ms : List (ν ⊕ σ)) : List σ := ms.filterMap Sum.getRight?

/-- The texts among mentions. The names of a shape stand where the shape is mentioned. -/
def textsOf (ms : List (ν ⊕ List ν)) : List ν := ms.flatMap (Sum.elim (fun s => [s]) id)

end Mentions

/-! ## Numbering -/

/-- Numbers a mention. -/
def Tables.mention : String ⊕ List String → StateM Tables (UInt32 ⊕ UInt32)
  | .inl s => .inl <$> Tables.text s
  | .inr names => .inr <$> Tables.shape names

/-- The action numbers the mentions `ms` and nothing else, and its result is as told about the numbers. -/
def Numbers {β : Type} (act : StateM Tables β) (ms : List (String ⊕ List String))
    (told : β → List (UInt32 ⊕ UInt32) → Prop) : Prop :=
  ∀ t : Tables, (act.run t).2 = ((ms.mapM Tables.mention).run t).2 ∧
    told (act.run t).1 ((ms.mapM Tables.mention).run t).1

namespace Numbers

variable {α β γ : Type} {ms ms' : List (String ⊕ List String)}
  {told : β → List (UInt32 ⊕ UInt32) → Prop} {told' : γ → List (UInt32 ⊕ UInt32) → Prop}

theorem pure {b : β} (h : told b []) : Numbers (Pure.pure b) [] told := fun _ => ⟨rfl, h⟩

/-- Two parts one after the other number what both mention, in their order. -/
theorem bind {act : StateM Tables β} {next : β → StateM Tables γ} (h : Numbers act ms told)
    (h' : ∀ b ns, told b ns → Numbers (next b) ms' fun c ns' => told' c (ns ++ ns')) :
    Numbers (act >>= next) (ms ++ ms') told' := by
  intro t
  obtain ⟨hstate, htold⟩ := h t
  obtain ⟨hstate', htold'⟩ := h' _ _ htold (act.run t).2
  rw [List.mapM_append]
  change ((next (act.run t).1).run (act.run t).2).2 =
      ((ms'.mapM Tables.mention).run ((ms.mapM Tables.mention).run t).2).2 ∧
    told' ((next (act.run t).1).run (act.run t).2).1 (((ms.mapM Tables.mention).run t).1 ++
      ((ms'.mapM Tables.mention).run ((ms.mapM Tables.mention).run t).2).1)
  rw [← hstate]
  exact ⟨hstate', htold'⟩

theorem map {act : StateM Tables β} {f : β → γ} (h : Numbers act ms told)
    (hf : ∀ b ns, told b ns → told' (f b) ns) : Numbers (f <$> act) ms told' :=
  fun t => ⟨(h t).1, hf _ _ (h t).2⟩

theorem last {act : StateM Tables β} {f : β → γ} (h : Numbers act ms told)
    (hf : ∀ b ns, told b ns → told' (f b) ns) : Numbers (act >>= fun b => Pure.pure (f b)) ms told' :=
  fun t => ⟨(h t).1, hf _ _ (h t).2⟩

theorem mono {act : StateM Tables β} {told₂ : β → List (UInt32 ⊕ UInt32) → Prop}
    (h : Numbers act ms told) (hmono : ∀ b ns, told b ns → told₂ b ns) : Numbers act ms told₂ :=
  fun t => ⟨(h t).1, hmono _ _ (h t).2⟩

/-- A text is told its number. -/
theorem text (s : String) : Numbers (Tables.text s) [.inl s] fun id ns => ns = [.inl id] :=
  fun _ => ⟨rfl, rfl⟩

/-- A shape is told its number. -/
theorem shape (names : List String) :
    Numbers (Tables.shape names) [.inr names] fun id ns => ns = [.inr id] :=
  fun _ => ⟨rfl, rfl⟩

/-- An action for each item of a list. -/
theorem mapM {f : α → StateM Tables β} {mentions : α → List (String ⊕ List String)}
    (numbers : β → List (UInt32 ⊕ UInt32)) (R : α → β → Prop) (items : List α)
    (h : ∀ a, Numbers (f a) (mentions a) fun b ns => ns = numbers b ∧ R a b) :
    Numbers (items.mapM f) (items.flatMap mentions) fun bs ns =>
      ns = bs.flatMap numbers ∧ List.Forall₂ R items bs := by
  induction items with
  | nil => exact .pure ⟨rfl, .nil⟩
  | cons a items ih =>
    rw [List.mapM_cons, List.flatMap_cons]
    refine (h a).bind fun b ns hb => ih.last fun bs ns' hbs => ?_
    rw [hb.1, hbs.1]
    exact ⟨rfl, .cons hb.2 hbs.2⟩

end Numbers

mutual

/-- An instruction is told the numbers of what it mentions, in their order. -/
theorem numbers_instr (i : Instr String (List String)) :
    Numbers (i.mapM Tables.text Tables.shape) i.mentions fun op ns => ns = op.mentions := by
  cases i with
  | file s => exact (Numbers.text s).map fun _ _ h => h
  | pushText s => exact (Numbers.text s).map fun _ _ h => h
  | objectMember s => exact (Numbers.text s).map fun _ _ h => h
  | storeMember s => exact (Numbers.text s).map fun _ _ h => h
  | makeObject shape => exact (Numbers.shape shape).map fun _ _ h => h
  | branch yes no =>
    refine (numbers_instrs yes).bind fun yes' ns hyes => (numbers_instrs no).last fun no' ns' hno => ?_
    rw [hyes, hno]
    rfl
  | loop body => exact (numbers_instrs body).map fun _ _ h => h
  | tick body => exact (numbers_instrs body).map fun _ _ h => h
  | _ => exact .pure rfl

theorem numbers_instrs (is : List (Instr String (List String))) :
    Numbers (mapInstrsM Tables.text Tables.shape is) (mentionsAll is) fun ops ns =>
      ns = mentionsAll ops := by
  cases is with
  | nil => exact .pure rfl
  | cons i is =>
    refine (numbers_instr i).bind fun op ns hop => (numbers_instrs is).last fun ops ns' hops => ?_
    rw [hop, hops]
    rfl

end

/-- The heads of functions are numbered before their bodies; here each meets its body again. -/
theorem map_heads {fns : List (Function String (List String))} {heads : List (UInt32 × UInt32)}
    {fns' : List (Function UInt32 UInt32)} (hlen : fns.length = heads.length)
    (h : List.Forall₂ (fun (x : Function String (List String) × UInt32 × UInt32)
      (fn' : Function UInt32 UInt32) => x.2 = (fn'.name, fn'.file)) (fns.zip heads) fns') :
    heads = fns'.map fun fn => (fn.name, fn.file) := by
  rw [← List.map_snd_zip (Nat.le_of_eq hlen.symm)]
  generalize fns.zip heads = pairs at h
  induction h with
  | nil => rfl
  | cons hhead _ ih => rw [List.map_cons, List.map_cons, hhead, ih]

theorem numbers_program (p : Program String (List String)) :
    Numbers (p.mapM Tables.text Tables.shape) p.mentions fun q ns => ns = q.mentions := by
  unfold Program.mapM Program.mentions
  rw [List.map_eq_flatMap, List.map_eq_flatMap]
  refine (Numbers.mapM (fun b => [.inl b.name]) (fun _ _ => True) p.builtins
    fun b => ?_).bind fun builtins ns₁ h₁ => ?_
  · exact (Numbers.text b.name).last fun id ns hid => ⟨hid, trivial⟩
  refine (Numbers.mapM (fun id => [.inl id]) (fun _ _ => True) p.globals
    fun s => ?_).bind fun globals ns₂ h₂ => ?_
  · exact (Numbers.text s).mono fun id ns hid => ⟨hid, trivial⟩
  refine (Numbers.mapM (fun head => [.inl head.1, .inl head.2]) (fun _ _ => True) p.functions
    fun fn => ?_).bind fun heads ns₃ h₃ => ?_
  · refine (Numbers.text fn.name).bind fun name ns hname => (Numbers.text fn.file).last
      fun file ns' hfile => ⟨?_, trivial⟩
    rw [hname, hfile]
    rfl
  have hlen := h₃.2.length_eq
  have hbodies : p.functions.flatMap (fun fn => mentionsAll fn.body) =
      (p.functions.zip heads).flatMap fun x => mentionsAll x.1.body := by
    have hfst := List.map_fst_zip (Nat.le_of_eq hlen)
    exact (congrArg (List.flatMap _) hfst.symm).trans (List.flatMap_map ..)
  rw [hbodies]
  refine (Numbers.mapM (fun fn => mentionsAll fn.body) (fun x fn' => x.2 = (fn'.name, fn'.file))
    (p.functions.zip heads) fun x => ?_).bind fun functions ns₄ h₄ => ?_
  · exact (numbers_instrs x.1.body).last fun body ns hbody => ⟨hbody, rfl⟩
  refine (numbers_instrs p.body).last fun body ns₅ h₅ => ?_
  rw [h₁.1, h₂.1, h₃.1, h₄.1, h₅]
  rw [map_heads hlen h₄.2, List.flatMap_map, List.map_eq_flatMap, List.map_eq_flatMap]

/-- Linking numbers the mentions of a program, from empty tables on. -/
theorem run_mentions (p : Program String (List String)) :
    (p.mentions.mapM Tables.mention).run ⟨[], []⟩ =
      ((Image.link p).program.mentions, ⟨(Image.link p).texts, (Image.link p).shapes⟩) := by
  obtain ⟨hstate, htold⟩ := numbers_program p ⟨[], []⟩
  exact Prod.ext htold hstate.symm

/-! ## First mentions -/

section Distinct

variable {α β : Type} [BEq α] [LawfulBEq α]

/-- What was there already adds nothing at the end. -/
theorem eraseDups_concat_of_mem {l : List α} {a : α} (h : a ∈ l) :
    (l ++ [a]).eraseDups = l.eraseDups := by
  rw [List.eraseDups_append]
  simp [List.removeAll, h]

/-- What was not there comes last. -/
theorem eraseDups_concat_of_not_mem {l : List α} {a : α} (h : a ∉ l) :
    (l ++ [a]).eraseDups = l.eraseDups ++ [a] := by
  rw [List.eraseDups_append]
  simp [List.removeAll, h, List.eraseDups_cons]

/-- No item is left twice. -/
theorem nodup_eraseDups (l : List α) : l.eraseDups.Nodup := by
  induction l using List.reverseRecOn with
  | nil => exact List.nodup_nil
  | append_singleton l a ih =>
    by_cases h : a ∈ l
    · rwa [eraseDups_concat_of_mem h]
    · rw [eraseDups_concat_of_not_mem h, List.nodup_append_comm]
      exact List.nodup_cons.2 ⟨fun hmem => h (List.mem_eraseDups.1 hmem), ih⟩

/-- Items that stay different under a map are the same duplicates before and after it. -/
theorem eraseDups_map [BEq β] [LawfulBEq β] {f : α → β} {l : List α}
    (hf : ∀ a ∈ l, ∀ b ∈ l, f a = f b → a = b) : (l.map f).eraseDups = l.eraseDups.map f := by
  induction l using List.reverseRecOn with
  | nil => rfl
  | append_singleton l a ih =>
    have hl := ih fun b hb c hc => hf b (List.mem_append_left _ hb) c (List.mem_append_left _ hc)
    rw [List.map_append]
    by_cases h : a ∈ l
    · have hmap : f a ∈ l.map f := List.mem_map_of_mem h
      exact (eraseDups_concat_of_mem hmap).trans (by rw [eraseDups_concat_of_mem h, hl])
    · have hmap : f a ∉ l.map f := fun hmem => by
        obtain ⟨b, hb, hba⟩ := List.mem_map.1 hmem
        have hab := hf b (List.mem_append_left _ hb) a (List.mem_append_right _ (List.mem_singleton_self a))
        exact h (hab hba ▸ hb)
      exact (eraseDups_concat_of_not_mem hmap).trans
        (by rw [eraseDups_concat_of_not_mem h, hl, List.map_append]; rfl)

/-- Entering items lists each of them once, in the order of their first mention. -/
theorem enterAll_eraseDups (l as : List α) : enterAll l.eraseDups as = (l ++ as).eraseDups := by
  induction as generalizing l with
  | nil => rw [List.append_nil]; rfl
  | cons a as ih =>
    have henter : (enter l.eraseDups a).2 = (l ++ [a]).eraseDups := by
      by_cases h : a ∈ l
      · rw [enter_of_mem (List.mem_eraseDups.2 h), eraseDups_concat_of_mem h]
      · rw [enter_of_not_mem fun hmem => h (List.mem_eraseDups.1 hmem), eraseDups_concat_of_not_mem h]
    change enterAll (enter l.eraseDups a).2 as = _
    rw [henter, ih, List.append_assoc]
    rfl

/-- Different items of a table have different numbers, as long as a word can count them. -/
theorem numberIn_inj {table : List α} (hlen : table.length ≤ UInt32.size) {a b : α} (ha : a ∈ table)
    (hb : b ∈ table) : numberIn table a = numberIn table b ↔ a = b := by
  refine ⟨fun h => ?_, congrArg _⟩
  have hfound := getElem?_numberIn hlen ha
  rw [h, getElem?_numberIn hlen hb] at hfound
  exact (Option.some.inj hfound).symm

end Distinct

/-! ## Tables -/

namespace Image

/-- The number that stands for a text. -/
def number (image : Image) (s : String) : UInt32 := numberIn image.texts s

/-- The number that stands for a shape, which lists the numbers of its names. -/
def shapeNumber (image : Image) (names : List String) : UInt32 :=
  numberIn image.shapes (names.map image.number)

end Image

section Run

variable {image : Image}

/-- Names that the tables begin with have the numbers of the image. -/
theorem numbers_texts {names : List String} {t : Tables}
    (h : enterAll t.texts names <+: image.texts) :
    ((names.mapM Tables.text).run t).1 = names.map image.number := by
  induction names generalizing t with
  | nil => rfl
  | cons s names ih =>
    have hs : (enter t.texts s).2 <+: image.texts := (prefix_enterAll _ names).trans h
    rw [run_mapM_cons, ih h, List.map_cons]
    exact congrArg (· :: _) (fst_enter hs)

/-- The tables with the texts and shapes of mentions entered, where the image has the numbers of names. -/
def Tables.enterMentions (image : Image) (t : Tables) (ms : List (String ⊕ List String)) : Tables :=
  ⟨enterAll t.texts (textsOf ms), enterAll t.shapes ((shapesOf ms).map (List.map image.number))⟩

/-- Mentions are entered one after the other. -/
theorem Tables.enterMentions_append (t : Tables) (ms ms' : List (String ⊕ List String)) :
    t.enterMentions image (ms ++ ms') = (t.enterMentions image ms).enterMentions image ms' := by
  unfold Tables.enterMentions textsOf shapesOf enterAll
  rw [List.flatMap_append, List.filterMap_append, List.map_append, List.foldl_append, List.foldl_append]

/-- The tables of the image go on from these. -/
structure Tables.Begins (t : Tables) (image : Image) : Prop where
  texts : t.texts <+: image.texts
  shapes : t.shapes <+: image.shapes

/-- Tables that the image still begins with after a mention were such before it. -/
theorem begins_of_mention {m : String ⊕ List String} {t : Tables}
    (h : ((Tables.mention m).run t).2.Begins image) : t.Begins image := by
  cases m with
  | inl s => exact ⟨(prefix_enter t.texts s).trans h.texts, h.shapes⟩
  | inr names =>
    change Tables.Begins ⟨((names.mapM Tables.text).run t).2.texts,
      (enter ((names.mapM Tables.text).run t).2.shapes ((names.mapM Tables.text).run t).1).2⟩ image at h
    rw [run_texts] at h
    exact ⟨(prefix_enterAll t.texts names).trans h.texts, (prefix_enter t.shapes _).trans h.shapes⟩

/-- The same for several mentions. -/
theorem begins_of_mentions {ms : List (String ⊕ List String)} {t : Tables}
    (h : ((ms.mapM Tables.mention).run t).2.Begins image) : t.Begins image := by
  induction ms generalizing t with
  | nil => exact h
  | cons m ms ih =>
    rw [run_mapM_cons] at h
    exact begins_of_mention (ih h)

/-- One mention gets its number in the image, and is entered. -/
theorem run_mention {m : String ⊕ List String} {t : Tables}
    (h : ((Tables.mention m).run t).2.Begins image) :
    (Tables.mention m).run t =
      (m.map image.number image.shapeNumber, t.enterMentions image [m]) := by
  cases m with
  | inl s => exact Prod.ext (congrArg Sum.inl (fst_enter h.texts)) rfl
  | inr names =>
    change Tables.Begins ⟨((names.mapM Tables.text).run t).2.texts,
      (enter ((names.mapM Tables.text).run t).2.shapes ((names.mapM Tables.text).run t).1).2⟩ image at h
    change (Sum.inr (enter ((names.mapM Tables.text).run t).2.shapes
        ((names.mapM Tables.text).run t).1).1,
      Tables.mk ((names.mapM Tables.text).run t).2.texts
        (enter ((names.mapM Tables.text).run t).2.shapes ((names.mapM Tables.text).run t).1).2) = _
    rw [run_texts] at h ⊢
    rw [numbers_texts h.texts] at h ⊢
    refine Prod.ext (congrArg Sum.inr (fst_enter h.shapes)) ?_
    simp [Tables.enterMentions, textsOf, shapesOf, enterAll]

/-- Each mention gets its number in the image, whatever was entered before and after it. -/
theorem run_mapM_mention {ms : List (String ⊕ List String)} {t : Tables}
    (h : ((ms.mapM Tables.mention).run t).2.Begins image) :
    (ms.mapM Tables.mention).run t =
      (ms.map (Sum.map image.number image.shapeNumber), t.enterMentions image ms) := by
  induction ms generalizing t with
  | nil => rfl
  | cons m ms ih =>
    rw [run_mapM_cons] at h ⊢
    rw [ih h, run_mention (begins_of_mentions h), ← List.singleton_append (l := ms),
      Tables.enterMentions_append]
    rfl

end Run

namespace Image

/-- Linking gives each text and each shape its number, and its tables list what the program mentions. -/
theorem link_mentions (p : Program String (List String)) :
    (link p).program.mentions = p.mentions.map (Sum.map (link p).number (link p).shapeNumber) ∧
      (link p).texts = (textsOf p.mentions).eraseDups ∧
      (link p).shapes = ((shapesOf p.mentions).map (List.map (link p).number)).eraseDups := by
  have hrun := run_mentions p
  have hbegins : ((p.mentions.mapM Tables.mention).run ⟨[], []⟩).2.Begins (link p) := by
    rw [hrun]
    exact ⟨List.prefix_rfl, List.prefix_rfl⟩
  rw [run_mapM_mention hbegins] at hrun
  obtain ⟨hmentions, htables⟩ := Prod.mk.inj hrun
  obtain ⟨htexts, hshapes⟩ := Tables.mk.inj htables
  refine ⟨hmentions.symm, htexts.symm.trans ?_, hshapes.symm.trans ?_⟩
  · exact enterAll_eraseDups [] _
  · exact enterAll_eraseDups [] _

/-- The texts of a shape that is mentioned are mentioned. -/
theorem mem_textsOf {ms : List (String ⊕ List String)} {names : List String} {s : String}
    (h : names ∈ shapesOf ms) (hs : s ∈ names) : s ∈ textsOf ms := by
  obtain ⟨m, hm, hget⟩ := List.mem_filterMap.1 h
  exact List.mem_flatMap.2 ⟨m, hm, by rw [Sum.getRight?_eq_some_iff.1 hget]; exact hs⟩

/-- The numbers of the names of a mentioned shape stand for the names. -/
theorem mapM_text?_number {p : Program String (List String)} (hn : (link p).Numbered)
    {names : List String} (h : names ∈ shapesOf p.mentions) :
    (names.map (link p).number).mapM (link p).text? = some names := by
  refine mapM_eq_some_of_forall₂ (List.forall₂_map_right_iff.2 (List.forall₂_same.2 fun s hs => ?_))
  refine getElem?_numberIn hn.texts ?_
  rw [(link_mentions p).2.1]
  exact List.mem_eraseDups.2 (mem_textsOf h hs)

/-- Shapes that are mentioned are known by the numbers of their texts. -/
theorem map_number_inj {p : Program String (List String)} (hn : (link p).Numbered)
    {names names' : List String} (h : names ∈ shapesOf p.mentions) (h' : names' ∈ shapesOf p.mentions)
    (heq : names.map (link p).number = names'.map (link p).number) : names = names' := by
  have hread := mapM_text?_number hn h
  rw [heq, mapM_text?_number hn h'] at hread
  exact (Option.some.inj hread).symm

/-- Shapes that are mentioned have one number only if they have the same names. -/
theorem shapeNumber_inj {p : Program String (List String)} (hn : (link p).Numbered)
    {names names' : List String} (h : names ∈ shapesOf p.mentions) (h' : names' ∈ shapesOf p.mentions) :
    (link p).shapeNumber names = (link p).shapeNumber names' ↔ names = names' := by
  have hmem {names : List String} (h : names ∈ shapesOf p.mentions) :
      names.map (link p).number ∈ (link p).shapes := by
    rw [(link_mentions p).2.2]
    exact List.mem_eraseDups.2 (List.mem_map_of_mem h)
  refine ⟨fun heq => map_number_inj hn h h' ?_, congrArg _⟩
  exact (numberIn_inj hn.shapes (hmem h) (hmem h')).1 heq

/-- The shapes of the table, by the names that they stand for. -/
theorem mapM_shapes {p : Program String (List String)} (hn : (link p).Numbered) :
    (link p).shapes.mapM (List.mapM (link p).text?) = some (shapesOf p.mentions).eraseDups := by
  have hshapes : (link p).shapes = (shapesOf p.mentions).eraseDups.map (List.map (link p).number) :=
    (link_mentions p).2.2.trans (eraseDups_map fun _ h _ h' heq => map_number_inj hn h h' heq)
  rw [hshapes]
  refine mapM_eq_some_of_forall₂ (List.forall₂_map_right_iff.2 (List.forall₂_same.2 fun names h => ?_))
  exact mapM_text?_number hn (List.mem_eraseDups.1 h)

theorem shapesOf_map {ν σ ν' σ' : Type} (f : ν → ν') (g : σ → σ') (ms : List (ν ⊕ σ)) :
    shapesOf (ms.map (Sum.map f g)) = (shapesOf ms).map g := by
  unfold shapesOf
  rw [List.filterMap_map, List.map_filterMap]
  congr 1
  funext m
  cases m <;> rfl

/-- The tables of an image have no entry twice. The texts are those that the program mentions, by first
mention, and the shapes are those that it mentions, by first mention, with the numbers of their names for
the names. While the numbers reach, the table of shapes lists the shapes of the program each once, and
two shapes have the same number only if they list the same names. -/
theorem tables_minimal (p : Program String (List String)) :
    (link p).texts.Nodup ∧ (link p).shapes.Nodup ∧
      (link p).texts = (textsOf p.mentions).eraseDups ∧
      (link p).shapes = ((shapesOf p.mentions).map (List.map (link p).number)).eraseDups ∧
      (link p).program.mentions = p.mentions.map (Sum.map (link p).number (link p).shapeNumber) ∧
      ((link p).Numbered →
        (link p).shapes.mapM (List.mapM (link p).text?) = some (shapesOf p.mentions).eraseDups ∧
          ∀ i j : Nat, (shapesOf (link p).program.mentions)[i]? = (shapesOf (link p).program.mentions)[j]? ↔
            (shapesOf p.mentions)[i]? = (shapesOf p.mentions)[j]?) := by
  obtain ⟨hmentions, htexts, hshapes⟩ := link_mentions p
  refine ⟨htexts ▸ nodup_eraseDups _, hshapes ▸ nodup_eraseDups _, htexts, hshapes, hmentions,
    fun hn => ⟨mapM_shapes hn, fun i j => ?_⟩⟩
  rw [hmentions, shapesOf_map, List.getElem?_map, List.getElem?_map]
  refine ⟨fun heq => ?_, congrArg _⟩
  cases hi : (shapesOf p.mentions)[i]? with
  | none =>
    rw [hi, Option.map_none] at heq
    exact (Option.map_eq_none_iff.1 heq.symm).symm
  | some names =>
    rw [hi, Option.map_some] at heq
    obtain ⟨names', hj, hnumber⟩ := Option.map_eq_some_iff.1 heq.symm
    have hsame := shapeNumber_inj hn (List.mem_of_getElem? hj) (List.mem_of_getElem? hi)
    rw [hj, hsame.1 hnumber]

/-- A program that makes objects of one shape in its function and in its body, and of another in between. -/
def sharing : Program String (List String) where
  builtins := [⟨"print", 1, 10⟩]
  globals := ["a"]
  functions := [⟨"f", 0, 3, "main.bt", [.makeObject ["b", "a"], .giveBack]⟩]
  body := [.loop [.makeObject ["print"], .makeObject ["b", "a"]]]

theorem tables_minimal_sharing :
    (link sharing).Numbered ∧ (link sharing).texts = ["print", "a", "f", "main.bt", "b"] ∧
      (link sharing).shapes = [[4, 1], [0]] ∧
      (link sharing).shapes.mapM (List.mapM (link sharing).text?) = some [["b", "a"], ["print"]] ∧
      ∀ i j : Nat, [0, 1, (0 : UInt32)][i]? = [0, 1, (0 : UInt32)][j]? ↔
        [["b", "a"], ["print"], ["b", "a"]][i]? = [["b", "a"], ["print"], ["b", "a"]][j]? := by
  have hn : (link sharing).Numbered := ⟨by decide, by decide⟩
  have hshapes := (tables_minimal sharing).2.2.2.2.2 hn
  exact ⟨hn, by decide, by decide, hshapes⟩

end Image

end TickScript
