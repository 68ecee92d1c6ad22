import TickScript.Machine
import TickScript.Proofs.Image.Storage
import TickScript.Proofs.Program.Flow

/-!
# Loading a linked program

A linked program that is stored and loaded again gives a machine at its start (`Machine.load_link`),
since the shapes of its image only name texts that it has. This asks no more of the program than that what is
stored of it can be counted in the words that it is stored with, and what it has in those that number it
(`Program.Storable`). A program whose stored form is shorter than four gibibytes is one.
-/

namespace TickScript

/-- If each item comes to something, so do all. -/
theorem mapM_eq_some_of_forall_mem {α β : Type} (f : α → Option β) (as : List α)
    (h : ∀ a ∈ as, (f a).isSome) : ∃ bs, as.mapM f = some bs := by
  induction as with
  | nil => exact ⟨[], rfl⟩
  | cons a as ih =>
    obtain ⟨b, hb⟩ := Option.isSome_iff_exists.1 (h a List.mem_cons_self)
    obtain ⟨bs, hbs⟩ := ih fun a' ha => h a' (List.mem_cons_of_mem a ha)
    exact ⟨b :: bs, by rw [List.mapM_cons, hb, hbs]; rfl⟩

/-- What all items come to is what each comes to. -/
theorem forall₂_of_mapM_eq_some {α β : Type} {f : α → Option β} {as : List α} {bs : List β}
    (h : as.mapM f = some bs) : List.Forall₂ (fun a b => f a = some b) as bs := by
  induction as generalizing bs with
  | nil =>
    cases h
    exact .nil
  | cons a as ih =>
    rw [List.mapM_cons] at h
    obtain ⟨b, hb, h⟩ := Option.bind_eq_some_iff.1 h
    obtain ⟨bs', hbs, h⟩ := Option.bind_eq_some_iff.1 h
    cases h
    exact .cons hb (ih hbs)

namespace Image

/-- The texts of an image's shapes. -/
def Resolves (image : Image) (shapes : List (List String)) : Prop :=
  image.shapes.mapM (fun names => names.mapM image.text?) = some shapes

/-- The shapes of a linked program can be resolved. -/
theorem exists_resolves {p : Program String (List String)} (hn : (link p).Numbered) :
    ∃ shapes, (link p).Resolves shapes := by
  refine mapM_eq_some_of_forall_mem _ _ ?_
  intro shape hs
  obtain ⟨names, hnames⟩ := mapM_eq_some_of_forall_mem (link p).text? shape fun id hid =>
    Option.isSome_iff_exists.2 ⟨_, List.getElem?_eq_getElem (closed_link p hn shape hs id hid)⟩
  rw [hnames]
  rfl

/-- The names of a shape are found under its number. -/
theorem Resolves.shape {image : Image} {shapes : List (List String)} (h : image.Resolves shapes)
    {id : UInt32} {names : List String} (hs : image.shape? id = some names) :
    shapes[id.toNat]? = some names := by
  obtain ⟨ids, hids, hnames⟩ := Option.bind_eq_some_iff.1 hs
  obtain ⟨names', hget, hnames'⟩ := getElem?_of_forall₂_left (forall₂_of_mapM_eq_some h) hids
  cases hnames.symm.trans hnames'
  exact hget

end Image

/-- A machine that was loaded is at the start of the program that the bytes hold. -/
theorem Machine.load_eq_ok {bytes : List UInt8} {limits : Limits} {m : Machine} :
    Machine.load bytes limits = .ok m ↔ ∃ image shapes, Image.decode bytes = .ok image ∧
      image.Resolves shapes ∧ m = .start image shapes limits := by
  constructor
  · intro h
    unfold Machine.load at h
    split at h
    · exact nomatch h
    · next image hi =>
      split at h
      · exact nomatch h
      · next shapes hs =>
        cases h
        exact ⟨image, shapes, hi, hs, rfl⟩
  · rintro ⟨image, shapes, hi, hs, rfl⟩
    have hs' : image.shapes.mapM (fun names => names.mapM image.text?) = some shapes := hs
    unfold Machine.load
    rw [hi]
    dsimp only
    rw [hs']

/-- An image whose counts fit is loaded as it was stored. -/
theorem Machine.load_of_fits {image : Image} (hfits : image.Fits) {shapes : List (List String)}
    (hs : image.Resolves shapes) (limits : Limits) :
    Machine.load image.encode limits = .ok (.start image shapes limits) :=
  load_eq_ok.2 ⟨image, shapes, Image.decode_encode hfits, hs, rfl⟩

/-! ## Counting in words -/

/-- What a program has can be counted in words of four bytes. This is what lowering relies on where it numbers
something. -/
structure Program.Counted (p : Program String (List String)) : Prop where
  builtins : p.builtins.length ≤ UInt32.size
  globals : p.globals.length ≤ UInt32.size
  functions : p.functions.length ≤ UInt32.size
  bodies : ∀ f ∈ p.functions, countInstrs Instr.isWork f.body < UInt32.size
  body : countInstrs Instr.isWork p.body < UInt32.size

/-- What a program has can be counted in words, and so can what its stored form lists. -/
structure Program.Storable (p : Program String (List String)) : Prop where
  fits : (Image.link p).Fits
  counted : p.Counted

namespace Program.Storable

/-- What can be stored can be numbered. -/
theorem numbered {p : Program String (List String)} (h : p.Storable) : (Image.link p).Numbered :=
  h.fits.numbered

/-- All of it is in the stored form, where each count and each thing that is counted takes some bytes. -/
theorem of_length_encode {p : Program String (List String)}
    (hsize : (Image.link p).encode.length < UInt32.size) : p.Storable := by
  have hfits := Image.fits_of_length_encode hsize
  obtain ⟨hbodies, hbody⟩ := Image.counts_of_length_encode hsize
  have hl := programLinked_link p hfits.numbered
  refine ⟨hfits, ?_, ?_, ?_, fun f hf => ?_, ?_⟩
  · rw [hl.builtins.length_eq]
    exact Nat.le_of_lt hfits.builtins
  · rw [hl.globals.length_eq]
    exact Nat.le_of_lt hfits.globals
  · rw [hl.functions.length_eq]
    exact Nat.le_of_lt hfits.functions
  · obtain ⟨fn, hfn, hlinked⟩ := exists_of_forall₂_left hl.functions hf
    rw [← count_mapInstrsM hlinked.body]
    exact Nat.lt_of_le_of_lt (countInstrs_le _ _) (hbodies fn hfn)
  · rw [← count_mapInstrsM hl.body]
    exact Nat.lt_of_le_of_lt (countInstrs_le _ _) hbody

end Program.Storable

/-- A stored program is loaded as it was linked. -/
theorem Machine.load_link {p : Program String (List String)} (h : p.Storable) {shapes : List (List String)}
    (hs : (Image.link p).Resolves shapes) (limits : Limits) :
    Machine.load (Image.link p).encode limits = .ok (.start (Image.link p) shapes limits) :=
  load_of_fits h.fits hs limits

end TickScript
