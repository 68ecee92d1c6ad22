import TickScript.Proofs.Builtin.Numbering
import TickScript.Proofs.Machine.Control
import TickScript.Proofs.Program.Callees
import TickScript.Proofs.Tick.Contents
import TickScript.Proofs.Tick.Soundness

/-!
# Calls of the host by name

A program calls functions of the host by the numbers that they had when it was compiled. A machine asks its
host for nothing but the numbers in its code (`Machine.mem_builtinCalls_of_request`), the image records their
names, and a registry runs a function only for a number that the image has recorded under the name of the
function (`Registry.dispatch_cases`). As names keep their numbers, a program can be run with more modules than
it was compiled for, and calls what was registered last by the names that the script calls.
-/

namespace TickScript

variable {κ : Type}

/-! ## What a machine asks for -/

/-- The block of an instruction calls nothing that the instruction does not. -/
theorem Frame.builtinCallsOf_subset {f : Frame} {op : Op} (h : f.IsBlockOf op) :
    builtinCallsOf f.body ⊆ op.builtinCalls := by
  cases op with
  | branch yes no =>
    rcases h.2 with hb | hb <;> rw [hb]
    · exact List.subset_append_left _ _
    · exact List.subset_append_right _ _
  | loop body | tick body =>
    rw [h.2]
    exact List.Subset.refl _
  | _ => exact h.elim

/-- Frames run nothing but code of the program. -/
theorem Stacked.builtinCallsOf_subset {image : Image} {frames : List Frame} {calls : List CallSite}
    (h : Stacked image frames calls) : ∀ f ∈ frames, builtinCallsOf f.body ⊆ image.program.builtinCalls := by
  induction h with
  | @bottom f _ body =>
    intro g hg
    rw [List.mem_singleton.1 hg, body]
    exact List.subset_append_right _ _
  | @block f g frames _ op passed owned _ _ ih =>
    intro f' hf'
    rcases List.mem_cons.1 hf' with rfl | hf'
    · obtain ⟨before, hbody⟩ := passed
      have hop : op ∈ g.body := by
        rw [hbody]
        exact List.mem_append_right _ List.mem_cons_self
      have hblock := List.Subset.trans (Frame.builtinCallsOf_subset owned) (builtinCalls_subset hop)
      exact List.Subset.trans hblock (ih g List.mem_cons_self)
    · exact ih f' hf'
  | @called f g _ _ _ _ function _ _ found body _ _ _ ih =>
    intro f' hf'
    rcases List.mem_cons.1 hf' with rfl | hf'
    · intro id hid
      rw [body] at hid
      exact List.mem_append_left _ (List.mem_flatMap.2 ⟨function, List.mem_of_getElem? found, hid⟩)
    · exact ih f' hf'

/-- Whatever a host has done with a machine, the machine asks for a number that its code calls. -/
theorem Machine.mem_builtinCalls_of_request {image : Image} {shapes : List (List String)} {limits : Limits}
    {deeds : List Deed} {m' : Machine} {id : UInt32} {args : List Value}
    (h : ((start image shapes limits).after deeds).step = (m', .request id args)) :
    id ∈ image.program.builtinCalls ∧ m'.image = image := by
  obtain ⟨hgoverned, himage⟩ : ((start image shapes limits).after deeds).Governed ∧
      ((start image shapes limits).after deeds).image = image := by
    refine after_induction (P := fun m => m.Governed ∧ m.image = image) ?_
      ⟨fun _ => orderly_start image shapes limits, rfl⟩ deeds
    intro m d hm
    exact ⟨governed_perform hm.1 d, (program_perform m d).1.trans hm.2⟩
  generalize (start image shapes limits).after deeds = m at h hgoverned himage
  obtain ⟨hexecutes, f, frames, rest, hframes, hrest, -⟩ := callBuiltin_of_request h
  have hfault : m.fault? = none := by
    unfold fault?
    rw [(m.executes_iff.1 hexecutes).1]
  have hstacked := (hgoverned hfault).stacked
  rw [hframes, himage] at hstacked
  refine ⟨hstacked.builtinCallsOf_subset f List.mem_cons_self ?_, ?_⟩
  · obtain ⟨before, hbody⟩ := hstacked.rest_suffix
    have hop : .callBuiltin id ∈ f.body := by
      rw [← hbody, hrest]
      exact List.mem_append_right _ List.mem_cons_self
    exact builtinCalls_subset hop List.mem_cons_self
  · have hprogram := (program_perform m .step).1
    rw [perform, h] at hprogram
    exact hprogram.trans himage

/-! ## What a registry runs -/

namespace Registry

/-- The function at a number is run if the image knows the number by its name. -/
theorem dispatch_eq_serve {r : Registry κ} {m : Machine} {id : UInt32} {b : Builtin κ}
    (hb : r.builtins[id.toNat]? = some b) (hname : m.image.builtinName? id = some b.name) (c : κ)
    (args : List Value) : r.dispatch m c id args = b.serve m c args :=
  dispatch_of_meant (meant?_eq_some.2 ⟨hb, hname⟩) c args

/-- A registry runs the function that the image has recorded by its name, or it refuses the call. -/
theorem dispatch_cases (r : Registry κ) (m : Machine) (c : κ) (id : UInt32) (args : List Value) :
    (∃ b, r.builtins[id.toNat]? = some b ∧ m.image.builtinName? id = some b.name ∧
        r.dispatch m c id args = b.serve m c args) ∨
      r.dispatch m c id args =
        (.error (m.faultOf .badBuiltin none), { m with heap := m.heap.release args }, c) := by
  cases hb : r.meant? m.image id with
  | some b =>
    obtain ⟨hget, hname⟩ := meant?_eq_some.1 hb
    exact .inl ⟨b, hget, hname, dispatch_eq_serve hget hname c args⟩
  | none => exact .inr (dispatch_of_not_meant hb c args)

/-- The function that was registered last by the name that a registry has at a number is run for the number,
also when more modules are registered. -/
theorem dispatch_extended {modules more : List (Module κ)} {id : UInt32} {s : String} {m : Machine}
    (hs : (ofModules modules).names[id.toNat]? = some s) (hname : m.image.builtinName? id = some s) (c : κ)
    (args : List Value) :
    ∃ b, ((registered (modules ++ more)).reverse.find? fun b => b.name == s) = some b ∧
      (ofModules (modules ++ more)).dispatch m c id args = b.serve m c args := by
  have hid := id?_ofModules_append (id?_of_names (nodup_ofModules modules) hs) more
  have hget := get?_eq (ofModules (modules ++ more)) s
  rw [hid, get?_ofModules] at hget
  cases hb : (ofModules (modules ++ more)).builtins[id.toNat]? with
  | none => exact absurd (lt_of_id? hid) (Nat.not_lt.2 (List.getElem?_eq_none_iff.1 hb))
  | some b =>
    have hs' := names_of_id? hid
    rw [names, List.getElem?_map, hb] at hs'
    exact ⟨b, hget.trans hb, dispatch_eq_serve hb (hname.trans hs'.symm) c args⟩

/-- A script that was compiled for modules loads, and calls the functions that were registered last by the
names that it calls, also when it is run with more modules. -/
theorem calls_extended (modules more : List (Module κ)) {files : List SourceFile} {features : FeatureSet}
    {bytes : List UInt8} (hc : compile files features (ofModules modules).signatures = .ok bytes)
    (hstorable : ∀ p, compileProgram files features (ofModules modules).signatures = .ok p → p.Storable) :
    ∃ script image, (tokenizeFiles files >>= Parser.parse) = .ok script ∧ Image.decode bytes = .ok image ∧
      image.CallsAs script ∧ ∀ limits, ∃ m₀, Machine.load bytes limits = .ok m₀ ∧
        ∀ (deeds : List Machine.Deed) (m : Machine) (id : UInt32) (args : List Value) (c : κ),
          (m₀.after deeds).step = (m, .request id args) → id ∈ image.program.builtinCalls ∧
            ∃ s b, image.builtinName? id = some s ∧
              ((registered (modules ++ more)).reverse.find? fun b => b.name == s) = some b ∧
              (ofModules (modules ++ more)).dispatch m c id args = b.serve m c args := by
  obtain ⟨p, hcompiled, rfl⟩ := compile_eq_ok hc
  obtain ⟨script, hparse, hp⟩ := compileProgram_eq_ok.1 hcompiled
  have hs := hstorable p hcompiled
  have hcalls := callsAs_link hp hs
  obtain ⟨shapes, hshapes⟩ := Image.exists_resolves hs.numbered
  have hbuiltins : p.builtins = (ofModules modules).signatures := by
    obtain ⟨d, functions, body, -, -, -, rfl⟩ := lowerScript_eq_ok hp
    rfl
  refine ⟨script, Image.link p, hparse, Image.decode_encode hs.fits, hcalls,
    fun limits => ⟨_, Machine.load_link hs hshapes limits, fun deeds m id args c hstep => ?_⟩⟩
  obtain ⟨hmem, himage⟩ := Machine.mem_builtinCalls_of_request hstep
  obtain ⟨s, hname⟩ := hcalls.exists_name hmem
  have hnames : (ofModules modules).names[id.toNat]? = some s := by
    rw [builtinName?_of_linked (programLinked_link p hs.numbered), hbuiltins, signatures,
      List.getElem?_map, Option.map_map] at hname
    rw [names, List.getElem?_map]
    exact hname
  obtain ⟨b, hfind, hdispatch⟩ := dispatch_extended hnames (himage ▸ hname) c args
  exact ⟨hmem, s, b, hname, hfind, hdispatch⟩

/-! ## The numbers that are written down -/

/-- A host that writes numbers down finds the function of a name under the number of the name, as does the
compiler, and the number stays when more modules are registered. -/
theorem ids_ofModules {modules more : List (Module κ)}
    (hn : (ofModules (modules ++ more)).builtins.length ≤ UInt32.size) (s : String) :
    (Ledger.ofModules modules).get? s = (ofModules modules).get? s ∧
      ∀ b, (ofModules modules).get? s = some b → ∃ id,
        (ofModules modules).builtins[id.toNat]? = some b ∧ (Ledger.ofModules modules).ids s = some id ∧
        Names.entryWhere? (fun sig => sig.name == s) (ofModules modules).signatures =
          some (b.signature, id) ∧
        (Ledger.ofModules (modules ++ more)).ids s = some id := by
  have hfirst : (ofModules modules).builtins.length ≤ UInt32.size := by
    rw [ofModules_append] at hn
    exact Nat.le_trans (length_le_foldl_insert _ _) hn
  have hrecords := Ledger.records_ofModules hfirst
  refine ⟨hrecords.get?_eq hfirst s, fun b hb => ?_⟩
  obtain ⟨id, hentry, hid, hget⟩ := entryWhere?_signatures hfirst hb
  refine ⟨id, hget, ?_, hentry, ?_⟩
  · rw [hrecords.ids, hid, Option.map_some, UInt32.ofNat_toNat]
  · rw [(Ledger.records_ofModules hn).ids, id?_ofModules_append hid more, Option.map_some,
      UInt32.ofNat_toNat]

/-- **Functions of the host are called by name.** However modules were registered, no name has two functions,
the function of a name is the one that was registered last, and it stands where it is numbered, as written
down by the host and as found by the compiler; further modules leave the number as it is. So a script that was
compiled for modules and is run with more of them calls, for each name that it calls, what was registered
last by this name. With any registry at all, a call runs the function whose name the image has recorded for
the number, or is refused. A number has four bytes, so only so many names can be written down, and only so much
can be counted in a stored image. -/
theorem dispatch_by_name (modules more : List (Module κ)) :
    ((ofModules modules).names.Nodup ∧
      ∀ s, (ofModules modules).get? s = ((registered modules).reverse.find? fun b => b.name == s) ∧
        ∀ b, (ofModules modules).get? s = some b → ∃ i, (ofModules modules).builtins[i]? = some b ∧
          (ofModules modules).id? s = some i ∧ (ofModules (modules ++ more)).id? s = some i) ∧
    ((ofModules (modules ++ more)).builtins.length ≤ UInt32.size → ∀ s,
      (Ledger.ofModules modules).get? s = (ofModules modules).get? s ∧
        ∀ b, (ofModules modules).get? s = some b → ∃ id,
          (ofModules modules).builtins[id.toNat]? = some b ∧ (Ledger.ofModules modules).ids s = some id ∧
          Names.entryWhere? (fun sig => sig.name == s) (ofModules modules).signatures =
            some (b.signature, id) ∧
          (Ledger.ofModules (modules ++ more)).ids s = some id) ∧
    (∀ files features bytes, compile files features (ofModules modules).signatures = .ok bytes →
      (∀ p, compileProgram files features (ofModules modules).signatures = .ok p → p.Storable) →
      ∃ script image, (tokenizeFiles files >>= Parser.parse) = .ok script ∧
        Image.decode bytes = .ok image ∧ image.CallsAs script ∧
        ∀ limits, ∃ m₀, Machine.load bytes limits = .ok m₀ ∧
          ∀ (deeds : List Machine.Deed) (m : Machine) (id : UInt32) (args : List Value) (c : κ),
            (m₀.after deeds).step = (m, .request id args) → id ∈ image.program.builtinCalls ∧
              ∃ s b, image.builtinName? id = some s ∧
                ((registered (modules ++ more)).reverse.find? fun b => b.name == s) = some b ∧
                (ofModules (modules ++ more)).dispatch m c id args = b.serve m c args) ∧
    ∀ (r : Registry κ) (m : Machine) (c : κ) (id : UInt32) (args : List Value),
      (∃ b, r.builtins[id.toNat]? = some b ∧ m.image.builtinName? id = some b.name ∧
          r.dispatch m c id args = b.serve m c args) ∨
        r.dispatch m c id args =
          (.error (m.faultOf .badBuiltin none), { m with heap := m.heap.release args }, c) := by
  refine ⟨⟨nodup_ofModules modules, fun s => ⟨get?_ofModules modules s, fun b hb => ?_⟩⟩,
    fun hn => ids_ofModules hn, fun files features bytes hc hs => calls_extended modules more hc hs,
    dispatch_cases⟩
  rw [get?_eq] at hb
  obtain ⟨i, hi, hget⟩ := Option.bind_eq_some_iff.1 hb
  exact ⟨i, hget, hi, id?_ofModules_append hi more⟩

/-- A script that prints, run with a module that puts its own function in the place of printing. -/
theorem dispatch_by_name_replaced :
    ∃ bytes m₀ m id, compile [⟨"a", "print(1)"⟩] .full
        (ofModules [(⟨"console", [.length, .print]⟩ : Module Unit)]).signatures = .ok bytes ∧
      bytes.length < UInt32.size ∧ Machine.load bytes .least = .ok m₀ ∧
      (m₀.after (List.replicate 3 .step)).step = (m, .request id [.int 1]) ∧
      ((ofModules [(⟨"console", [.length, .print]⟩ : Module Unit),
        ⟨"mute", [.ofResult "print" 1 10 fun _ _ => .ok (.int 7)]⟩]).dispatch m () id [.int 1]).1 =
          .ok (.int 7) := by
  have hparse : (tokenizeFiles [⟨"a", "print(1)"⟩] >>= Parser.parse) = .ok
      [.expr ⟨1, "a"⟩ (.call ⟨1, "a"⟩ "print" [.int ⟨1, "a"⟩ 1])] := by
    cbv
  obtain ⟨p, hp, hsize, hshapes, m, hstep, hname⟩ : ∃ p, lowerScript .full
      (ofModules [(⟨"console", [.length, .print]⟩ : Module Unit)]).signatures
        [.expr ⟨1, "a"⟩ (.call ⟨1, "a"⟩ "print" [.int ⟨1, "a"⟩ 1])] = .ok p ∧
      (Image.link p).encode.length < UInt32.size ∧ (Image.link p).Resolves [] ∧
      ∃ m, ((Machine.start (Image.link p) [] .least).after (List.replicate 3 .step)).step =
        (m, .request 1 [.int 1]) ∧ (Image.link p).builtinName? 1 = some "print" :=
    ⟨_, rfl, by decide +kernel, rfl, _, by cbv, by cbv⟩
  have hstorable : p.Storable := .of_length_encode hsize
  have hload := Machine.load_link hstorable hshapes .least
  have hcompiled := compileProgram_eq_ok.2 ⟨_, hparse, hp⟩
  have hc := compile_of_parse hparse hp
  obtain ⟨-, -, hcalls, -⟩ := dispatch_by_name [(⟨"console", [.length, .print]⟩ : Module Unit)]
    [⟨"mute", [.ofResult "print" 1 10 fun _ _ => .ok (.int 7)]⟩]
  obtain ⟨script, image, -, hdecode, -, hruns⟩ := hcalls _ _ _ hc
    fun _ h => Except.ok.inj (hcompiled.symm.trans h) ▸ hstorable
  rw [Image.decode_encode hstorable.fits] at hdecode
  cases hdecode
  obtain ⟨m₀, hm₀, hrun⟩ := hruns .least
  cases hload.symm.trans hm₀
  obtain ⟨-, s, b, hs, hfind, hdispatch⟩ := hrun _ m 1 [.int 1] () hstep
  cases hname.symm.trans hs
  cases hfind
  exact ⟨_, _, m, 1, hc, hsize, hload, hstep, congrArg Prod.fst hdispatch⟩

end Registry

end TickScript
