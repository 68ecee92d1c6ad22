import TickScript.Compile
import TickScript.Proofs.Builtin.Conduct
import TickScript.Proofs.Image.Loading
import TickScript.Proofs.Machine.Soundness
import TickScript.Proofs.Program.Balance
import TickScript.Proofs.Tick.Turns

/-!
# Compiled programs never fail for an internal cause

A compiled program is in order, so the machine that loads it is sound, and each step and each answer of
the host leaves it so. Hence no turn of it, under whatever limits, ends with an internal cause, as long
as the host answers the calls of its functions in order (`Builtin.Answers`).
-/

namespace TickScript

variable {κ : Type}

namespace Registry

/-- The registry has the functions that an image numbers, and they answer in order. -/
def Serves (r : Registry κ) (image : Image) : Prop :=
  ∀ (id : UInt32) (b : Signature UInt32), image.program.builtins[id.toNat]? = some b →
    ∃ b', r.meant? image id = some b' ∧ b'.arity = b.arity ∧ b'.Answers

/-- What a machine's host keeps when it answers a call: the machine stays sound, does not wait any
longer, and the call is refused for no internal cause. -/
theorem good_answer {r : Registry κ} {m m' : Machine} {c c' : κ} {id : UInt32} {args : List Value}
    {b : Signature UInt32} {result : Except Fault Unit} (hr : r.Serves m.image) (hm : m.Sound)
    (hp : m.phase = .awaiting) (hb : m.image.program.builtins[id.toNat]? = some b)
    (ha : args.length = b.arity.toNat) (h : r.answer m c id args = (result, m', c')) :
    m'.Sound ∧ m'.image = m.image ∧ m'.phase ≠ .awaiting ∧
      ∀ f, result = .error f → f.cause.isInternal = false := by
  obtain ⟨b', hmeant, harity, hanswers⟩ := hr id b hb
  have hstands := hm.stands
  unfold Machine.Stands at hstands
  rw [hp] at hstands
  obtain ⟨own, below, ho, hruns⟩ := hstands
  unfold answer Service.answer at h
  rw [dispatch_of_meant hmeant] at h
  unfold Builtin.serve at h
  have hrefused := hanswers args m c
  rcases hrun : b'.run args m c with ⟨f | v, heap, log, context⟩
  · have hf : f.cause.isInternal = false := hrefused f (by rw [ha, harity]) (by rw [hrun])
    simp only [hrun, Machine.settle, Machine.fault?, hp] at h
    cases h
    refine ⟨⟨hm.ordered, hm.globals, hf⟩, rfl, by rintro ⟨⟩, ?_⟩
    intro f' hf'
    cases hf'
    exact hf
  · have hwaits : ({ m with heap := heap.release args, log } : Machine).phase = .awaiting := hp
    simp only [hrun, Machine.settle, Machine.pushResult_of_awaiting hwaits] at h
    cases h
    refine ⟨⟨hm.ordered, hm.globals, own + 1, below, ?_, hruns⟩, rfl, by rintro ⟨⟩, by rintro f ⟨⟩⟩
    simp only [List.length_cons]
    omega

/-- What a step leaves that is no call of the host. -/
theorem sound_step {m m' : Machine} {status : Status} (outcome : Outcome) (hm : m.Sound)
    (hp : m.phase ≠ .awaiting) (hs : m.step = (m', status))
    (hn : ∀ id args, status ≠ .request id args)
    (ho : ∀ f, outcome = .faulted f → status = .fault f) :
    m'.Sound ∧ m'.image = m.image ∧ m'.phase ≠ .awaiting ∧
      ∀ f, outcome = .faulted f → f.cause.isInternal = false := by
  have hgood := hs ▸ Machine.good_step hm hp
  refine ⟨hgood.sound, hgood.image, ?_, fun f hf => hgood.fault f (ho f hf)⟩
  intro hw
  obtain ⟨id, args, he⟩ := hgood.awaits hw
  exact hn id args he

/-- What a call of the host leaves when it is answered. -/
theorem sound_call {r : Registry κ} {m m' m'' : Machine} {c c' : κ} {id : UInt32}
    {args : List Value} {result : Except Fault Unit} (hr : r.Serves m.image) (hm : m.Sound)
    (hp : m.phase ≠ .awaiting) (hs : m.step = (m', .request id args))
    (ha : r.answer m' c id args = (result, m'', c')) :
    m''.Sound ∧ m''.image = m.image ∧ m''.phase ≠ .awaiting ∧
      ∀ f, result = .error f → f.cause.isInternal = false := by
  have hgood := hs ▸ Machine.good_step hm hp
  have himage : m'.image = m.image := hgood.image
  obtain ⟨hw, b, hb, hl⟩ := hgood.request id args rfl
  obtain ⟨hs', hi', hrest⟩ := good_answer (himage ▸ hr) hgood.sound hw (himage ▸ hb) hl ha
  exact ⟨hs', hi'.trans himage, hrest⟩

/-- A turn of a sound machine leaves a sound machine, and ends with no internal cause. -/
theorem sound_drive {r : Registry κ} {m : Machine} (c : κ) (hr : r.Serves m.image) (hm : m.Sound)
    (hp : m.phase ≠ .awaiting) :
    (r.drive m c).2.1.Sound ∧ (r.drive m c).2.1.image = m.image ∧
      (r.drive m c).2.1.phase ≠ .awaiting ∧
      ∀ f, (r.drive m c).1 = .faulted f → f.cause.isInternal = false := by
  fun_induction drive r m c with
  | case1 m c m' hs ih =>
    obtain ⟨hs', hi', hp', -⟩ := sound_step .yielded hm hp hs
      (fun _ _ he => nomatch he) (fun _ he => nomatch he)
    obtain ⟨h₁, h₂, h₃⟩ := ih (hi' ▸ hr) hs' hp'
    exact ⟨h₁, h₂.trans hi', h₃⟩
  | case2 m c m' id args hs u m'' c' ha ih =>
    obtain ⟨hs', hi', hp', -⟩ := sound_call hr hm hp hs ha
    obtain ⟨h₁, h₂, h₃⟩ := ih (hi' ▸ hr) hs' hp'
    exact ⟨h₁, h₂.trans hi', h₃⟩
  | case3 m c m' id args hs f m'' c' ha =>
    obtain ⟨hs', hi', hp', hf⟩ := sound_call hr hm hp hs ha
    exact ⟨hs', hi', hp', fun f' he => hf f' (congrArg _ (Outcome.faulted.inj he))⟩
  | case4 m c m' hs => exact sound_step _ hm hp hs (fun _ _ he => nomatch he) (fun _ he => nomatch he)
  | case5 m c m' hs => exact sound_step _ hm hp hs (fun _ _ he => nomatch he) (fun _ he => nomatch he)
  | case6 m c m' hs => exact sound_step _ hm hp hs (fun _ _ he => nomatch he) (fun _ he => nomatch he)
  | case7 m c m' f hs =>
    exact sound_step _ hm hp hs (fun _ _ he => nomatch he)
      (fun f' he => congrArg _ (Outcome.faulted.inj he))

/-- No number of turns of a sound machine ends with an internal cause. -/
theorem sound_reports {r : Registry κ} {m : Machine} (hr : r.Serves m.image) (hm : m.Sound)
    (hp : m.phase ≠ .awaiting) (c : κ) (n : Nat) :
    ∀ report ∈ r.reports n m c, ∀ f, report.outcome = .faulted f → f.cause.isInternal = false := by
  refine reports_induction
    (P := fun m' => m'.Sound ∧ m'.image = m.image ∧ m'.phase ≠ .awaiting)
    (Q := fun report => ∀ f, report.outcome = .faulted f → f.cause.isInternal = false)
    ?_ n m c ⟨hm, rfl, hp⟩
  rintro m' c ⟨hs, hi, hw⟩
  have hstart : m'.startTick.Sound := ⟨hs.ordered, hs.globals, hs.stands⟩
  obtain ⟨h₁, h₂, h₃, h₄⟩ := sound_drive c (r := r) (m := m'.startTick) (hi ▸ hr) hstart hw
  rw [runTick_eq]
  exact ⟨⟨⟨h₁.ordered, h₁.globals, h₁.stands⟩, h₂.trans hi, h₃⟩, h₄⟩

end Registry

/-! ## Starting a linked program -/

namespace Image

/-- What a program may mention is the same before and after linking. -/
theorem alike_link {p : Program String (List String)} (hn : (link p).Numbered)
    {shapes : List (List String)} (hs : (link p).Resolves shapes) (inFunction : Bool) :
    ((link p).site shapes inFunction false).Alike (link p).text? (link p).shape?
      (p.site inFunction) := by
  have hl := programLinked_link p hn
  refine ⟨?_, ?_, ?_, ?_, ?_, rfl, rfl⟩
  · intro id text ht
    exact Option.isSome_iff_exists.2 ⟨text, ht⟩
  · intro id names hshape
    exact congrArg (Option.map List.length) (hs.shape hshape)
  · exact hl.globals.length_eq.symm
  · funext id
    rcases forall₂_getElem? hl.functions id.toNat with ⟨hp, hq⟩ | ⟨f, f', hp, hq, hf⟩
    · simp only [Image.site, Program.site, hp, hq]
      rfl
    · simp only [Image.site, Program.site, hp, hq, Option.map_some, hf.arity]
  · funext id
    rcases forall₂_getElem? hl.builtins id.toNat with ⟨hp, hq⟩ | ⟨b, b', hp, hq, hb⟩
    · simp only [Image.site, Program.site, hp, hq]
      rfl
    · simp only [Image.site, Program.site, hp, hq, Option.map_some, hb.arity]

end Image

/-- A machine that starts a linked program in order is sound. -/
theorem Machine.sound_start {p : Program String (List String)} (hp : p.Ordered)
    (hn : (Image.link p).Numbered) {shapes : List (List String)} (hs : (Image.link p).Resolves shapes)
    (limits : Limits) : (Machine.start (Image.link p) shapes limits).Sound := by
  have hl := programLinked_link p hn
  refine ⟨⟨?_, ?_⟩, List.length_replicate, ?_⟩
  · intro f' hf'
    obtain ⟨f, hf, hfl⟩ := exists_of_forall₂_right hl.functions hf'
    have hflow := hp.functions f hf
    rw [← hfl.arity, ← flow_mapInstrsM (Image.alike_link hn hs true) _ hfl.body] at hflow
    exact hflow
  · intro f' hf'
    obtain ⟨f, -, hfl⟩ := exists_of_forall₂_right hl.functions hf'
    exact Option.isSome_iff_exists.2 ⟨_, hfl.name⟩
  · have hflow := hp.body
    rw [← flow_mapInstrsM (Image.alike_link hn hs false) _ hl.body] at hflow
    exact ⟨0, 0, rfl, hflow, Nat.le_refl 0, Nat.le_refl 0, rfl⟩

/-- A registry whose functions answer in order serves the programs that were compiled for it. -/
theorem Registry.serves_link {r : Registry κ} (hr : ∀ b ∈ r.builtins, b.Answers)
    {p : Program String (List String)} (hb : p.builtins = r.signatures)
    (hn : (Image.link p).Numbered) : r.Serves (Image.link p) := by
  intro id b hid
  have hl := (programLinked_link p hn).builtins
  obtain ⟨sig, hsig, hlinked⟩ := getElem?_of_forall₂_right hl hid
  rw [hb, Registry.signatures, List.getElem?_map] at hsig
  obtain ⟨b₀, hb₀, rfl⟩ := Option.map_eq_some_iff.1 hsig
  refine ⟨b₀, ?_, hlinked.arity.symm, hr b₀ (List.mem_of_getElem? hb₀)⟩
  refine Registry.meant?_eq_some.2 ⟨hb₀, ?_⟩
  unfold Image.builtinName?
  rw [hid]
  exact hlinked.name

/-! ## Compiled programs -/

/-- A binary is the stored form of the program that was compiled. -/
theorem compile_eq_ok {files : List SourceFile} {features : FeatureSet}
    {builtins : List (Signature String)} {binary : List UInt8}
    (h : compile files features builtins = .ok binary) :
    ∃ p, compileProgram files features builtins = .ok p ∧ binary = (Image.link p).encode := by
  simp only [compile, bind_eq_ok, pure_eq_ok] at h
  obtain ⟨p, hp, rfl⟩ := h
  exact ⟨p, hp, rfl⟩

/-- A program is compiled when the files are read as a script and the script is accepted. -/
theorem compileProgram_eq_ok {files : List SourceFile} {features : FeatureSet}
    {builtins : List (Signature String)} {p : Program String (List String)} :
    compileProgram files features builtins = .ok p ↔ ∃ script,
      (tokenizeFiles files >>= Parser.parse) = .ok script ∧ lowerScript features builtins script = .ok p := by
  unfold compileProgram
  constructor
  · intro h
    obtain ⟨lexemes, hl, h⟩ := bind_eq_ok.1 h
    obtain ⟨script, hs, hp⟩ := bind_eq_ok.1 h
    exact ⟨script, bind_eq_ok.2 ⟨lexemes, hl, hs⟩, hp⟩
  · rintro ⟨script, hs, hp⟩
    obtain ⟨lexemes, hl, hs⟩ := bind_eq_ok.1 hs
    exact bind_eq_ok.2 ⟨lexemes, hl, bind_eq_ok.2 ⟨script, hs, hp⟩⟩

/-- Files that are read as an accepted script are compiled. -/
theorem compile_of_parse {files : List SourceFile} {features : FeatureSet}
    {builtins : List (Signature String)} {script : List Stmt} {p : Program String (List String)}
    (h : (tokenizeFiles files >>= Parser.parse) = .ok script)
    (hp : lowerScript features builtins script = .ok p) :
    compile files features builtins = .ok (Image.link p).encode := by
  exact bind_eq_ok.2 ⟨p, compileProgram_eq_ok.2 ⟨script, h, hp⟩, rfl⟩

/-- A program that was lowered is in order, if what it has can be counted. -/
theorem Program.Counted.ordered {features : FeatureSet} {builtins : List (Signature String)}
    {script : List Stmt} {p : Program String (List String)} (h : p.Counted)
    (hp : lowerScript features builtins script = .ok p) : p.Ordered :=
  ordered_lowerScript hp h.functions h.builtins h.bodies h.body

/-- **Compiled programs never meet an internal cause.** A script that compiles for the functions of a
host loads under any limits, and no number of turns ends with an internal cause, whatever the script,
the features and the limits are, and however the modules of the host were registered. What the stored form
counts has to be countable in words of four bytes. -/
theorem compiled_not_internal (modules : List (Module κ))
    (hmodules : ∀ module ∈ modules,
      module ∈ [Module.standard, Module.memory, Module.floatingPoint] ∨
        ∀ b ∈ module.builtins, b.Answers)
    (files : List SourceFile) (features : FeatureSet) {binary : List UInt8}
    (hc : compile files features (Registry.ofModules modules).signatures = .ok binary)
    (hs : ∀ p, compileProgram files features (Registry.ofModules modules).signatures = .ok p → p.Storable)
    (limits : Limits) (c : κ) :
    ∃ m, Machine.load binary limits = .ok m ∧
      ∀ n, ∀ report ∈ (Registry.ofModules modules).reports n m c,
        ∀ f, report.outcome = .faulted f → f.cause.isInternal = false := by
  obtain ⟨p, hcompiled, rfl⟩ := compile_eq_ok hc
  obtain ⟨script, -, hp⟩ := compileProgram_eq_ok.1 hcompiled
  have hstorable := hs p hcompiled
  obtain ⟨shapes, hshapes⟩ := Image.exists_resolves hstorable.numbered
  -- A linked program is sound because the compiler balances what it emits.
  have hsound := Machine.sound_start (hstorable.counted.ordered hp) hstorable.numbered hshapes limits
  have hanswers : ∀ b ∈ (Registry.ofModules modules).builtins, b.Answers :=
    Registry.forall_ofModules (fun _ => Builtin.answers_standard) (fun _ => Builtin.answers_memory)
      (fun _ => Builtin.answers_floatingPoint) hmodules
  have hbuiltins : p.builtins = (Registry.ofModules modules).signatures := by
    obtain ⟨d, functions, body, -, -, -, rfl⟩ := lowerScript_eq_ok hp
    rfl
  refine ⟨.start (Image.link p) shapes limits, Machine.load_link hstorable hshapes limits, fun n => ?_⟩
  exact Registry.sound_reports (Registry.serves_link hanswers hbuiltins hstorable.numbered) hsound
    (fun he => nomatch he) c n

/-- A script with a function, a call of the host inside a call, and a loop that waits for ticks. -/
theorem compiled_not_internal_printing :
    ∃ binary, compile [⟨"a", "fun f(x) \x7b return x \x7d\ntick \x7b print(f(2)) \x7d"⟩] .full
        (Registry.ofModules [(⟨"console", [.print]⟩ : Module Unit)]).signatures = .ok binary ∧
      ∃ m, Machine.load binary .least = .ok m ∧
        ∀ n, ∀ report ∈ (Registry.ofModules [⟨"console", [.print]⟩]).reports n m (),
          ∀ f, report.outcome = .faulted f → f.cause.isInternal = false := by
  have hparse : (tokenizeFiles [⟨"a", "fun f(x) \x7b return x \x7d\ntick \x7b print(f(2)) \x7d"⟩] >>=
      Parser.parse) = .ok
        [.function ⟨1, "a"⟩ "f" ["x"] [.giveBack ⟨1, "a"⟩ (.name ⟨1, "a"⟩ "x")],
          .tick ⟨2, "a"⟩ [.expr ⟨2, "a"⟩
            (.call ⟨2, "a"⟩ "print" [.call ⟨2, "a"⟩ "f" [.int ⟨2, "a"⟩ 2]])]] := by
    cbv
  obtain ⟨p, hp, hsize⟩ : ∃ p, lowerScript .full
      (Registry.ofModules [(⟨"console", [.print]⟩ : Module Unit)]).signatures
        [.function ⟨1, "a"⟩ "f" ["x"] [.giveBack ⟨1, "a"⟩ (.name ⟨1, "a"⟩ "x")],
          .tick ⟨2, "a"⟩ [.expr ⟨2, "a"⟩
            (.call ⟨2, "a"⟩ "print" [.call ⟨2, "a"⟩ "f" [.int ⟨2, "a"⟩ 2]])]] = .ok p ∧
      (Image.link p).encode.length < UInt32.size := ⟨_, rfl, by decide +kernel⟩
  have hcompiled := compileProgram_eq_ok.2 ⟨_, hparse, hp⟩
  have hmodules : ∀ b ∈ (⟨"console", [.print]⟩ : Module Unit).builtins, b.Answers := by
    intro b hb
    cases List.mem_singleton.1 hb
    exact Builtin.answers_print
  have hc := compile_of_parse hparse hp
  exact ⟨_, hc, compiled_not_internal [⟨"console", [.print]⟩]
    (fun module hm => .inr (List.mem_singleton.1 hm ▸ hmodules)) _ .full hc
    (fun _ h => Except.ok.inj (hcompiled.symm.trans h) ▸ .of_length_encode hsize) .least ()⟩

end TickScript
