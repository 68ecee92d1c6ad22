import TickScript.Proofs.Heap.Extent
import TickScript.Proofs.Tick.Contents
import TickScript.Proofs.Tick.Soundness
import TickScript.Proofs.Tick.Suspension

/-!
# The texts that calls make

Printing and making a text of a value write the value down to a depth of three, and nothing else limits
how long the text gets. When such a function is called, the memory in use is within its limit. So the text
is at most as long as a shown value can be in that memory (`texts_bounded`): the memory, the texts of the
program and a constant, with a factor for each of the three levels. Without these factors it would not hold
(`exists_text_exceeding`).
-/

namespace TickScript

variable {κ : Type}

/-! ## Calls -/

/-- The texts that a call of a function makes: the lines that it adds to the log, and the text that it
gives back. -/
def HostCall.texts (call : HostCall κ) : List String :=
  let reply := call.builtin.run call.args call.machine call.context
  reply.log.drop call.machine.log.length ++ (Builtin.given reply.result).filterMap Value.text?

namespace Registry

/-- A function gets called in one of the turns that a machine is given from now on. What the host does
with its own data between them is up to the host. -/
inductive CallsInTurns (r : Registry κ) (call : HostCall κ) : Machine → Prop
  | now {m : Machine} (c : κ) (called : call ∈ r.hostCalls (r.steps m.startTick c)) :
      CallsInTurns r call m
  | later {m : Machine} (c : κ) (rest : CallsInTurns r call (r.runTick m c).2.1) : CallsInTurns r call m

/-- Whenever a value is printed, or a text is made of one, in the turns of a machine, the text has at most
so many bytes. -/
def TextsWithin (r : Registry κ) (m : Machine) (bound : Nat) : Prop :=
  ∀ call, r.CallsInTurns call m → call.builtin = .print ∨ call.builtin = .string →
    ∀ text ∈ call.texts, text.utf8ByteSize ≤ bound

end Registry

section Kept

variable {n : Norm} {image : Image} {shapes : List (List String)} {limits : Limits} {r : Registry κ}
  {m : Machine}

/-- At a call everything keeps to the norm, and the memory in use is within the limit. -/
theorem Unfolds.kept_at (hr : ∀ b ∈ r.builtins, b.Tidy ∧ b.Suits n image shapes limits)
    (ha : n.Allows image shapes limits) {m' : Machine} {c c' : κ} {steps : List (Executed κ)}
    {outcome : Outcome} (h : Unfolds r.answer m c steps outcome m' c')
    (hk : n.Kept image shapes limits [] m) {e : Executed κ} (he : e ∈ steps) {id : UInt32}
    {args : List Value} (hs : e.status = .request id args) :
    n.Kept image shapes limits args e.stepped ∧ e.stepped.heap.used ≤ limits.memory := by
  -- At a request the memory has just been checked, and only references have moved since.
  have hasks {m m₁ : Machine} {id : UInt32} {args : List Value} (hk : n.Kept image shapes limits [] m)
      (step : m.step = (m₁, .request id args)) :
      n.Kept image shapes limits args m₁ ∧ m₁.heap.used ≤ limits.memory := by
    have hkept := hk.step ha step
    have hused := Machine.used_of_request step
    rw [hkept.throughout.program.2.2] at hused
    rw [List.append_nil] at hkept
    exact ⟨hkept, hused⟩
  induction h with
  | goes step _ ih =>
    rcases List.mem_cons.1 he with rfl | he
    · exact nomatch hs
    · exact ih (hk.step ha step) he
  | @answered m m₁ m₂ m' c c₂ c' id' others u steps outcome step reply _ ih =>
    rcases List.mem_cons.1 he with rfl | he
    · cases hs
      exact hasks hk step
    · have hstep : n.Kept image shapes limits (others ++ []) m₁ := hk.step ha step
      have hanswer := hstep.answer hr c id'
      rw [reply] at hanswer
      exact ih hanswer he
  | refused step =>
    rw [List.mem_singleton.1 he] at hs ⊢
    cases hs
    exact hasks hk step
  | ends step last =>
    rw [List.mem_singleton.1 he] at hs
    cases hs
    exact nomatch last

/-- At every call of a builtin the norm is kept and the memory is within its limit. -/
theorem Registry.CallsInTurns.kept (hr : ∀ b ∈ r.builtins, b.Tidy ∧ b.Respects)
    (ha : n.Allows image shapes limits) {call : HostCall κ} (h : r.CallsInTurns call m)
    (hk : n.Kept image shapes limits [] m) :
    n.Kept image shapes limits call.args call.machine ∧ call.machine.heap.used ≤ limits.memory := by
  have hsuits : ∀ b ∈ r.builtins, b.Tidy ∧ b.Suits n image shapes limits :=
    fun b hb => ⟨(hr b hb).1, (hr b hb).2 n image shapes limits ha⟩
  induction h with
  | @now m c called =>
    have hstart : n.Kept image shapes limits [] m.startTick := by
      obtain ⟨hexact, hp, ho, hl, hg, hw, hh⟩ := hk
      exact ⟨hexact, hp, ho, hl, hg, hw, hh⟩
    obtain ⟨e, he, id, hstatus, -, hmachine, -⟩ := Registry.mem_hostCalls.1 called
    rw [← hmachine]
    exact (r.unfolds_drive m.startTick c).kept_at hsuits ha hstart he hstatus
  | later c _ ih => exact ih (r.kept_runTick hsuits ha hk c)

end Kept

/-! ## The texts of two functions -/

namespace HostCall

variable {args : List Value} {m : Machine} {c : κ} {text : String}

/-- Printing builds the text of the value that is shown. -/
theorem texts_print (h : text ∈ texts ⟨.print, args, m, c⟩) :
    ∃ v, args = [v] ∧ text = m.heap.shown Builtin.displayDepth v := by
  unfold texts Builtin.print at h
  dsimp only at h
  split at h
  · next v => exact ⟨v, rfl, by simpa [Builtin.given, Machine.reply, Value.text?] using h⟩
  · simp [Builtin.given, Machine.reply] at h

/-- A text is given back as it is, and other values are shown. -/
theorem texts_string (h : text ∈ texts ⟨.string, args, m, c⟩) :
    ∃ v, args = [v] ∧
      ((∃ cell, v = .text cell text) ∨ text = m.heap.shown Builtin.displayDepth v) := by
  unfold texts Builtin.string at h
  dsimp only at h
  split at h
  · next cell s =>
    have htext : text = s := by simpa [Builtin.given, Machine.reply, Value.text?] using h
    exact ⟨_, rfl, .inl ⟨cell, by rw [htext]⟩⟩
  · next v _ => exact ⟨v, rfl, .inr (by simpa [Builtin.given, Machine.reply, Value.text?, Heap.text] using h)⟩
  · simp [Builtin.given, Machine.reply] at h

end HostCall

/-! ## A program that prints one array many times -/

/-- An array of equal items is shown with each of them. -/
theorem Heap.size_display_replicate {h : Heap} {r : Ref} {n : Nat} {v : Value}
    (hr : h.items r = List.replicate n v) (alone : Bool) (depth : Nat) :
    (h.display alone (depth + 1) (.array r)).utf8ByteSize =
      n * (h.display false depth v).utf8ByteSize + (n - 1) * 2 + 2 := by
  have hopening : "[".utf8ByteSize = 1 := rfl
  have hclosing : "]".utf8ByteSize = 1 := rfl
  have hcomma : ", ".utf8ByteSize = 2 := rfl
  rw [Heap.display, hr, List.map_replicate, String.utf8ByteSize_append, String.utf8ByteSize_append,
    size_intercalate, textSizes_replicate, List.length_replicate, hopening, hclosing, hcomma]
  omega

/-- What a program knows of the host's functions, with the numbers of their names. -/
def Tables.signatures (builtins : List (Signature String)) : StateM Tables (List (Signature UInt32)) :=
  builtins.mapM fun b => do
    let called ← text b.name
    return ⟨called, b.arity, b.cost⟩

/-- A program without globals and functions of its own is linked in two goes: the names of the host's
functions, and the body. -/
theorem Image.link_of_names {builtins : List (Signature String)} {body : List (Instr String (List String))}
    {numbered : List (Signature UInt32)} {ops : List Op} {tables tables' : Tables}
    (hnames : (Tables.signatures builtins).run ⟨[], []⟩ = (numbered, tables))
    (hbody : (mapInstrsM Tables.text Tables.shape body).run tables = (ops, tables')) :
    Image.link ⟨builtins, [], [], body⟩ = ⟨tables'.texts, tables'.shapes, ⟨numbered, [], [], ops⟩⟩ := by
  have hrun : (Program.mapM Tables.text Tables.shape ⟨builtins, [], [], body⟩).run ⟨[], []⟩ =
      (⟨numbered, [], [], ops⟩, tables') := by
    unfold Tables.signatures at hnames
    unfold Program.mapM
    rw [StateT.run_bind, hnames]
    show ((fun ops => (⟨numbered, [], [], ops⟩ : Program UInt32 UInt32)) <$>
      mapInstrsM Tables.text Tables.shape body : StateM Tables _).run tables = _
    rw [StateT.run_map, hbody]
    rfl
  unfold Image.link
  rw [hrun]

namespace Nested

/-- A text whose characters leave no mark, so that each is shown in six bytes. -/
def unmarked : String :=
  "\x7f\x7f\x7f\x7f\x7f\x7f\x7f\x7f\x7f\x7f\x7f\x7f\x7f\x7f\x7f\x7f\x7f\x7f\x7f\x7f"

/-- The functions of all modules of the library. -/
def library : Registry Unit := .ofModules [Module.standard, Module.memory, Module.floatingPoint]

/-- An array whose items are all one array, whose items are all one text, is printed. -/
def script : List Stmt :=
  [.expr ⟨1, "a"⟩ (.call ⟨1, "a"⟩ "print" [.call ⟨1, "a"⟩ "array" [.int ⟨1, "a"⟩ 28,
    .call ⟨1, "a"⟩ "array" [.int ⟨1, "a"⟩ 28, .text ⟨1, "a"⟩ unmarked]]])]

/-- The script in stored form. -/
def image : Image :=
  ⟨library.signatures.map Signature.name ++ ["a", unmarked], [],
    ⟨library.signatures.mapIdx fun i b => ⟨.ofNat i, b.arity, b.cost⟩, [], [],
      [.file 25, .line 1, .pushInt 28, .pushInt 28, .pushText 26, .callBuiltin 12, .callBuiltin 12,
        .callBuiltin 0, .discard]⟩⟩

theorem link_body : Image.link ⟨library.signatures, [], [], [.file "a", .line 1, .pushInt 28, .pushInt 28,
    .pushText unmarked, .callBuiltin 12, .callBuiltin 12, .callBuiltin 0, .discard]⟩ = image := by
  have hnames : (Tables.signatures library.signatures).run ⟨[], []⟩ =
      (image.program.builtins, ⟨library.signatures.map Signature.name, []⟩) := by
    show @Eq (List (Signature UInt32) × Tables) _ _
    decide +kernel
  exact Image.link_of_names hnames rfl

theorem compile_script :
    compile [⟨"a", "print(array(28, array(28, \"" ++ unmarked ++ "\")))"⟩] .full library.signatures =
      .ok image.encode := by
  have hparse : (tokenizeFiles [⟨"a", "print(array(28, array(28, \"" ++ unmarked ++ "\")))"⟩] >>=
      Parser.parse) = .ok script := by
    cbv
  rw [← link_body]
  exact compile_of_parse hparse rfl

theorem load_image : Machine.load image.encode .least = .ok (.start image [] .least) := by
  have hfits : image.Fits := by
    refine ⟨?_, ?_, ?_, ?_, ?_, ?_, ?_, List.forall_mem_nil _, bodyFits_of_count ?_⟩
    all_goals decide +kernel
  exact Machine.load_of_fits hfits rfl .least

/-- Both arrays are made, and the outer one is printed. -/
theorem calls_print : ∃ m, library.CallsInTurns ⟨.print, [.array 1], m, ()⟩ (.start image [] .least) ∧
    m.heap.items 1 = List.replicate 28 (.array 0) ∧
    m.heap.items 0 = List.replicate 28 (.text none unmarked) := by
  -- the functions are listed, so that looking one up compares no names
  have hlibrary : library = ⟨(Module.standard : Module Unit).builtins ++
      (Module.memory : Module Unit).builtins ++ (Module.floatingPoint : Module Unit).builtins⟩ := by
    rfl
  obtain ⟨m₁, m₂, m₃, m₄, m₅, hinner, hreply, houter, hreply', hprint, hmeant, hitems⟩ :
      ∃ m₁ m₂ m₃ m₄ m₅,
        (Machine.start image [] .least).startTick.stepBatch =
          (m₁, .request 12 [.int 28, .text none unmarked]) ∧
        library.answer m₁ () 12 [.int 28, .text none unmarked] = (.ok (), m₂, ()) ∧
        m₂.stepBatch = (m₃, .request 12 [.int 28, .array 0]) ∧
        library.answer m₃ () 12 [.int 28, .array 0] = (.ok (), m₄, ()) ∧
        m₄.stepBatch = (m₅, .request 0 [.array 1]) ∧ library.meant? m₅.image 0 = some .print ∧
        m₅.heap.items 1 = List.replicate 28 (.array 0) ∧
        m₅.heap.items 0 = List.replicate 28 (.text none unmarked) := by
    unfold image
    rw [hlibrary]
    exact ⟨_, _, _, _, _, by cbv, by cbv, by cbv, by cbv, by cbv, by cbv, by cbv, by cbv⟩
  obtain ⟨e, he, hstepped, hstatus, hbefore⟩ := library.mem_steps_of_stepBatch (c := ()) hprint
  have hmade := Registry.mem_steps_after_stepBatch hinner hreply
    (Registry.mem_steps_after_stepBatch houter hreply' he)
  refine ⟨m₅, .now () (Registry.mem_hostCalls.2 ⟨e, hmade, 0, hstatus, ?_, hstepped, hbefore⟩), hitems⟩
  rw [hstepped]
  exact hmeant

/-- The text that is printed has more than ninety times as many bytes as the memory. -/
theorem exists_text : ∃ m text,
    library.CallsInTurns ⟨.print, [.array 1], m, ()⟩ (.start image [] .least) ∧
    text ∈ HostCall.texts ⟨.print, [.array 1], m, ()⟩ ∧ text.utf8ByteSize = 97272 := by
  obtain ⟨m, hcall, houter, hinner⟩ := calls_print
  refine ⟨m, m.heap.shown 3 (.array 1), hcall, ?_, ?_⟩
  · simp [HostCall.texts, Builtin.print, Builtin.displayDepth]
  · have hquoted : (Text.quoted unmarked).utf8ByteSize = 122 := by decide +kernel
    rw [Heap.shown, Heap.size_display_replicate houter, Heap.size_display_replicate hinner, Heap.display,
      if_neg (by decide), hquoted]

end Nested

/-! ## Bounds -/

/-- The names of shapes are among the texts of the image. -/
theorem Image.Resolves.mem_texts {image : Image} {shapes : List (List String)} (h : image.Resolves shapes) :
    ∀ names ∈ shapes, ∀ s ∈ names, s ∈ image.texts := by
  intro names hnames s hs
  obtain ⟨ids, -, hids⟩ := exists_of_forall₂_right (forall₂_of_mapM_eq_some h) hnames
  obtain ⟨id, -, hid⟩ := exists_of_forall₂_right (forall₂_of_mapM_eq_some hids) hs
  exact List.mem_of_getElem? hid

/-- **The texts that calls make are bounded**: whatever program a machine has loaded, and however its turns
have gone, a text that is printed or made of a value has at most so many bytes as the memory, the texts of
the program and a constant allow, with a factor for each of the three levels that are shown. -/
theorem texts_bounded {modules : List (Module κ)}
    (hmodules : ∀ module ∈ modules, module ∈ [Module.standard, Module.memory, Module.floatingPoint])
    {bytes : List UInt8} {limits : Limits} {m : Machine} (hload : Machine.load bytes limits = .ok m) :
    (Registry.ofModules modules).TextsWithin m ((limits.memory / 16 + 1) ^ 3 *
      (64 * (limits.memory + textSizes m.image.texts) + 4096)) := by
  obtain ⟨image, shapes, -, hshapes, rfl⟩ := Machine.load_eq_ok.1 hload
  have ha : (Norm.ofTexts image.texts).Allows image shapes limits :=
    Norm.allows_ofTexts hshapes.mem_texts
  rintro ⟨b, args, m, c⟩ hcall hb text htext
  obtain ⟨hkept, hused⟩ := hcall.kept (fun b hb => library_ofModules hmodules hb) ha (Norm.kept_start ha)
  have hholds := hkept.throughout.holds
  -- the argument is among what the machine has lent
  have hmem : ∀ v ∈ args, v ∈ (m.books args).all := by
    intro v hv
    simp [Books.all, Machine.books, hv]
  have hshown : ∀ v ∈ args, (m.heap.shown Builtin.displayDepth v).utf8ByteSize ≤
      shownSize limits.memory (textSizes image.texts) Builtin.displayDepth := by
    intro v hv
    exact Nat.le_of_add_right_le (hkept.exact.size_display_le hholds hused true _ (hmem v hv))
  rcases hb with rfl | rfl
  · obtain ⟨v, rfl, rfl⟩ := HostCall.texts_print htext
    exact hshown v List.mem_cons_self
  · obtain ⟨v, rfl, ⟨cell, rfl⟩ | rfl⟩ := HostCall.texts_string htext
    · have hsize := hkept.exact.size_text_le hholds hused (hmem _ List.mem_cons_self)
      have hleaf := leafSize_le_shownSize limits.memory (textSizes image.texts) Builtin.displayDepth
      refine Nat.le_trans ?_ hleaf
      rw [leafSize]
      omega
    · exact hshown v List.mem_cons_self

/-- The printed array: its text has 97272 bytes, in a memory of 1024. -/
theorem texts_bounded_nested :
    ∃ m caller text, Machine.load Nested.image.encode .least = .ok m ∧
      Nested.library.CallsInTurns ⟨.print, [.array 1], caller, ()⟩ m ∧
      text ∈ HostCall.texts (κ := Unit) ⟨.print, [.array 1], caller, ()⟩ ∧ text.utf8ByteSize = 97272 ∧
      text.utf8ByteSize ≤ (1024 / 16 + 1) ^ 3 * (64 * (1024 + textSizes m.image.texts) + 4096) := by
  obtain ⟨caller, text, hcall, htext, hsize⟩ := Nested.exists_text
  refine ⟨_, caller, text, Nested.load_image, hcall, htext, hsize, ?_⟩
  exact texts_bounded (fun _ hm => hm) Nested.load_image _ hcall (.inl rfl) text htext

/-- **A multiple of the memory and of the program's texts is no bound**: the inner array is shown once for
each of the 28 places that it has in the outer one, and its text as often for each of them. -/
theorem exists_text_exceeding :
    ∃ bytes m, compile [⟨"a", "print(array(28, array(28, \"" ++ Nested.unmarked ++ "\")))"⟩] .full
        Nested.library.signatures = .ok bytes ∧
      Machine.load bytes .least = .ok m ∧
      ¬ Nested.library.TextsWithin m (64 * (Limits.least.memory + textSizes m.image.texts) + 4096) := by
  refine ⟨_, _, Nested.compile_script, Nested.load_image, ?_⟩
  intro hwithin
  obtain ⟨caller, text, hcall, htext, hsize⟩ := Nested.exists_text
  have hle := hwithin _ hcall (.inl rfl) text htext
  have hbound : 64 * (Limits.least.memory + textSizes (Machine.start Nested.image [] .least).image.texts) +
      4096 = 77952 := by
    decide +kernel
  rw [hbound, hsize] at hle
  exact absurd hle (by decide)

end TickScript
