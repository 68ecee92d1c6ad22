import TickScript.Proofs.Image.Loading
import TickScript.Proofs.Meaning.Functions
import TickScript.Proofs.Tick.Replay

/-!
# Compiled programs do what their scripts mean

The declarations of a script are the functions and the globals of its program, so a machine that loads
the program starts where the script starts, and its turns are a simulation of the script from there
(`sim_script`). A host that gives a compiled program turns sees what the script means, unless one of the
turns is cut short by a limit (`session_meaning`).

A script that is run as it is written has no machine to show to the functions of the host. If these look at no
more than there is, the script calls them itself (`Setting.Holds.session`). If they look at more, their answers
are another matter than how the script goes on with them, and are played back to the script.
-/

namespace TickScript

variable {κ : Type}

/-! ## What a script declares -/

/-- What a script declares is what its statements declare. -/
theorem Declared.collect_eq_ok {features : FeatureSet} {d d' : Declared} {script : List Stmt}
    (h : Declared.collect features d script = .ok d') :
    d'.functions = d.functions ++ script.filterMap Stmt.declaration? ∧
      ∀ s, s ∈ d'.globals ↔ s ∈ d.globals ∨ script.any (Stmt.declares s) := by
  induction script generalizing d with
  | nil =>
    cases h
    exact ⟨(List.append_nil _).symm, fun s => ⟨.inl, fun h => h.elim id (fun h => nomatch h)⟩⟩
  | cons stmt script ih =>
    cases stmt with
    | function loc t params body =>
      rw [Declared.collect] at h
      split at h
      · cases h
      · split at h
        · cases h
        · obtain ⟨hf, hg⟩ := ih h
          refine ⟨?_, hg⟩
          rw [hf, List.append_assoc]
          rfl
    | declare loc t value =>
      rw [Declared.collect] at h
      obtain ⟨hf, hg⟩ := ih h
      have hglobals (s : String) :
          s ∈ (if d.globals.contains t then d else { d with globals := d.globals ++ [t] }).globals ↔
            s ∈ d.globals ∨ (t == s) = true := by
        split
        · next ht =>
          refine ⟨.inl, fun h => h.elim id fun hs => ?_⟩
          rw [← LawfulBEq.eq_of_beq hs]
          exact List.contains_iff_mem.1 ht
        · rw [List.mem_append, List.mem_singleton, beq_iff_eq, eq_comm]
      refine ⟨?_, fun s => ?_⟩
      · rw [hf]
        split <;> rfl
      · rw [hg, hglobals, List.any_cons, Bool.or_eq_true, or_assoc]
        rfl
    | _ => exact ih h

/-- The globals of a script exist from the start. -/
theorem globalsAgree_start {names : List String} {script : List Stmt}
    (h : ∀ s, s ∈ names ↔ script.any (Stmt.declares s)) (waits : Nat) (c : κ) :
    GlobalsAgree names (List.replicate names.length .null) (Store.start script waits c).globals where
  length := List.length_replicate
  value := by
    intro s
    change (if script.any (Stmt.declares s) then some Value.null else none) = _
    cases hi : names.findIdx? (fun t => t == s) with
    | none =>
      have hs : ¬ s ∈ names := fun hs => by
        have hne := List.findIdx?_eq_none_iff.1 hi s hs
        rw [beq_self_eq_true] at hne
        exact nomatch hne
      rw [if_neg fun ha => hs ((h s).2 ha)]
      rfl
    | some i =>
      obtain ⟨hlt, hp, -⟩ := List.findIdx?_eq_some_iff_getElem.1 hi
      have hs : s ∈ names := LawfulBEq.eq_of_beq hp ▸ List.getElem_mem hlt
      rw [if_pos ((h s).1 hs), Option.bind_some, List.getElem?_replicate, if_pos hlt]

/-! ## The setting of a linked program -/

/-- Stored code whose texts and shapes are found is spelled out without its marks. -/
theorem spelled?_of_mapInstrsM {image : Image} {ops : List Op} {code code' : List Code}
    (h : mapInstrsM image.text? image.shape? ops = some code) (hb : bareAll code = code') :
    image.spelled? ops = some code' := by
  unfold Image.spelled?
  rw [h, Option.map_some, hb]

/-- A linked program whose functions were lowered with some names is that of these names. -/
theorem linked_link {r : Registry κ} (hr : ∀ b ∈ r.builtins, b.Detached) (memory : Nat) {ns : Names}
    {p : Program String (List String)} {shapes : List (List String)} (hb : ns.builtins = r.signatures) (hbuiltins : p.builtins = ns.builtins)
    (hglobals : p.globals = ns.globals)
    (hf : List.Forall₂ (fun d f => Declaration.lower ns d = .ok f) ns.functions p.functions)
    (hl : ProgramLinked (Image.link p) p (Image.link p).program) (hc : p.Counted)
    (hs : (Image.link p).Resolves shapes) :
    (⟨r, ns, Image.link p, shapes, memory⟩ : Setting κ).Linked where
  numbered := ⟨hf.length_eq ▸ hc.functions, hbuiltins ▸ hc.builtins⟩
  globals := hglobals ▸ hc.globals
  shapes := fun _ _ h => hs.shape h
  builtins := hb
  detached := hr
  signatures := by
    intro id b hget
    rw [← hbuiltins] at hget
    obtain ⟨b', hb', hlinked⟩ := getElem?_of_forall₂_left hl.builtins hget
    exact ⟨b', hb', hlinked.name, hlinked.arity⟩
  functions := by
    intro id d hget
    obtain ⟨f, hf, hlower⟩ := getElem?_of_forall₂_left hf hget
    obtain ⟨fn, hfn, hlinked⟩ := getElem?_of_forall₂_left hl.functions hf
    have hcount := hc.bodies f (List.mem_of_getElem? hf)
    obtain ⟨code, hcode, rfl⟩ := d.lower_eq_ok hlower
    rw [thinBody, count_thinAll, countInstrs_append, count_replicate_pushLocal] at hcount
    refine ⟨fn, code, hfn, Option.isSome_iff_exists.2 ⟨_, hlinked.name⟩, hcode, ?_, hcount⟩
    refine spelled?_of_mapInstrsM hlinked.body ?_
    rw [thinBody, bareAll_thinAll, bareAll_append, bareAll_replicate_pushLocal]

/-- The image of a setting is that of a script, whose statements at its top have this code. -/
structure Setting.Holds (w : Setting κ) (script : List Stmt) (code : List Code) : Prop
    extends Setting.Linked w where
  declared : w.names.functions = script.filterMap Stmt.declaration?
  vars : ∀ s, s ∈ w.names.globals ↔ script.any (Stmt.declares s)
  texts : List.Forall₂ (fun s id => w.image.text? id = some s) w.names.globals w.image.program.globals
  lowered : lowerStmts w.names .top (script.filter (! ·.isFunction)) = .ok code
  counted : countInstrs Instr.isWork code < UInt32.size
  spelled : w.image.spelled? w.image.program.body = some (bareAll code)

/-- A script that was lowered has a setting. -/
theorem exists_holds {r : Registry κ} (hr : ∀ b ∈ r.builtins, b.Detached) (memory : Nat)
    {features : FeatureSet} {script : List Stmt} {p : Program String (List String)}
    (hp : lowerScript features r.signatures script = .ok p) (hstorable : p.Storable)
    {shapes : List (List String)} (hs : (Image.link p).Resolves shapes) :
    ∃ ns code, (⟨r, ns, Image.link p, shapes, memory⟩ : Setting κ).Holds script code := by
  have hl := programLinked_link p hstorable.numbered
  have hc := hstorable.counted
  obtain ⟨d, functions, code, hd, hf, hcode, rfl⟩ := lowerScript_eq_ok hp
  obtain ⟨hfunctions, hglobals⟩ := Declared.collect_eq_ok hd
  have hcount := hc.body
  rw [thinBody, count_thinAll] at hcount
  refine ⟨⟨features, r.signatures, d.functions, d.globals⟩, code, ?_⟩
  exact {
    linked_link hr memory rfl rfl rfl (mapM_ok_forall₂ hf) hl hc hs with
    declared := hfunctions
    vars := fun s => (hglobals s).trans (or_iff_right List.not_mem_nil)
    texts := hl.globals
    lowered := hcode
    counted := hcount
    spelled := spelled?_of_mapInstrsM hl.body (bareAll_thinAll ..) }

/-! ## Running a script -/

/-- What a script does at its top, from its first statement to its end. -/
theorem sim_script {w : Setting κ} (hw : w.Linked) {fuel : Nat} {ss : List Stmt} {code : List Code}
    (h : lowerStmts w.names .top ss = .ok code) (hc : countInstrs Instr.isWork code < UInt32.size)
    {s : Course κ} {st : Store κ} {body : List Op}
    (hs : s.At w st ⟨.top, body, body, 0⟩ [] (bareAll code) [] []) :
    Sim w fuel s st
      (do
        let _ ← execAll w.surroundings (invoke w.surroundings fuel) fuel ss [])
      fun _ st' s' => s'.Ended w st' [⟨.completed, st'.log⟩] := by
  rw [← List.append_nil (bareAll code)] at hs
  have hv : Scoped .top [] ⟨.top, body, body, 0⟩ [] [] :=
    ⟨⟨fun _ => rfl, fun _ => rfl⟩, rfl, rfl, Nat.zero_le _⟩
  have hc' : Scope.top.locals.length + countInstrs Instr.isWork code < UInt32.size := by
    rwa [show Scope.top.locals.length = 0 from rfl, Nat.zero_add]
  refine (sim_execAll hw (invokes hw fuel) hv h hc' hs).bind ?_
  intro result st' s' hs'
  obtain ⟨signal, env⟩ := result
  obtain ⟨hfollows, -⟩ := hs'
  cases signal with
  | next =>
    refine .leave hfollows fun s'' m hk hm hd => ?_
    obtain ⟨rest, hf, -⟩ := hm.frames
    have hend : m.endFrame = ({ m with phase := .complete }, .complete) := by
      unfold Machine.endFrame
      rw [hf]
    rw [hend] at hd
    refine .of_ok (Action.on_pure ..) (.step ?_)
    rw [hd.step_eq]
    refine .here ⟨rfl, hm.image, hm.heap, hm.globals, hk.context, ?_⟩
    change s''.past ++ [⟨.completed, m.log ++ []⟩] = _
    rw [hk.past, hm.log, List.append_nil]
  | breaks => exact nomatch hfollows.1
  | continues => exact nomatch hfollows.1
  | returns v => exact nomatch hfollows.1

/-- What the last turn of a run reports when the script has come to an end, or to a halt. A run that
waits for a tick that never comes has no turn left to report of. -/
inductive Concludes (log : List String) : Except Halt Unit → List TickReport → Prop where
  | completed : Concludes log (.ok ()) [⟨.completed, log⟩]
  | paused : Concludes log (.error .paused) []
  | failed (f : Fault) :
      Concludes log (.error (.failed f.cause f.detail)) [⟨.faulted f, log ++ f.report⟩]

/-- The reports of a session, and the machine after it, show what a script came to and what it left: what it
logged from tick to tick and how it ended, the heap and the globals. -/
structure Shows (reports : List TickReport) (m : Machine) (result : Except Halt Unit) (st : Store κ) : Prop where
  reports : ∃ last, reports = waited st.past ++ last ∧ Concludes st.log result last
  heap : m.heap = st.heap
  globals : ∀ s, m.global? s = st.globals s

/-- A name is at the same place among names as its number is among their numbers. -/
theorem findIdx?_of_forall₂ {image : Image} {names : List String} {ids : List UInt32}
    (h : List.Forall₂ (fun s id => image.text? id = some s) names ids) (s : String) :
    ids.findIdx? (fun id => image.text? id == some s) = names.findIdx? (fun t => t == s) := by
  induction h with
  | nil => rfl
  | cons hid _ ih =>
    rw [List.findIdx?_cons, List.findIdx?_cons, ih, hid]
    rfl

/-- The globals that a host finds by name are those of the script. -/
theorem Course.Ended.global?_eq {w : Setting κ} {s : Course κ} {st : Store κ} {last : List TickReport}
    (h : s.Ended w st last)
    (ht : List.Forall₂ (fun s id => w.image.text? id = some s) w.names.globals w.image.program.globals)
    (name : String) : s.machine.global? name = st.globals name := by
  rw [h.globals.value name, ← findIdx?_of_forall₂ ht name, ← h.image]
  rfl

section Start

variable {w : Setting κ} {script : List Stmt} {code : List Code}

/-- A machine at the start of a script's program is where the script starts. -/
theorem Setting.Holds.start (hw : w.Holds script code) {limits : Limits} (hm : limits.memory = w.memory)
    (waits : Nat) (c : κ) :
    Course.At w ⟨(Machine.start w.image w.shapes limits).startTick, c, [], waits, false⟩
      (Store.start script waits c) ⟨.top, w.image.program.body, w.image.program.body, 0⟩ []
      (bareAll code) [] [] where
  keeps := ⟨rfl, rfl, rfl, rfl⟩
  machine := {
    image := rfl
    heap := rfl
    globals := by
      have h := globalsAgree_start hw.vars waits c
      rw [hw.texts.length_eq] at h
      exact h
    log := rfl
    shapes := rfl
    memory := hm
    phase := rfl
    frames := ⟨_, rfl, hw.spelled⟩
    operands := rfl
    locals := rfl }

/-- A session that is not cut short comes to the end that the script comes to. -/
theorem Setting.Holds.session (hw : w.Holds script code) {limits : Limits} (hm : limits.memory = w.memory)
    (c : κ) {waits fuel : Nat} (hfuel : limits.instructions * (waits + 1) < fuel)
    (huncut : ∀ report ∈ (w.registry.session (waits + 1) (.start w.image w.shapes limits) c).1,
      report.outcome.isCutShort = false) :
    ∃ (s : Course κ) (last : List TickReport),
      s.result w.registry = w.registry.session (waits + 1) (.start w.image w.shapes limits) c ∧
      s.Ended w (meaning w.registry w.memory waits fuel script c).2 last ∧
      Concludes (meaning w.registry w.memory waits fuel script c).2.log
        (meaning w.registry w.memory waits fuel script c).1 last := by
  have hstart := hw.start hm waits c
  generalize hs : (⟨(Machine.start w.image w.shapes limits).startTick, c, [], waits, false⟩ : Course κ) = s
    at hstart
  have hresult : s.result w.registry =
      w.registry.session (waits + 1) (.start w.image w.shapes limits) c := by
    rw [← hs, Registry.session_succ _ _ rfl]
    exact Course.result_of_not_over rfl
  have hbudget : s.budget = limits.instructions * (waits + 1) := by
    rw [← hs, Course.budget_of_not_over rfl, Nat.mul_succ, Nat.add_comm]
    rfl
  have hsim : Sim w fuel s (Store.start script waits c) _ _ :=
    sim_script hw.toLinked hw.lowered hw.counted hstart
  have hmeaning : meaning w.registry w.memory waits fuel script c =
      Action.on (do
        let _ ← execAll w.surroundings (invoke w.surroundings fuel) fuel
          (script.filter (! ·.isFunction)) []) (Store.start script waits c) := by
    unfold meaning
    rw [← hw.declared]
    rfl
  unfold Sim at hsim
  rw [← hmeaning] at hsim
  rcases hsim with ⟨report, hmem, hcut⟩ | ⟨s', hr, hs'⟩
  · rw [hresult] at hmem
    exact nomatch hcut.symm.trans (huncut report hmem)
  · have hresult' := hr.result_eq.trans hresult
    rcases hm : meaning w.registry w.memory waits fuel script c with ⟨halt | u, st⟩
    · rw [hm] at hs'
      cases halt with
      | starved =>
        -- The machine cannot have made more steps than it could pay for.
        have hle : s'.budget + fuel ≤ s.budget := hs'
        omega
      | paused => exact ⟨s', [], hresult', hs', .paused⟩
      | failed cause detail =>
        obtain ⟨f, rfl, rfl, hended⟩ := hs'
        exact ⟨s', _, hresult', hended, .failed f⟩
    · rw [hm] at hs'
      exact ⟨s', _, hresult', hs', .completed⟩

end Start

/-- A session shows what the script means, if the functions of the host look at no more of a machine than the
script has. -/
theorem session_detached {r : Registry κ} (hr : ∀ b ∈ r.builtins, b.Detached) {features : FeatureSet}
    {script : List Stmt} {p : Program String (List String)}
    (hp : lowerScript features r.signatures script = .ok p) (hstorable : p.Storable)
    {shapes : List (List String)} (hs : (Image.link p).Resolves shapes) (limits : Limits) (c : κ)
    {waits fuel : Nat} (hfuel : limits.instructions * (waits + 1) < fuel)
    (huncut : ∀ report ∈ (r.session (waits + 1) (.start (Image.link p) shapes limits) c).1,
      report.outcome.isCutShort = false) :
    ∃ reports m' c' result st,
      r.session (waits + 1) (.start (Image.link p) shapes limits) c = (reports, m', c') ∧
      meaning r limits.memory waits fuel script c = (result, st) ∧ Shows reports m' result st ∧
      st.context = c' := by
  obtain ⟨ns, code, hw⟩ := exists_holds hr limits.memory hp hstorable hs
  obtain ⟨s, last, hresult, hended, hlast⟩ := hw.session rfl c hfuel huncut
  unfold Course.result at hresult
  rw [if_pos hended.isOver] at hresult
  exact ⟨s.past, s.machine, s.context, _, _, hresult.symm, rfl,
    ⟨⟨last, hended.past, hlast⟩, hended.heap, hended.global?_eq hw.texts⟩, hended.context.symm⟩

/-- With the functions of the library and no others, a session shows what the script means if these functions
are run as they are. -/
theorem session_library {modules : List (Module κ)}
    (hmodules : ∀ module ∈ modules, module ∈ [Module.standard, Module.memory, Module.floatingPoint])
    {features : FeatureSet} {script : List Stmt} {p : Program String (List String)}
    (hp : lowerScript features (Registry.ofModules modules).signatures script = .ok p)
    (hstorable : p.Storable) (limits : Limits) (c : κ) :
    ∃ m, Machine.load (Image.link p).encode limits = .ok m ∧
      ∀ waits fuel, limits.instructions * (waits + 1) < fuel →
        (∀ report ∈ ((Registry.ofModules modules).session (waits + 1) m c).1,
          report.outcome.isCutShort = false) →
        ∃ reports m' c' result st,
          (Registry.ofModules modules).session (waits + 1) m c = (reports, m', c') ∧
          meaning (Registry.ofModules modules) limits.memory waits fuel script c = (result, st) ∧
          Shows reports m' result st ∧ st.context = c' := by
  obtain ⟨shapes, hs⟩ := Image.exists_resolves hstorable.numbered
  refine ⟨_, Machine.load_link hstorable hs limits, fun waits fuel hfuel huncut => ?_⟩
  have hdetached : ∀ b ∈ (Registry.ofModules modules).builtins, b.Detached :=
    fun b hb => (discreet_ofModules hmodules hb).detached
  exact session_detached hdetached hp hstorable hs limits c hfuel huncut

/-- **Compiling preserves meaning.** A script that can be lowered for the functions of a host loads under
any limits. However many turns the host gives the program, as long as no turn is cut short by a limit, the
turns report what the script logs from tick to tick and how it ends, and leave the heap and the globals as
the script does.

What the host answers may depend on the whole machine. The script is run with the answers that the program
got: it uses them all up, and has asked for the same things in the same order. If the functions of the host
look only at what a script has as well, the script is run with these functions themselves, and leaves what
the host keeps as the program does. -/
theorem session_meaning (r : Registry κ) {features : FeatureSet} {script : List Stmt}
    {p : Program String (List String)} (hp : lowerScript features r.signatures script = .ok p)
    (hstorable : p.Storable) (limits : Limits) (c : κ) :
    ∃ m, Machine.load (Image.link p).encode limits = .ok m ∧
      ∀ waits fuel, limits.instructions * (waits + 1) < fuel →
        (∀ report ∈ (r.session (waits + 1) m c).1, report.outcome.isCutShort = false) →
        ∃ reports m' c', r.session (waits + 1) m c = (reports, m', c') ∧
          (∃ result st,
            meaning r.replay limits.memory waits fuel script
              ⟨(r.sessionCalls (waits + 1) m c).map HostCall.reply, []⟩ = (result, st) ∧
            Shows reports m' result st ∧
            st.context = ⟨[], (r.sessionCalls (waits + 1) m c).map HostCall.asked⟩) ∧
          ((∀ b ∈ r.builtins, b.Detached) → ∃ result st,
            meaning r limits.memory waits fuel script c = (result, st) ∧ Shows reports m' result st ∧
            st.context = c') := by
  obtain ⟨shapes, hs⟩ := Image.exists_resolves hstorable.numbered
  refine ⟨_, Machine.load_link hstorable hs limits, fun waits fuel hfuel huncut => ?_⟩
  have hreplay := r.session_replay (waits + 1) (.start (Image.link p) shapes limits) c [] []
  rw [List.append_nil, List.nil_append] at hreplay
  rcases hsession : r.session (waits + 1) (.start (Image.link p) shapes limits) c with ⟨reports, m', c'⟩
  rw [hsession] at hreplay
  refine ⟨reports, m', c', rfl, ?_, fun hr => ?_⟩
  · -- The answers are on the tape, and the functions that play them back look at nothing else.
    obtain ⟨reports', m'', tape, result, st, htape, hmeaning, hshows, hcontext⟩ :=
      session_detached r.detached_replay (r.signatures_replay.symm ▸ hp) hstorable hs limits _ hfuel
        (by rw [hreplay]; rw [hsession] at huncut; exact huncut)
    cases hreplay.symm.trans htape
    exact ⟨result, st, hmeaning, hshows, hcontext⟩
  · obtain ⟨reports', m'', c'', result, st, hsession', hmeaning, hshows, hcontext⟩ :=
      session_detached hr hp hstorable hs limits c hfuel huncut
    cases hsession.symm.trans hsession'
    exact ⟨result, st, hmeaning, hshows, hcontext⟩

namespace Shadowing

/-- A global, a parameter and a variable of a block share a name. -/
def script : List Stmt :=
  [.declare ⟨1, "a"⟩ "x" (.int ⟨1, "a"⟩ 4),
    .function ⟨2, "a"⟩ "f" ["x"] [.giveBack ⟨2, "a"⟩ (.name ⟨2, "a"⟩ "x")],
    .tick ⟨3, "a"⟩ [.declare ⟨3, "a"⟩ "x" (.call ⟨3, "a"⟩ "f" [.name ⟨3, "a"⟩ "x"]),
      .expr ⟨4, "a"⟩ (.call ⟨4, "a"⟩ "depth" [.name ⟨4, "a"⟩ "x"])]]

/-- A host that tells a program how many frames its machine has. -/
def host : Registry Unit :=
  ⟨[.ofResult "depth" 1 1 fun m _ => .ok (.int (Int64.ofNat m.frames.length))]⟩

end Shadowing

/-- A name that stands for three variables, and an answer that a script without a machine cannot work out. -/
theorem session_meaning_shadowing :
    ∃ p m, lowerScript .full Shadowing.host.signatures Shadowing.script = .ok p ∧ p.Storable ∧
      Machine.load (Image.link p).encode .least = .ok m ∧
      (∀ report ∈ (Shadowing.host.session 2 m ()).1, report.outcome.isCutShort = false) ∧
      ∃ reports m' c', Shadowing.host.session 2 m () = (reports, m', c') ∧
        ∃ result st,
          meaning Shadowing.host.replay Limits.least.memory 1 2001 Shadowing.script
            ⟨(Shadowing.host.sessionCalls 2 m ()).map HostCall.reply, []⟩ = (result, st) ∧
          Shows reports m' result st ∧
          st.context = ⟨[], (Shadowing.host.sessionCalls 2 m ()).map HostCall.asked⟩ := by
  obtain ⟨p, hp, hsize, hshapes, huncut⟩ : ∃ p,
      lowerScript .full Shadowing.host.signatures Shadowing.script = .ok p ∧
      (Image.link p).encode.length < UInt32.size ∧ (Image.link p).Resolves [] ∧
      (Shadowing.host.session 2 (.start (Image.link p) [] .least) ()).1.all
        (fun report => report.outcome.isCutShort == false) = true :=
    ⟨_, rfl, by decide +kernel, rfl, by cbv⟩
  have hstorable : p.Storable := .of_length_encode hsize
  obtain ⟨m, hm, h⟩ := session_meaning Shadowing.host hp hstorable .least ()
  have huncut' : ∀ report ∈ (Shadowing.host.session 2 m ()).1, report.outcome.isCutShort = false := by
    cases hm.symm.trans (Machine.load_link hstorable hshapes .least)
    intro report hmem
    exact LawfulBEq.eq_of_beq (List.all_eq_true.1 huncut report hmem)
  obtain ⟨reports, m', c', hsession, hreplayed, -⟩ := h 1 2001 (by decide) huncut'
  exact ⟨p, m, hp, hstorable, hm, huncut', reports, m', c', hsession, hreplayed⟩

end TickScript
