import TickScript.Proofs.Machine.Places
import TickScript.Proofs.Tick.Soundness

/-!
# Where faults point

A fault carries the place where the machine stands and the calls that are active (`faults_here`). For a
machine that runs a compiled script both can be read from the script (`fault_places`): an instruction that
was made for a node of the script fails at the line where the node ends, which is the line of its last
operand, and each active call is listed with the line where its node ends. Where a node stands on one line
this is the line of the node. The files are right as well, as long as no branch or loop of the script
leaves its file.
-/

namespace TickScript

/-! ## Nodes and what is reported of them -/

namespace Origin

/-- Whether what an instruction was made for stands in one place. -/
def isCompact : Origin → Bool
  | .node e => e.everywhere (· == e.location)
  | .store loc value => value.everywhere (· == loc)
  | _ => false

/-- What stands in one place ends there. -/
theorem place?_eq_source? {o : Origin} (h : o.isCompact) : o.place? = o.source? := by
  cases o with
  | node e => exact congrArg some (e.ends_eq_location h)
  | store loc value => exact congrArg some (LawfulBEq.eq_of_beq (value.everywhere_ends h))
  | branch | loop | work => exact nomatch h

/-- What an instruction was made for is reported where it ends, so in its own place if it stands in one. -/
structure ReportedAs (o : Origin) (filed : Bool) (here : Location) : Prop where
  ends : ∀ p, o.place? = some p → p.ShownAs filed here
  compact : o.isCompact → ∀ p, o.source? = some p → p.ShownAs filed here

/-- What is shown where it ends is reported so. -/
theorem reportedAs {o : Origin} {filed : Bool} {here : Location}
    (h : ∀ p, o.place? = some p → p.ShownAs filed here) : o.ReportedAs filed here :=
  ⟨h, fun ho p hp => h p ((place?_eq_source? ho).trans hp)⟩

end Origin

/-- The call was made by a node of the script: it bears the name that the node calls, and the place is where
the node ends. -/
structure CallSite.MadeBy (filed : Bool) (c : CallSite) (e : Expr) : Prop where
  callee : ∃ loc args, e = .call loc c.name args
  place : (Origin.node e).ReportedAs filed c.location

/-- Each call that is listed was made by its node of the script. -/
theorem Tracks.madeBy {r : Reading UInt32} {sheet : Sheet} {frames : List Frame} {calls : List CallSite}
    {callers : List Expr} {s : Spot} (h : Tracks r sheet frames calls callers s) :
    List.Forall₂ (CallSite.MadeBy r.filed) calls callers := by
  induction h with
  | bottom => exact .nil
  | block _ _ _ _ _ ih => exact ih
  | called _ _ _ _ called shown _ _ ih =>
    cases called
    refine .cons ⟨⟨_, _, rfl⟩, Origin.reportedAs ?_⟩ ih
    rintro p ⟨⟩
    exact shown

namespace Machine

/-! ## Faults name the place of the machine -/

/-- A failure names the place of the machine and its calls. -/
def Blames (m : Machine) (result : Machine × Status) : Prop :=
  ∀ f, result.2 = .fault f → f.location = m.location ∧ f.trace = m.calls

/-- A failure is blamed on where the machine stood, if this has not changed. -/
theorem blames_stop {m m' : Machine} (hl : m'.location = m.location) (hc : m'.calls = m.calls)
    (cause : Cause) : m.Blames (m'.stop cause) := by
  rintro f ⟨⟩
  exact ⟨hl, hc⟩

/-- However a step comes out, a failure is blamed on where the machine stood. -/
theorem Comes.blames {m : Machine} {result : Machine × Status} (h : Comes m result) : m.Blames result := by
  cases h with
  | goes | yields | completes => exact fun f hf => nomatch hf
  | stops _ hl hc => exact blames_stop hl hc _

/-- A call of the host is no failure. -/
theorem Asks.blames {m : Machine} {result : Machine × Status} (h : Asks m result) : m.Blames result := by
  cases h
  exact fun f hf => nomatch hf

/-- A step that fails names the place where the machine stood before it, and the calls that were active. -/
theorem faults_here {m : Machine} (h : m.fault? = none) : m.Blames m.step := by
  cases m.stepCase with
  | complete _ hs | unpaid _ _ hs =>
    rw [hs]
    exact fun f hf => nomatch hf
  | faulted f hp =>
    unfold fault? at h
    rw [hp] at h
    exact nomatch h
  | unanswered _ hs | overfull _ _ _ hs => exact hs ▸ blames_stop rfl rfl _
  | made _ _ _ hs =>
    rw [hs]
    exact (comes_or_asks { m with spent := m.spent + 1 }).elim Comes.blames Asks.blames

/-- A host that refuses a call, and blames the machine for it, names the place where the machine waits and the
calls that are active. -/
theorem refuses_here {κ : Type} {r : Registry κ} (hr : ∀ b ∈ r.builtins, b.Blames) {m : Machine}
    (hp : m.phase = .awaiting) (c : κ) (id : UInt32) (args : List Value) {f : Fault}
    (h : (r.answer m c id args).1 = .error f) : f.location = m.location ∧ f.trace = m.calls := by
  unfold Registry.answer Service.answer at h
  cases hb : r.meant? m.image id with
  | none =>
    rw [Registry.dispatch_of_not_meant hb] at h
    cases h
    exact ⟨rfl, rfl⟩
  | some b =>
    have hblames := hr b (Registry.mem_of_meant? hb) args m c
    rw [Registry.dispatch_of_meant hb] at h
    unfold Builtin.serve at h
    generalize b.run args m c = reply at h hblames
    obtain ⟨result, heap, log, context⟩ := reply
    cases result with
    | error f' =>
      cases h
      rw [hblames f rfl]
      exact ⟨rfl, rfl⟩
    | ok v =>
      have hwaits : ({ m with heap := heap.release args, log } : Machine).phase = .awaiting := hp
      simp only [settle, pushResult_of_awaiting hwaits] at h
      cases h

end Machine

/-! ## Compiled scripts -/

/-- A statement that declares no function and stays in its files keeps to one. -/
theorem Stmt.keepsFile_of_staysInFiles {s : Stmt} (hf : s.isFunction = false) (h : s.staysInFiles) :
    s.keepsFile := by
  cases s with
  | function => exact nomatch hf
  | _ => exact h

/-- The bodies of a script's program stand where the script says. -/
theorem fits_link {features : FeatureSet} {builtins : List (Signature String)} {script : List Stmt}
    {p : Program String (List String)} (h : lowerScript features builtins script = .ok p)
    (hs : p.Storable) :
    ∃ g : Guide, g.toSheet = .ofScript script ∧ g.filed = script.all Stmt.staysInFiles ∧
      g.Fits (Image.link p) := by
  have hl := programLinked_link p hs.numbered
  have hc := hs.counted
  obtain ⟨d, functions, code, hd, hf, hcode, rfl⟩ := lowerScript_eq_ok h
  have hfunctions := (Declared.collect_eq_ok hd).1
  have hlower := mapM_ok_forall₂ hf
  have hn : Names.Numbered ⟨features, builtins, d.functions, d.globals⟩ :=
    ⟨hlower.length_eq ▸ hc.functions, hc.builtins⟩
  have hstays (hfiled : script.all Stmt.staysInFiles = true) : ∀ s ∈ script, s.staysInFiles :=
    List.all_eq_true.1 hfiled
  refine ⟨⟨.ofScript script, Names.Calls ⟨features, builtins, d.functions, d.globals⟩,
    script.all Stmt.staysInFiles⟩, rfl, rfl, ?_, ?_⟩
  · -- The body of the program is what stands outside of functions.
    have hbody (hfiled : script.all Stmt.staysInFiles = true) :
        ∀ s ∈ script.filter (! ·.isFunction), s.keepsFile := by
      intro s hs
      obtain ⟨hmem, hs⟩ := List.mem_filter.1 hs
      exact Stmt.keepsFile_of_staysInFiles (by simpa using hs) (hstays hfiled s hmem)
    obtain ⟨k, hk⟩ := traced_lowerStmts hn .none hcode hbody
    exact ⟨_, hk.thinBody.of_mapInstrsM hl.body⟩
  · -- A function keeps its number from the script over the compiled program to the image.
    rintro id s f ⟨decl, hfind, hget⟩ hfunction
    obtain ⟨fn, hfn, hdecl⟩ := getElem?_of_forall₂_left hlower hget
    obtain ⟨f', hf', hlinked⟩ := getElem?_of_forall₂_left hl.functions hfn
    cases hfunction.symm.trans hf'
    have hbody (hfiled : script.all Stmt.staysInFiles = true) : ∀ s ∈ decl.body, s.keepsFile := by
      have hmem : decl ∈ script.filterMap Stmt.declaration? := by
        rw [← List.nil_append (script.filterMap _), ← hfunctions]
        exact List.mem_of_getElem? hget
      obtain ⟨st, hst, hdeclares⟩ := List.mem_filterMap.1 hmem
      have hkeeps := hstays hfiled st hst
      cases st with
      | function loc s params body =>
        cases hdeclares
        exact List.all_eq_true.1 hkeeps
      | _ => exact nomatch hdeclares
    obtain ⟨k, hk⟩ := decl.located_lower hn hdecl hbody
    have hname : decl.name = s := by simpa using List.find?_some hfind
    refine ⟨?_, decl.origins, k, ?_, hk.of_mapInstrsM hlinked.body⟩
    · obtain ⟨body, -, rfl⟩ := decl.lower_eq_ok hdecl
      exact hlinked.name.trans (congrArg some hname)
    · rw [hfunctions] at hfind
      exact congrArg (Option.map Declaration.origins) hfind

namespace Machine

/-- A machine starts where the guide says. -/
theorem guided_start {g : Guide} {image : Image} (h : g.Fits image) (shapes : List (List String))
    (limits : Limits) : (start image shapes limits).Guided g [] ⟨none, g.body, g.body, .none⟩ where
  fits := h
  tracks := .bottom rfl rfl ⟨h.body, h.body, List.suffix_rfl, fun _ hp => nomatch hp⟩
  known := ⟨fun _ hn => (nomatch hn), fun _ hf => nomatch hf⟩
  awaits := fun hp => nomatch hp

/-- The instruction that the machine runs next. -/
def next? (m : Machine) : Option Op := m.frames.head?.bind (·.rest.head?)

/-- What the next instruction was made for is where the machine stands. -/
theorem Guided.next {g : Guide} {m : Machine} {callers : List Expr} {s : Spot}
    (h : m.Guided g callers s) {op : Op} (hop : m.next? = some op) (hw : op.isWork) :
    ∃ o left, s.left = o :: left ∧ op.IsFor o ∧ o.ReportedAs g.filed m.location := by
  obtain ⟨f, hf, hop⟩ := Option.bind_eq_some_iff.1 hop
  obtain ⟨frames, hm⟩ := List.head?_eq_some_iff.1 hf
  obtain ⟨rest, hr⟩ := List.head?_eq_some_iff.1 hop
  have hstands : f.Stands (g.reading m.image) s := Tracks.stands (hm ▸ h.tracks)
  obtain ⟨k, hk⟩ := hstands.left
  rw [hr] at hk
  obtain ⟨o, left, hleft, hfor, htell⟩ := hk.head hw
  exact ⟨o, left, hleft, hfor, Origin.reportedAs fun p hp => h.known.shownAs (htell p hp)⟩

/-- A machine that waits for its host stands where the node of the call ends. -/
theorem Guided.calling {g : Guide} {m : Machine} {callers : List Expr} {s : Spot}
    (h : m.Guided g callers s) (hp : m.phase = .awaiting) :
    ∃ e, .node e :: s.left <:+ s.whole ∧ (Origin.node e).ReportedAs g.filed m.location := by
  obtain ⟨loc, callee, args, hpassed, hshown⟩ := h.awaits hp
  refine ⟨.call loc callee args, hpassed, Origin.reportedAs ?_⟩
  rintro p ⟨⟩
  exact hshown

/-- **Faults point where nodes end.** Take any script that compiles and any machine that has loaded it,
whatever its host has done with it since, as long as it has not failed. Its frames follow the script: the
next instruction that is no place was made for the first of the origins that are left, and each active
call for a call in the script.

If the next step fails, or the host refuses the call that the machine waits for and blames the machine for it,
the fault names the line where the node ends that the instruction was made for, and lists each active call with
the line where its node ends. For a node that stands in one place these are its own line. The files are those
of the lines, as long as no branch or loop of the script leaves its file. -/
theorem fault_places {files : List SourceFile} {features : FeatureSet}
    {builtins : List (Signature String)} {bytes : List UInt8} {limits : Limits} {m₀ m : Machine}
    (deeds : List Deed) (hc : compile files features builtins = .ok bytes)
    (hstorable : ∀ p, compileProgram files features builtins = .ok p → p.Storable)
    (hload : load bytes limits = .ok m₀) (hm : m₀.after deeds = m) (hf : m.fault? = none) :
    ∃ script, (tokenizeFiles files >>= Parser.parse) = .ok script ∧
      ∃ callers whole left, Follows (.ofScript script) m.frames callers whole left ∧
        (∀ f, m.step.2 = .fault f →
          List.Forall₂ (CallSite.MadeBy (script.all Stmt.staysInFiles)) f.trace callers ∧
          ∀ op, m.next? = some op → op.isWork →
            ∃ o rest, left = o :: rest ∧ op.IsFor o ∧
              o.ReportedAs (script.all Stmt.staysInFiles) f.location) ∧
        ∀ (κ : Type) (r : Registry κ) (c : κ) (id : UInt32) (args : List Value) (f : Fault),
          (∀ b ∈ r.builtins, b.Blames) → m.phase = .awaiting → (r.answer m c id args).1 = .error f →
            List.Forall₂ (CallSite.MadeBy (script.all Stmt.staysInFiles)) f.trace callers ∧
            ∃ e, .node e :: left <:+ whole ∧
              (Origin.node e).ReportedAs (script.all Stmt.staysInFiles) f.location := by
  obtain ⟨p, hcompiled, rfl⟩ := compile_eq_ok hc
  obtain ⟨script, hparse, hp⟩ := compileProgram_eq_ok.1 hcompiled
  have hs := hstorable p hcompiled
  obtain ⟨g, hsheet, hfiled, hfits⟩ := fits_link hp hs
  obtain ⟨shapes, hshapes⟩ := Image.exists_resolves hs.numbered
  cases hload.symm.trans (load_link hs hshapes limits)
  -- What the machine tells is kept by every deed of its host.
  have htold : m.Told g := by
    rw [← hm]
    refine after_induction (P := Told g) ?_ (guided_start hfits shapes limits).told deeds
    exact fun _ d h => told_perform h d
  obtain ⟨callers, s, hguided⟩ := htold hf
  have hfollows := hguided.tracks.follows
  rw [hsheet] at hfollows
  refine ⟨script, hparse, callers, s.whole, s.left, hfollows, ?_⟩
  rw [← hfiled]
  refine ⟨?_, ?_⟩
  · intro f hfault
    obtain ⟨hplace, htrace⟩ := faults_here hf f hfault
    rw [hplace, htrace]
    exact ⟨hguided.tracks.madeBy, fun op hop hw => hguided.next hop hw⟩
  · intro κ r c id args f hblames hwaits hrefused
    obtain ⟨hplace, htrace⟩ := refuses_here hblames hwaits c id args hrefused
    rw [hplace, htrace]
    exact ⟨hguided.tracks.madeBy, hguided.calling hwaits⟩

/-- A quotient and a call that are each written on two lines: the fault is reported on the second line of the
quotient, and the call on the second line of the call. -/
theorem fault_places_call :
    ∃ bytes m₀ m f, compile [⟨"a", "fun f(x) \x7b\nreturn 1 /\nx \x7d\nvar y = f(\n0)"⟩] .full [] = .ok bytes ∧
      load bytes .least = .ok m₀ ∧
      m₀.after (List.replicate 11 .step) = m ∧ m.fault? = none ∧ m.step.2 = .fault f ∧
      f.location = ⟨3, "a"⟩ ∧ f.trace = [⟨"f", ⟨5, "a"⟩⟩] ∧
      ∃ script callers whole left, Follows (.ofScript script) m.frames callers whole left ∧
        List.Forall₂ (CallSite.MadeBy (script.all Stmt.staysInFiles)) f.trace callers ∧
        ∃ o rest, left = o :: rest ∧ Instr.IsFor o (.binary .div : Op) ∧
          o.ReportedAs (script.all Stmt.staysInFiles) f.location := by
  have hparse : (tokenizeFiles [⟨"a", "fun f(x) \x7b\nreturn 1 /\nx \x7d\nvar y = f(\n0)"⟩] >>=
      Parser.parse) = .ok
        [.function ⟨1, "a"⟩ "f" ["x"] [.giveBack ⟨2, "a"⟩
            (.binary ⟨2, "a"⟩ .div (.int ⟨2, "a"⟩ 1) (.name ⟨3, "a"⟩ "x"))],
          .declare ⟨4, "a"⟩ "y" (.call ⟨4, "a"⟩ "f" [.int ⟨5, "a"⟩ 0])] := by
    cbv
  obtain ⟨p, hp, hsize, hshapes, hrun⟩ : ∃ p, lowerScript .full []
      [.function ⟨1, "a"⟩ "f" ["x"] [.giveBack ⟨2, "a"⟩
          (.binary ⟨2, "a"⟩ .div (.int ⟨2, "a"⟩ 1) (.name ⟨3, "a"⟩ "x"))],
        .declare ⟨4, "a"⟩ "y" (.call ⟨4, "a"⟩ "f" [.int ⟨5, "a"⟩ 0])] = .ok p ∧
      (Image.link p).encode.length < UInt32.size ∧ (Image.link p).Resolves [] ∧
      ((start (Image.link p) [] .least).after (List.replicate 11 .step)).fault? = none ∧
      ((start (Image.link p) [] .least).after (List.replicate 11 .step)).step.2 =
        .fault ⟨.divisionByZero, ⟨3, "a"⟩, none, [⟨"f", ⟨5, "a"⟩⟩]⟩ ∧
      ((start (Image.link p) [] .least).after (List.replicate 11 .step)).next? = some (.binary .div) :=
    ⟨_, rfl, by decide +kernel, rfl, by cbv, by cbv, by cbv⟩
  have hstorable : p.Storable := .of_length_encode hsize
  have hload := load_link hstorable hshapes .least
  have hcompiled := compileProgram_eq_ok.2 ⟨_, hparse, hp⟩
  have hc := compile_of_parse hparse hp
  obtain ⟨script, -, callers, whole, left, hfollows, hfaults, -⟩ :=
    fault_places (List.replicate 11 .step) hc
      (fun _ h => Except.ok.inj (hcompiled.symm.trans h) ▸ hstorable) hload rfl hrun.1
  obtain ⟨htrace, hnext⟩ := hfaults _ hrun.2.1
  exact ⟨_, _, _, _, hc, hload, rfl, hrun.1, hrun.2.1, rfl, rfl, script, callers, whole, left,
    hfollows, htrace, hnext _ hrun.2.2 rfl⟩

/-- A fault may be reported on another line than that of the node that raised it, and in another file: a
quotient on two lines fails on the second of them, and one behind a branch that ends in the next file
fails in the file where the branch began. -/
theorem exists_fault_elsewhere :
    (∃ bytes m e f, (tokenizeFiles [⟨"a", "var x = 1 /\n0"⟩] >>= Parser.parse) =
        .ok [.declare ⟨1, "a"⟩ "x" e] ∧ compile [⟨"a", "var x = 1 /\n0"⟩] .full [] = .ok bytes ∧
      load bytes .least = .ok m ∧ m.stepBatch.2 = .fault f ∧ f.cause = .divisionByZero ∧
      f.location.line ≠ e.location.line) ∧
    ∃ bytes m before e f, (tokenizeFiles [⟨"a", "var c = 0\nif c \x7b"⟩,
          ⟨"b", "c = 1\n\x7d\nvar y = 1 / 0"⟩] >>= Parser.parse) =
        .ok (before ++ [.declare ⟨3, "b"⟩ "y" e]) ∧
      compile [⟨"a", "var c = 0\nif c \x7b"⟩, ⟨"b", "c = 1\n\x7d\nvar y = 1 / 0"⟩] .full [] = .ok bytes ∧
      load bytes .least = .ok m ∧ m.stepBatch.2 = .fault f ∧ f.cause = .divisionByZero ∧
      f.location.file ≠ e.location.file := by
  constructor
  · have hparse : (tokenizeFiles [⟨"a", "var x = 1 /\n0"⟩] >>= Parser.parse) = .ok
        [.declare ⟨1, "a"⟩ "x" (.binary ⟨1, "a"⟩ .div (.int ⟨1, "a"⟩ 1) (.int ⟨2, "a"⟩ 0))] := by
      cbv
    obtain ⟨p, hp, hsize, hshapes, hrun⟩ : ∃ p, lowerScript .full []
        [.declare ⟨1, "a"⟩ "x" (.binary ⟨1, "a"⟩ .div (.int ⟨1, "a"⟩ 1) (.int ⟨2, "a"⟩ 0))] = .ok p ∧
        (Image.link p).encode.length < UInt32.size ∧ (Image.link p).Resolves [] ∧
        (start (Image.link p) [] .least).stepBatch.2 =
          .fault ⟨.divisionByZero, ⟨2, "a"⟩, none, []⟩ :=
      ⟨_, rfl, by decide +kernel, rfl, by cbv⟩
    exact ⟨_, _, _, _, hparse, compile_of_parse hparse hp,
      load_link (.of_length_encode hsize) hshapes .least, hrun, rfl, by decide⟩
  · have hparse : (tokenizeFiles [⟨"a", "var c = 0\nif c \x7b"⟩,
          ⟨"b", "c = 1\n\x7d\nvar y = 1 / 0"⟩] >>= Parser.parse) = .ok
        [.declare ⟨1, "a"⟩ "c" (.int ⟨1, "a"⟩ 0), .branch ⟨2, "a"⟩ (.name ⟨2, "a"⟩ "c")
            [.assign ⟨1, "b"⟩ (.name ⟨1, "b"⟩ "c") (.int ⟨1, "b"⟩ 1)] [],
          .declare ⟨3, "b"⟩ "y" (.binary ⟨3, "b"⟩ .div (.int ⟨3, "b"⟩ 1) (.int ⟨3, "b"⟩ 0))] := by
      cbv
    obtain ⟨p, hp, hsize, hshapes, hrun⟩ : ∃ p, lowerScript .full []
        [.declare ⟨1, "a"⟩ "c" (.int ⟨1, "a"⟩ 0), .branch ⟨2, "a"⟩ (.name ⟨2, "a"⟩ "c")
            [.assign ⟨1, "b"⟩ (.name ⟨1, "b"⟩ "c") (.int ⟨1, "b"⟩ 1)] [],
          .declare ⟨3, "b"⟩ "y" (.binary ⟨3, "b"⟩ .div (.int ⟨3, "b"⟩ 1) (.int ⟨3, "b"⟩ 0))] = .ok p ∧
        (Image.link p).encode.length < UInt32.size ∧ (Image.link p).Resolves [] ∧
        (start (Image.link p) [] .least).stepBatch.2 =
          .fault ⟨.divisionByZero, ⟨3, "a"⟩, none, []⟩ :=
      ⟨_, rfl, by decide +kernel, rfl, by cbv⟩
    exact ⟨_, _, [_, _], _, _, hparse, compile_of_parse hparse hp,
      load_link (.of_length_encode hsize) hshapes .least, hrun, rfl, by decide⟩

end Machine

end TickScript
