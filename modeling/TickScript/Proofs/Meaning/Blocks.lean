import TickScript.Proofs.Heap.Release
import TickScript.Proofs.Meaning.Variables

/-!
# Blocks and frames

A block of the script is a frame of the machine: its variables are the locals above the frame's base.
Where the script ends a block and hands a signal to the statement around it, the machine leaves the
frame. It leaves all frames up to the loop or function that the signal is meant for in one step, so the
machine is only about to leave them (`Course.Exits`) while the script gets there block by block: what
`break`, `continue` and `return` do from an inner frame is what they do once that frame is gone.
-/

namespace TickScript

variable {κ : Type}

/-! ## Leaving frames -/

namespace Machine

variable {m : Machine} {f : Frame} {frames : List Frame}

/-- The machine without the frame on top of some frames, and without the locals made in it. -/
def left (m : Machine) (f : Frame) (frames : List Frame) : Machine := { m.truncate f.base with frames }

/-- Leaving branches reads the frames it is given, not those of the machine. -/
theorem leaveBranches_frames (m : Machine) (frames frames' : List Frame) :
    ({ m with frames := frames' } : Machine).leaveBranches frames = m.leaveBranches frames := by
  induction frames generalizing m with
  | nil => rfl
  | cons f frames ih =>
    rw [leaveBranches, leaveBranches]
    split
    · exact ih (m.truncate f.base)
    · rfl

/-- Leaving a function reads the frames it is given, not those of the machine. -/
theorem leaveFunction_frames (m : Machine) (frames frames' : List Frame) :
    ({ m with frames := frames' } : Machine).leaveFunction frames = m.leaveFunction frames := by
  induction frames generalizing m with
  | nil => rfl
  | cons f frames ih =>
    rw [leaveFunction, leaveFunction]
    split
    · rfl
    · rfl
    · exact ih (m.truncate f.base)

/-- A branch on top is left before the others. -/
theorem leaveBranches_of_branch (hk : f.kind = .branch) :
    m.leaveBranches (f :: frames) = (m.left f frames).leaveBranches frames := by
  rw [leaveBranches, if_pos hk]
  exact (leaveBranches_frames (m.truncate f.base) frames frames).symm

/-- Inside a branch, breaking a loop first leaves the branch. -/
theorem breakLoop_of_branch (hf : m.frames = f :: frames) (hk : f.kind = .branch) :
    m.breakLoop = (m.left f frames).breakLoop := by
  unfold breakLoop
  rw [hf, leaveBranches_of_branch hk]
  rfl

/-- Inside a branch, going on with a loop first leaves the branch. -/
theorem continueLoop_of_branch (hf : m.frames = f :: frames) (hk : f.kind = .branch) :
    m.continueLoop = (m.left f frames).continueLoop := by
  unfold continueLoop
  rw [hf, leaveBranches_of_branch hk]
  rfl

/-- What a loop does at the end of a pass. -/
def roundStatus : FrameKind → Status
  | .tick => .yielded
  | _ => .running

/-- With a loop on top there are no branches to leave. -/
theorem leaveBranches_of_loop (hf : m.frames = f :: frames) (hk : f.kind = .loop ∨ f.kind = .tick) :
    m.leaveBranches m.frames = m := by
  rw [hf, leaveBranches, if_neg (by rcases hk with hk | hk <;> rw [hk] <;> decide), ← hf]

theorem atLoop_of_loop (hf : m.frames = f :: frames) (hk : f.kind = .loop ∨ f.kind = .tick) :
    m.atLoop = true := by
  unfold atLoop
  rw [hf]
  dsimp only
  rcases hk with hk | hk <;> rw [hk] <;> rfl

/-- Breaking a loop on top leaves its frame. -/
theorem breakLoop_of_loop (hf : m.frames = f :: frames) (hk : f.kind = .loop ∨ f.kind = .tick) :
    m.breakLoop = (m.left f frames).go := by
  unfold breakLoop
  rw [leaveBranches_of_loop hf hk]
  dsimp only
  rw [hf]
  exact if_pos (atLoop_of_loop hf hk)

/-- At the end of its body a loop begins again. -/
theorem endFrame_of_loop (hf : m.frames = f :: frames) (hk : f.kind = .loop ∨ f.kind = .tick) :
    m.endFrame = (m.left f ({ f with rest := f.body } :: frames), roundStatus f.kind) := by
  unfold endFrame
  rw [hf]
  rcases hk with hk | hk <;> simp only [hk] <;> rfl

/-- Going on with a loop on top is what happens at the end of its body. -/
theorem continueLoop_of_loop (hf : m.frames = f :: frames) (hk : f.kind = .loop ∨ f.kind = .tick) :
    m.continueLoop = (m.left f ({ f with rest := f.body } :: frames), roundStatus f.kind) := by
  unfold continueLoop
  rw [leaveBranches_of_loop hf hk]
  dsimp only
  rw [if_pos (atLoop_of_loop hf hk), endFrame_of_loop hf hk]

/-- A block that is no function's body is left on the way out of the function. -/
theorem giveBack_of_inner {v : Value} {rest : List Value} (hf : m.frames = f :: frames)
    (hk : f.kind = .branch ∨ f.kind = .loop ∨ f.kind = .tick) (ho : m.operands = v :: rest) :
    m.giveBack = (m.left f frames).giveBack := by
  have hl : ({ m with operands := rest } : Machine).leaveFunction m.frames =
      ({ m.left f frames with operands := rest } : Machine).leaveFunction (m.left f frames).frames := by
    refine Eq.trans ?_
      (leaveFunction_frames (({ m with operands := rest } : Machine).truncate f.base) frames frames).symm
    rw [hf, leaveFunction]
    rcases hk with hk | hk | hk <;> simp only [hk]
  have ho' : (m.left f frames).operands = v :: rest := ho
  unfold giveBack
  rw [ho, ho']
  dsimp only
  rw [hl]

/-- A function's result is an operand of its caller. -/
theorem giveBack_of_function {v : Value} {rest : List Value} (hf : m.frames = f :: frames)
    (hk : f.kind = .function) (ho : m.operands = v :: rest) :
    m.giveBack =
      ((({ m with operands := rest } : Machine).left f frames).returnToCaller.push v).go := by
  unfold giveBack
  rw [ho, hf]
  dsimp only
  rw [leaveFunction]
  simp only [hk]
  rfl

/-- At its end a branch is left. -/
theorem endFrame_of_branch (hf : m.frames = f :: frames) (hk : f.kind = .branch) :
    m.endFrame = (m.left f frames).go := by
  unfold endFrame
  rw [hf]
  simp only [hk]
  rfl

/-- A function that falls off its end gives back null. -/
theorem endFrame_of_function (hf : m.frames = f :: frames) (hk : f.kind = .function) :
    m.endFrame = ((m.left f frames).returnToCaller.push .null).go := by
  unfold endFrame
  rw [hf]
  simp only [hk]
  rfl

end Machine

/-! ## Signals -/

/-- The run is about to leave a frame and those that the machine leaves with it. -/
def Course.Exits (w : Setting κ) (s : Course κ) (st : Store κ) (f : Frame) (frames : List Frame)
    (operands locals : List Value) (leave : Machine → Machine × Status) : Prop :=
  s.Keeps st ∧ ∃ m code, m.At w st f frames code operands locals ∧ s.Doing (leave m)

/-- Where a run has come when the script goes on with a signal. -/
def Signal.Follows (w : Setting κ) (scope : Scope) (s : Course κ) (st : Store κ) (f : Frame)
    (frames : List Frame) (k : List Code) (operands locals : List Value) : Signal → Prop
  | .next => s.At w st f frames k operands locals
  | .breaks => scope.inLoop = true ∧ s.Exits w st f frames operands locals Machine.breakLoop
  | .continues => scope.inLoop = true ∧ s.Exits w st f frames operands locals Machine.continueLoop
  | .returns v => scope.inFunction = true ∧ s.Exits w st f frames (v :: operands) locals Machine.giveBack

/-- The blocks around the innermost one have the variables that they had. -/
structure Blocks.Kept (env env' : Blocks) : Prop where
  length : env'.length = env.length
  outer : Blocks.shape env'.tail = Blocks.shape env.tail

namespace Blocks

theorem Kept.refl (env : Blocks) : Kept env env := ⟨rfl, rfl⟩

theorem Kept.trans {env env' env'' : Blocks} (h : Kept env env') (h' : Kept env' env'') :
    Kept env env'' :=
  ⟨h'.length.trans h.length, h'.outer.trans h.outer⟩

/-- Variables of the same names, block by block, are kept. -/
theorem Kept.of_shape {env env' : Blocks} (h : env'.shape = env.shape) : Kept env env' := by
  refine ⟨?_, ?_⟩
  · have hl := congrArg List.length h
    rwa [shape, shape, List.length_map, List.length_map] at hl
  · have ht := congrArg List.tail h
    rwa [shape, shape, ← List.map_tail, ← List.map_tail] at ht

/-- Where variables are kept, the outer blocks keep their names.
-/
theorem Kept.cons {b : Bindings} {env env' : Blocks} (h : Kept (b :: env) env') :
    ∃ (b' : Bindings) (env'' : Blocks), env' = b' :: env'' ∧ shape env'' = shape env := by
  cases env' with
  | nil => exact nomatch h.length
  | cons b' env'' => exact ⟨b', env'', rfl, h.outer⟩

/-- Variables of the same names are equally many. -/
theorem length_values_of_shape {env env' : Blocks} (h : shape env' = shape env) :
    (values env').length = (values env).length := by
  rw [length_values, length_values, names_eq_flatten_shape, names_eq_flatten_shape, h]

end Blocks

section Rules

variable {w : Setting κ} {fuel : Nat} {scope : Scope} {s : Course κ} {st : Store κ} {m : Machine}
  {f g : Frame} {frames inner : List Frame} {code k : List Code} {operands below locals : List Value}
  {env : Blocks} {body : Blocks → Action κ (Signal × Blocks)}

/-- What is kept of a store does not depend on its heap. -/
theorem Course.Keeps.dropped (h : s.Keeps st) (heap : Heap) : s.Keeps { st with heap } :=
  ⟨h.context, h.past, h.left, h.isOver⟩

/-- A machine that leaves a frame has dropped the variables of a block. -/
theorem Machine.At.left {vs : List Value} {rest : List Op}
    (hm : m.At w st g inner code operands (vs ++ locals)) {left : Frame}
    (hbase : left.base = locals.length) (hr : w.image.spelled? rest = some k) :
    (m.left left ({ f with rest } :: frames)).At w { st with heap := st.heap.release vs } f frames k
      operands locals := by
  have hn : m.locals.length - left.base = vs.length := by
    rw [hm.locals, hbase, List.length_append, Nat.add_sub_cancel]
  have hdrop : m.locals.drop (m.locals.length - left.base) = locals := by
    rw [hn, hm.locals, List.drop_left]
  have htake : m.locals.take (m.locals.length - left.base) = vs := by
    rw [hn, hm.locals, List.take_left]
  exact {
    image := hm.image
    heap := by
      change m.heap.release (m.locals.take (m.locals.length - left.base)) = st.heap.release vs
      rw [htake, hm.heap]
    globals := hm.globals
    log := hm.log
    shapes := hm.shapes
    memory := hm.memory
    phase := hm.phase
    frames := ⟨rest, rfl, hr⟩
    operands := hm.operands
    locals := hdrop }

/-- A machine that leaves a frame without variables has dropped nothing. -/
theorem Machine.At.left_empty {rest : List Op} (hm : m.At w st g inner code operands locals)
    {left : Frame} (hbase : left.base = locals.length) (hr : w.image.spelled? rest = some k) :
    (m.left left ({ f with rest } :: frames)).At w st f frames k operands locals := by
  have h : (m.left left ({ f with rest } :: frames)).At w { st with heap := st.heap.release [] } f frames
      k operands locals := Machine.At.left hm hbase hr
  rw [Heap.release_nil] at h
  exact h

/-- Where a run has come when the script has done something in a block. -/
def Done (w : Setting κ) (scope : Scope) (f : Frame) (frames : List Frame) (k : List Code)
    (operands below : List Value) (env : Blocks) (result : Signal × Blocks) (st : Store κ)
    (s : Course κ) : Prop :=
  result.1.Follows w scope s st f frames k operands (result.2.values ++ below) ∧
    Blocks.Kept env result.2

/-- Where a run has come when the script has done something that declares no variable. -/
def Restored (w : Setting κ) (scope : Scope) (f : Frame) (frames : List Frame) (k : List Code)
    (operands below : List Value) (env : Blocks) (result : Signal × Blocks) (st : Store κ)
    (s : Course κ) : Prop :=
  result.1.Follows w scope s st f frames k operands (result.2.values ++ below) ∧
    result.2.shape = env.shape

/-- A block that is a branch: every signal is for the blocks around it. -/
theorem sim_branchBlock {rest : List Op} (hk : g.kind = .branch)
    (hbase : g.base = (env.values ++ below).length) (hr : w.image.spelled? rest = some k)
    (hbody : Sim w fuel s st (body ([] :: env))
      (Done w scope g ({ f with rest } :: frames) [] operands below ([] :: env))) :
    Sim w fuel s st (inBlock [] body env) (Restored w scope f frames k operands below env) := by
  refine hbody.bind ?_
  intro result st' s' hs'
  obtain ⟨signal, env'⟩ := result
  obtain ⟨hfollows, hkept⟩ := hs'
  obtain ⟨b, env'', rfl, hshape⟩ := hkept.cons
  have hlen : g.base = (env''.values ++ below).length := by
    rw [hbase, List.length_append, List.length_append, Blocks.length_values_of_shape hshape]
  rw [Blocks.values_cons, List.append_assoc] at hfollows
  cases signal with
  | next =>
    refine .leave hfollows fun s'' m hkeeps hm hd => ?_
    obtain ⟨r, hf, -⟩ := hm.frames
    rw [Machine.endFrame_of_branch hf hk] at hd
    exact .go hkeeps hd rfl (hm.left hlen hr) fun _ h => ⟨h, hshape⟩
  | breaks =>
    obtain ⟨hloop, hkeeps, m, code, hm, hd⟩ := hfollows
    obtain ⟨r, hf, -⟩ := hm.frames
    rw [Machine.breakLoop_of_branch hf hk] at hd
    exact .silent (Action.on_drop ..) (.pure ⟨⟨hloop, hkeeps.dropped _, _, k, hm.left hlen hr, hd⟩, hshape⟩)
  | continues =>
    obtain ⟨hloop, hkeeps, m, code, hm, hd⟩ := hfollows
    obtain ⟨r, hf, -⟩ := hm.frames
    rw [Machine.continueLoop_of_branch hf hk] at hd
    exact .silent (Action.on_drop ..) (.pure ⟨⟨hloop, hkeeps.dropped _, _, k, hm.left hlen hr, hd⟩, hshape⟩)
  | returns v =>
    obtain ⟨hfun, hkeeps, m, code, hm, hd⟩ := hfollows
    obtain ⟨r, hf, -⟩ := hm.frames
    rw [Machine.giveBack_of_inner hf (.inl hk) hm.operands] at hd
    exact .silent (Action.on_drop ..) (.pure ⟨⟨hfun, hkeeps.dropped _, _, k, hm.left hlen hr, hd⟩, hshape⟩)

/-- A block within a function has the floor of the function. -/
theorem floorOf_cons {g : Frame} (hg : g.kind ≠ .function) (rest : List Op) :
    floorOf (g :: { f with rest } :: frames) = floorOf (f :: frames) := by
  unfold floorOf
  rw [List.find?_cons_of_neg (by simpa using hg), List.find?_cons, List.find?_cons]
  dsimp only
  cases decide (f.kind = .function) <;> rfl

/-- The scope of a block inside of some blocks. -/
theorem Scoped.nested (hv : Scoped scope env f frames below) (scope' : Scope) (ht : scope'.atTop = false)
    (hl : scope'.locals = scope.locals) {env' : Blocks} (henv : env'.shape = env.shape) (g : Frame)
    (hg : g.kind ≠ .function) (rest : List Op) :
    Scoped scope' ([] :: env') g ({ f with rest } :: frames) below where
  top := by
    rw [ht]
    exact ⟨fun h => (nomatch h), fun h => (nomatch h)⟩
  names := by
    rw [hl, hv.names, Blocks.names_cons, Blocks.names_eq_flatten_shape, Blocks.names_eq_flatten_shape, henv]
    rfl
  floor := by rw [floorOf_cons hg, hv.floor]
  numbered := by rw [hl]; exact hv.numbered

/-- The machine enters a frame, and remembers what the frame below goes on with. -/
theorem Sim.enter {α : Type} {x : Action κ α} {post : α → Store κ → Course κ → Prop} {kind : FrameKind}
    {body : List Op} (hk : s.Keeps st) (hm : m.At w st f frames k operands locals)
    (hd : s.Doing (m.enter kind body).go) (hbody : w.image.spelled? body = some code)
    (h : ∀ (s' : Course κ) (rest : List Op), w.image.spelled? rest = some k →
      s'.At w st ⟨kind, body, body, locals.length⟩ ({ f with rest } :: frames) code operands locals →
      Sim w fuel s' st x post) : Sim w (fuel + 1) s st x post := by
  obtain ⟨rest, hf, hr⟩ := hm.frames
  have hframes : (m.enter kind body).frames =
      ⟨kind, body, body, locals.length⟩ :: { f with rest } :: frames := by
    simp only [Machine.enter, hf, hm.locals]
  refine .step hd (h _ rest hr ⟨hk.goes w.registry _, ?_⟩)
  exact { hm with frames := ⟨body, hframes, hbody⟩ }

/-! ## Loops -/

/-- Where a run has come after a pass of a loop: at the start of the next one, or behind the loop, up to
one step. -/
def Passed (w : Setting κ) (scope : Scope) (g : Frame) (inner : List Frame) (code : List Code) (f : Frame)
    (frames : List Frame) (k : List Code) (operands below : List Value) (env : Blocks)
    (result : Signal × Blocks) (st : Store κ) (s : Course κ) : Prop :=
  result.2.shape = env.shape ∧
  match result.1 with
  | .next | .continues => s.Keeps st ∧ ∃ m : Machine,
      m.At w st g inner code operands (result.2.values ++ below) ∧ s.Doing (m, Machine.roundStatus g.kind)
  | .breaks => s.Keeps st ∧ ∃ m : Machine,
      m.At w st f frames k operands (result.2.values ++ below) ∧ s.Doing m.go
  | .returns v => scope.inFunction = true ∧
      s.Exits w st f frames (v :: operands) (result.2.values ++ below) Machine.giveBack

/-- A block that is a pass of a loop: only a result is for the blocks around it. -/
theorem sim_loopBlock {rest : List Op} (hk : g.kind = .loop ∨ g.kind = .tick)
    (hbase : g.base = (env.values ++ below).length) (hr : w.image.spelled? rest = some k)
    (hg : w.image.spelled? g.body = some code)
    (hbody : Sim w fuel s st (body ([] :: env))
      (Done w scope.loopBody g ({ f with rest } :: frames) [] operands below ([] :: env))) :
    Sim w fuel s st (inBlock [] body env)
      (Passed w scope g ({ f with rest } :: frames) code f frames k operands below env) := by
  refine hbody.bind ?_
  intro result st' s' hs'
  obtain ⟨signal, env'⟩ := result
  obtain ⟨hfollows, hkept⟩ := hs'
  obtain ⟨b, env'', rfl, hshape⟩ := hkept.cons
  -- The body may change the values of outer variables but not how many there are.
  have hlen : g.base = (env''.values ++ below).length := by
    rw [hbase, List.length_append, List.length_append, Blocks.length_values_of_shape hshape]
  rw [Blocks.values_cons, List.append_assoc] at hfollows
  cases signal with
  | next =>
    refine .leave hfollows fun s'' m hkeeps hm hd => ?_
    obtain ⟨r, hf, -⟩ := hm.frames
    rw [Machine.endFrame_of_loop hf hk] at hd
    exact .silent (Action.on_drop ..) (.pure ⟨hshape, hkeeps.dropped _, _, hm.left hlen hg, hd⟩)
  | breaks =>
    obtain ⟨-, hkeeps, m, code, hm, hd⟩ := hfollows
    obtain ⟨r, hf, -⟩ := hm.frames
    rw [Machine.breakLoop_of_loop hf hk] at hd
    exact .silent (Action.on_drop ..) (.pure ⟨hshape, hkeeps.dropped _, _, hm.left hlen hr, hd⟩)
  | continues =>
    obtain ⟨-, hkeeps, m, code, hm, hd⟩ := hfollows
    obtain ⟨r, hf, -⟩ := hm.frames
    rw [Machine.continueLoop_of_loop hf hk] at hd
    exact .silent (Action.on_drop ..) (.pure ⟨hshape, hkeeps.dropped _, _, hm.left hlen hg, hd⟩)
  | returns v =>
    obtain ⟨hfun, hkeeps, m, code, hm, hd⟩ := hfollows
    obtain ⟨r, hf, -⟩ := hm.frames
    rw [Machine.giveBack_of_inner hf (.inr hk) hm.operands] at hd
    exact .silent (Action.on_drop ..)
      (.pure ⟨hshape, hfun, hkeeps.dropped _, _, k, hm.left hlen hr, hd⟩)

/-- What the script does between two passes of a loop of some kind. -/
inductive Rounds (κ : Type) : FrameKind → Action κ Unit → Prop where
  | loop : Rounds κ .loop (pure ())
  | tick : Rounds κ .tick .wait

/-- Only loops go round. -/
theorem Rounds.isLoop {kind : FrameKind} {between : Action κ Unit} (h : Rounds κ kind between) :
    kind = .loop ∨ kind = .tick := by
  cases h with
  | loop => exact .inl rfl
  | tick => exact .inr rfl

/-- The step from one pass of a loop to the next pays for a unit of fuel. -/
theorem sim_round {α : Type} {between : Action κ Unit} {next : Action κ α}
    {post : α → Store κ → Course κ → Prop} {kind : FrameKind} (hround : Rounds κ kind between)
    (hk : s.Keeps st) (hm : m.At w st g inner code operands locals)
    (hd : s.Doing (m, Machine.roundStatus kind))
    (h : ∀ (s' : Course κ) (st' : Store κ), s'.At w st' g inner code operands locals →
      Sim w fuel s' st' next post) : Sim w (fuel + 1) s st (between >>= fun _ => next) post := by
  cases hround with
  | loop => exact .step hd (.silent rfl (h _ st ⟨hk.goes w.registry _, hm⟩))
  | tick =>
    have hstep := hd.step_eq (r := w.registry)
    have hpast : s.past ++ [⟨.yielded, m.log ++ Outcome.report false .yielded⟩] =
        waited (st.past ++ [st.log]) := by
      rw [hk.past, hm.log, waited, waited, List.map_append]
      exact congrArg (fun lines => _ ++ [TickReport.mk _ lines]) (List.append_nil _)
    -- Whether the wait is the last one decides if the session ends here or the next turn begins.
    cases hleft : st.left with
    | zero =>
      have hx : (Action.wait >>= fun _ => next).on st =
          (.error .paused, { st with past := st.past ++ [st.log], log := [] }) := by
        rw [Action.on_bind]
        simp only [Action.on, Action.wait, ExceptT.run, StateT.run, hleft]
      have hfollow : s.follow w.registry (m, .yielded) =
          ⟨{ m with log := [] }, s.context, waited (st.past ++ [st.log]), 0, true⟩ := by
        simp only [Course.follow, Course.endTurn, hk.left, hleft, hpast]
        rfl
      refine .of_error hx (.step ?_)
      rw [hstep, Machine.roundStatus, hfollow]
      exact .here ⟨rfl, hm.image, hm.heap, hm.globals, hk.context, (List.append_nil _).symm⟩
    | succ n =>
      have hx : (Action.wait : Action κ Unit).on st =
          (.ok (), { st with past := st.past ++ [st.log], log := [], left := n }) := by
        simp only [Action.on, Action.wait, ExceptT.run, StateT.run, hleft]
      have hfollow : s.follow w.registry (m, .yielded) =
          ⟨{ m with log := [], spent := 0 }, s.context, waited (st.past ++ [st.log]), n, false⟩ := by
        simp only [Course.follow, Course.endTurn, hk.left, hleft, hpast]
        rfl
      refine .step hd (.silent hx (h _ _ ?_))
      rw [Machine.roundStatus, hfollow]
      exact ⟨⟨hk.context, rfl, rfl, rfl⟩, { hm with log := rfl }⟩

/-- A loop makes passes, one after the other, as long as none ends it. -/
theorem sim_iterate {pass : Blocks → Action κ (Signal × Blocks)} {between : Action κ Unit}
    (hround : Rounds κ g.kind between) {env₀ : Blocks}
    (hpass : ∀ (env : Blocks) (s : Course κ) (st : Store κ), env.shape = env₀.shape →
      s.At w st g inner code operands (env.values ++ below) →
      Sim w fuel s st (pass env) (Passed w scope g inner code f frames k operands below env))
    {n : Nat} (hn : n ≤ fuel) {env : Blocks} {s : Course κ} {st : Store κ} (henv : env.shape = env₀.shape)
    (hs : s.At w st g inner code operands (env.values ++ below)) :
    Sim w n s st (iterate pass between n env) (Restored w scope f frames k operands below env₀) := by
  induction n generalizing env s st with
  | zero => exact .starved
  | succ n ih =>
    refine (Sim.less_fuel hn (hpass env s st henv hs)).bind ?_
    intro result st' s' hs'
    obtain ⟨signal, env'⟩ := result
    obtain ⟨hshape, hs'⟩ := hs'
    have henv' : env'.shape = env₀.shape := hshape.trans henv
    -- The next pass starts where this one has led.
    have hnext (h : s'.Keeps st' ∧ ∃ m : Machine, m.At w st' g inner code operands (env'.values ++ below) ∧
        s'.Doing (m, Machine.roundStatus g.kind)) :
        Sim w (n + 1) s' st' (between >>= fun _ => iterate pass between n env')
          (Restored w scope f frames k operands below env₀) := by
      obtain ⟨hk, m, hm, hd⟩ := h
      exact sim_round hround hk hm hd fun s'' st'' hs'' => ih (Nat.le_of_succ_le hn) henv' hs''
    cases signal with
    | next => exact hnext hs'
    | continues => exact hnext hs'
    | breaks =>
      obtain ⟨hk, m, hm, hd⟩ := hs'
      exact .go hk hd (Action.on_pure ..) hm fun _ h => ⟨h, henv'⟩
    | returns v => exact .pure ⟨hs', henv'⟩

/-- A machine that enters a loop makes its passes, each in a block of its own. -/
theorem sim_loop {kind : FrameKind} {between : Action κ Unit} (hround : Rounds κ kind between)
    (hv : Scoped scope env f frames below) {ops : List Op} (hops : w.image.spelled? ops = some code) (hk : s.Keeps st)
    (hm : m.At w st f frames k operands (env.values ++ below)) (hd : s.Doing (m.enter kind ops).go)
    (hbody : ∀ (env' : Blocks) (rest : List Op) (s : Course κ) (st : Store κ),
      Scoped scope.loopBody ([] :: env') ⟨kind, ops, ops, (env.values ++ below).length⟩
        ({ f with rest } :: frames) below →
      s.At w st ⟨kind, ops, ops, (env.values ++ below).length⟩ ({ f with rest } :: frames) code operands
        (env'.values ++ below) →
      Sim w fuel s st (body ([] :: env'))
        (Done w scope.loopBody ⟨kind, ops, ops, (env.values ++ below).length⟩
          ({ f with rest } :: frames) [] operands below ([] :: env'))) :
    Sim w fuel s st (iterate (inBlock [] body) between fuel env)
      (Restored w scope f frames k operands below env) := by
  refine .less_fuel (Nat.le_succ fuel) (.enter hk hm hd hops fun s' rest hr hs' => ?_)
  refine sim_iterate hround (fun env' s st henv hs => ?_) (Nat.le_refl fuel) rfl hs'
  have hkind : kind ≠ .function := by rcases hround.isLoop with h | h <;> rw [h] <;> exact fun h => nomatch h
  refine sim_loopBlock hround.isLoop ?_ hr hops
    (hbody env' rest s st (hv.nested scope.loopBody rfl rfl henv _ hkind rest) hs)
  rw [List.length_append, List.length_append, Blocks.length_values_of_shape henv]

end Rules

end TickScript
