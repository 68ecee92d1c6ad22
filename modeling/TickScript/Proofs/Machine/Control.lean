import TickScript.Proofs.Machine.Charges
import TickScript.Proofs.Machine.Soundness
import TickScript.Proofs.Tick.Suspension

/-!
# The control stack

Whatever code a machine loads, damaged code included, its frames stand on each other as the code nests:
the body of the program is at the bottom, and every other frame runs a body that the instruction just
passed by the frame below it has entered (`Stacked`). The calls that a fault would list go with the
frames of functions, one by one. Frames are not charged as memory, so this is what bounds them: between
two functions there are no more than the code nests blocks.

A frame holds what is left of its pass instead of a counter. The instruction it has just passed is the
one in front of what is left (`Frame.Passed`).
-/

namespace TickScript

/-! ## How deep code nests -/

section Nesting

variable {ν σ : Type}

mutual

/-- How many blocks nest inside an instruction. -/
def Instr.nesting : Instr ν σ → Nat
  | .branch yes no => max (nestingOf yes) (nestingOf no) + 1
  | .loop body => nestingOf body + 1
  | .tick body => nestingOf body + 1
  | _ => 0

/-- How many blocks nest inside a body. -/
def nestingOf : List (Instr ν σ) → Nat
  | [] => 0
  | i :: is => max i.nesting (nestingOf is)

end

/-- How many blocks nest inside the bodies of a program. -/
def Program.nesting (p : Program ν σ) : Nat :=
  p.functions.foldr (fun f n => max (nestingOf f.body) n) (nestingOf p.body)

/-- An instruction nests no deeper than the body that it stands in. -/
theorem nesting_le_nestingOf {i : Instr ν σ} {is : List (Instr ν σ)} (h : i ∈ is) :
    i.nesting ≤ nestingOf is := by
  induction is with
  | nil => exact nomatch h
  | cons j is ih =>
    rw [nestingOf]
    rcases List.mem_cons.1 h with rfl | h
    · exact Nat.le_max_left _ _
    · exact Nat.le_trans (ih h) (Nat.le_max_right _ _)

/-- The body of a program nests no deeper than the program. -/
theorem nestingOf_body_le (p : Program ν σ) : nestingOf p.body ≤ p.nesting := by
  unfold Program.nesting
  induction p.functions with
  | nil => exact Nat.le_refl _
  | cons f fs ih => exact Nat.le_trans ih (Nat.le_max_right _ _)

/-- Nor do its functions. -/
theorem nestingOf_function_le {p : Program ν σ} {f : Function ν σ} (h : f ∈ p.functions) :
    nestingOf f.body ≤ p.nesting := by
  unfold Program.nesting
  generalize p.functions = functions at h
  induction functions with
  | nil => exact nomatch h
  | cons g gs ih =>
    rcases List.mem_cons.1 h with rfl | h
    · exact Nat.le_max_left _ _
    · exact Nat.le_trans (ih h) (Nat.le_max_right _ _)

end Nesting

/-! ## Frames on frames -/

/-- The instruction stands right in front of what is left of the frame's pass. -/
def Frame.Passed (f : Frame) (op : Op) : Prop := ∃ before, f.body = before ++ op :: f.rest

/-- The frame runs a block of the instruction. -/
def Frame.IsBlockOf (f : Frame) : Op → Prop
  | .branch yes no => f.kind = .branch ∧ (f.body = yes ∨ f.body = no)
  | .loop body => f.kind = .loop ∧ f.body = body
  | .tick body => f.kind = .tick ∧ f.body = body
  | _ => False

/-- The frames, listed from the top, stand on each other as the code of the image nests, and the calls go
with the frames of functions. -/
inductive Stacked (image : Image) : List Frame → List CallSite → Prop
  /-- At the bottom, and only there, is the body of the program. -/
  | bottom {f : Frame} (kind : f.kind = .top) (body : f.body = image.program.body)
      (rest : f.rest <:+ f.body) : Stacked image [f] []
  /-- A block stands on the frame that has just passed the branch or loop it belongs to. -/
  | block {f g : Frame} {frames : List Frame} {calls : List CallSite} {op : Op} (passed : g.Passed op)
      (owned : f.IsBlockOf op) (rest : f.rest <:+ f.body) (below : Stacked image (g :: frames) calls) :
      Stacked image (f :: g :: frames) calls
  /-- A function stands on the frame that has just passed its call, and has a call of its name. -/
  | called {f g : Frame} {frames : List Frame} {c : CallSite} {calls : List CallSite} {id : UInt32}
      {function : Function UInt32 UInt32} (passed : g.Passed (.call id)) (kind : f.kind = .function)
      (found : image.program.functions[id.toNat]? = some function) (body : f.body = function.body)
      (named : image.text? function.name = some c.name) (rest : f.rest <:+ f.body)
      (below : Stacked image (g :: frames) calls) : Stacked image (f :: g :: frames) (c :: calls)

namespace Stacked

variable {image : Image} {f : Frame} {frames : List Frame} {calls : List CallSite}

/-- Blocks are branches and loops. -/
theorem kind_of_isBlockOf {op : Op} (h : f.IsBlockOf op) :
    f.kind = .branch ∨ f.kind = .loop ∨ f.kind = .tick := by
  cases op with
  | branch => exact .inl h.1
  | loop => exact .inr (.inl h.1)
  | tick => exact .inr (.inr h.1)
  | _ => exact h.elim

/-- A frame can go on to any other part of its body. -/
theorem withRest (h : Stacked image (f :: frames) calls) {rest : List Op} (hr : rest <:+ f.body) :
    Stacked image ({ f with rest } :: frames) calls := by
  cases h with
  | bottom kind body => exact .bottom kind body hr
  | @block _ _ _ _ op passed owned _ below =>
    have howned : Frame.IsBlockOf { f with rest } op := by
      cases op <;> exact owned
    exact .block passed howned hr below
  | called passed kind found body named _ below => exact .called passed kind found body named hr below

/-- What is left of the pass on top is the end of its body. -/
theorem rest_suffix (h : Stacked image (f :: frames) calls) : f.rest <:+ f.body := by
  cases h with
  | bottom _ _ rest => exact rest
  | block _ _ rest => exact rest
  | called _ _ _ _ _ rest => exact rest

/-- What is left when a block goes. -/
theorem pop_block (h : Stacked image (f :: frames) calls) (ht : f.kind ≠ .top)
    (hf : f.kind ≠ .function) : Stacked image frames calls := by
  cases h with
  | bottom kind => exact absurd kind ht
  | block _ _ _ below => exact below
  | called _ kind => exact absurd kind hf

/-- What is left when a function goes. -/
theorem pop_function (h : Stacked image (f :: frames) calls) (hk : f.kind = .function) :
    ∃ c calls', calls = c :: calls' ∧ Stacked image frames calls' := by
  cases h with
  | bottom kind => exact nomatch hk.symm.trans kind
  | block _ owned =>
    rcases kind_of_isBlockOf owned with h | h | h <;> exact nomatch hk.symm.trans h
  | called _ _ _ _ _ _ below => exact ⟨_, _, rfl, below⟩

/-- Each call goes with the frame of a function. -/
theorem length_calls (h : Stacked image frames calls) :
    calls.length = frames.countP (·.kind = .function) := by
  induction h with
  | bottom kind => simp [kind]
  | @block f g frames calls op _ owned _ _ ih =>
    have hk : ¬ decide (f.kind = .function) = true := by
      rcases kind_of_isBlockOf owned with h | h | h <;> rw [h] <;> decide
    rw [List.countP_cons, if_neg hk]
    exact ih
  | called _ kind _ _ _ _ _ ih =>
    rw [List.length_cons, List.countP_cons, if_pos (decide_eq_true kind)]
    exact congrArg _ ih

/-- The body of the program is at the bottom, and only there. -/
theorem exists_bottom (h : Stacked image frames calls) :
    ∃ above bottom, frames = above ++ [bottom] ∧ bottom.kind = .top ∧ ∀ f ∈ above, f.kind ≠ .top := by
  induction h with
  | @bottom f kind => exact ⟨[], f, rfl, kind, fun _ hf => nomatch hf⟩
  | @block f _ _ _ _ _ owned _ _ ih =>
    obtain ⟨above, bottom, he, hkind, hall⟩ := ih
    refine ⟨f :: above, bottom, by rw [he]; rfl, hkind, ?_⟩
    intro g hg
    rcases List.mem_cons.1 hg with rfl | hg
    · rcases kind_of_isBlockOf owned with h | h | h <;> rw [h] <;> decide
    · exact hall g hg
  | @called f _ _ _ _ _ _ _ kind _ _ _ _ _ ih =>
    obtain ⟨above, bottom, he, hbottom, hall⟩ := ih
    refine ⟨f :: above, bottom, by rw [he]; rfl, hbottom, ?_⟩
    intro g hg
    rcases List.mem_cons.1 hg with rfl | hg
    · rw [kind]
      decide
    · exact hall g hg

/-- A block nests less than the body it stands in. -/
theorem nestingOf_block_lt {g : Frame} {op : Op} (passed : g.Passed op) (owned : f.IsBlockOf op) :
    nestingOf f.body < nestingOf g.body := by
  obtain ⟨before, hbody⟩ := passed
  have hle : op.nesting ≤ nestingOf g.body := nesting_le_nestingOf (by rw [hbody]; simp)
  refine Nat.lt_of_lt_of_le ?_ hle
  cases op with
  | branch yes no =>
    rw [Instr.nesting]
    rcases owned.2 with h | h <;> rw [h] <;> omega
  | loop body =>
    rw [Instr.nesting, owned.2]
    exact Nat.lt_succ_self _
  | tick body =>
    rw [Instr.nesting, owned.2]
    exact Nat.lt_succ_self _
  | _ => exact owned.elim

/-- There are no more frames than the calls and the nesting of the code account for. What the frame on
top may still enter is counted in. -/
theorem length_add_nesting_le (h : Stacked image (f :: frames) calls) :
    frames.length + 1 + nestingOf f.body ≤ (calls.length + 1) * (image.program.nesting + 1) := by
  generalize hs : f :: frames = stack at h
  induction h generalizing f frames with
  | bottom _ body =>
    cases hs
    have hle := nestingOf_body_le image.program
    rw [← body] at hle
    simp only [List.length_nil]
    omega
  | @block f' g frames' calls op passed owned _ _ ih =>
    cases hs
    have hlt := nestingOf_block_lt passed owned
    have hbelow := ih rfl
    rw [List.length_cons]
    omega
  | @called f' g frames' c calls id function _ _ found body _ _ _ ih =>
    cases hs
    have hle := nestingOf_function_le (List.mem_of_getElem? found)
    rw [← body] at hle
    have hbelow := ih rfl
    rw [List.length_cons, List.length_cons, Nat.succ_mul (calls.length + 1)]
    omega

end Stacked

namespace Machine

/-! ## What every step keeps -/

/-- The control of a machine is in order: its frames are stacked, its calls are not too many, and each
frame found as many locals as those above it still leave. -/
structure Orderly (m : Machine) : Prop where
  stacked : Stacked m.image m.frames m.calls
  depth : m.calls.length ≤ m.limits.callDepth
  bases : (m.locals.length :: m.frames.map Frame.base).Pairwise (· ≥ ·)

/-- A machine that has not failed is in order. -/
def Governed (m : Machine) : Prop := m.fault? = none → m.Orderly

/-- Nothing is asked of a machine that has failed. -/
theorem governed_stop (m : Machine) (cause : Cause) : (m.stop cause).1.Governed :=
  fun h => nomatch h

namespace Orderly

variable {m m' : Machine} {f : Frame} {frames : List Frame}

/-- Nothing changes when frames and calls stay and no local goes. -/
theorem steady (h : m.Orderly) (hi : m'.image = m.image) (hl : m'.limits = m.limits)
    (hf : m'.frames = m.frames) (hc : m'.calls = m.calls)
    (hn : m.locals.length ≤ m'.locals.length) : m'.Orderly where
  stacked := by rw [hi, hf, hc]; exact h.stacked
  depth := by rw [hc, hl]; exact h.depth
  bases := by
    rw [hf]
    refine List.pairwise_cons.2 ⟨?_, (List.pairwise_cons.1 h.bases).2⟩
    intro base hb
    exact Nat.le_trans ((List.pairwise_cons.1 h.bases).1 base hb) hn

/-- The locals that the frame on top found are still there. -/
theorem base_le (h : m.Orderly) (hm : m.frames = f :: frames) : f.base ≤ m.locals.length := by
  have hb := (List.pairwise_cons.1 h.bases).1 f.base
  rw [hm] at hb
  exact hb List.mem_cons_self

/-- The bases that are left when a frame goes with its locals. -/
theorem bases_pop (h : m.Orderly) (hm : m.frames = f :: frames) :
    ((m.truncate f.base).locals.length :: frames.map Frame.base).Pairwise (· ≥ ·) := by
  have hb := h.bases
  rw [hm] at hb
  rw [length_locals_truncate (h.base_le hm)]
  exact (List.pairwise_cons.1 hb).2

/-- A block on top can be left. -/
theorem pop_block (h : m.Orderly) (hm : m.frames = f :: frames) (ht : f.kind ≠ .top)
    (hf : f.kind ≠ .function) : Orderly { m.truncate f.base with frames } where
  stacked := (hm ▸ h.stacked).pop_block ht hf
  depth := h.depth
  bases := h.bases_pop hm

/-- A function on top can be left, and goes back to where it was called. -/
theorem pop_function (h : m.Orderly) (hm : m.frames = f :: frames) (hk : f.kind = .function) :
    Orderly ({ m.truncate f.base with frames } : Machine).returnToCaller := by
  obtain ⟨c, calls, hc, hstacked⟩ := (hm ▸ h.stacked : Stacked _ _ _).pop_function hk
  have hreturn : ({ m.truncate f.base with frames } : Machine).returnToCaller =
      { m.truncate f.base with frames, calls, location := c.location } := by
    have hcalls : ({ m.truncate f.base with frames } : Machine).calls = c :: calls := hc
    rw [returnToCaller, hcalls]
  have hdepth := h.depth
  rw [hc, List.length_cons] at hdepth
  rw [hreturn]
  exact ⟨hstacked, Nat.le_of_succ_le hdepth, h.bases_pop hm⟩

/-- A frame that starts now finds all the locals there are. -/
theorem bases_push {n : Nat} {bases : List Nat} (h : (n :: bases).Pairwise (· ≥ ·)) :
    (n :: n :: bases).Pairwise (· ≥ ·) := by
  refine List.pairwise_cons.2 ⟨?_, h⟩
  intro base hb
  rcases List.mem_cons.1 hb with rfl | hb
  · exact Nat.le_refl _
  · exact (List.pairwise_cons.1 h).1 base hb

/-- A loop on top can start again. -/
theorem restart (h : m.Orderly) (hm : m.frames = f :: frames) :
    Orderly { m.truncate f.base with frames := { f with rest := f.body } :: frames } where
  stacked := (hm ▸ h.stacked : Stacked _ _ _).withRest List.suffix_rfl
  depth := h.depth
  bases := by
    have hb := bases_push (h.bases_pop hm)
    rw [length_locals_truncate (h.base_le hm)] at hb
    dsimp only
    rw [length_locals_truncate (h.base_le hm)]
    exact hb

/-- A body can be entered. -/
theorem enter (h : m.Orderly) {kind : FrameKind} {body : List Op} {op : Op} (hm : m.frames = f :: frames)
    (passed : f.Passed op) (owned : Frame.IsBlockOf ⟨kind, body, body, m.locals.length⟩ op) :
    (m.enter kind body).Orderly where
  stacked := by
    have hs := h.stacked
    rw [hm] at hs
    simp only [Machine.enter, hm]
    exact .block passed owned List.suffix_rfl hs
  depth := h.depth
  bases := bases_push h.bases

/-- Branches can be left. -/
theorem leaveBranches (h : Orderly { m with frames }) : (m.leaveBranches frames).Orderly := by
  induction frames generalizing m with
  | nil => exact nomatch h.stacked
  | cons f frames ih =>
    rw [Machine.leaveBranches]
    split
    · next hk =>
      refine ih (m := m.truncate f.base) ?_
      exact h.pop_block (f := f) rfl (by rw [hk]; decide) (by rw [hk]; decide)
    · exact h

/-- A function can be left from wherever it stands, with its result. -/
theorem leaveFunction (h : Orderly { m with frames }) (hf : (m.leaveFunction frames).2 = true) :
    (m.leaveFunction frames).1.returnToCaller.Orderly := by
  induction frames generalizing m with
  | nil => cases hf
  | cons f frames ih =>
    rw [Machine.leaveFunction] at hf ⊢
    cases hk : f.kind with
    | function => exact h.pop_function (f := f) rfl hk
    | top =>
      rw [hk] at hf
      cases hf
    | branch | loop | tick =>
      rw [hk] at hf
      refine ih (m := m.truncate f.base) ?_ hf
      exact h.pop_block (f := f) rfl (by rw [hk]; decide) (by rw [hk]; decide)

end Orderly

/-- A value on top of the operands changes nothing about control. -/
theorem Orderly.push {m : Machine} (h : m.Orderly) (v : Value) : (m.push v).Orderly :=
  ⟨h.stacked, h.depth, h.bases⟩

/-- A frame that ends leaves those below it in order. -/
theorem governed_endFrame {m : Machine} (h : m.Orderly) : m.endFrame.1.Governed := by
  unfold endFrame
  split
  · exact governed_stop m _
  · next f frames hm =>
    split
    · exact fun _ => ⟨h.stacked, h.depth, h.bases⟩
    · exact fun _ => h.restart hm
    · exact fun _ => h.restart hm
    · next hk => exact fun _ => h.pop_block hm (by rw [hk]; decide) (by rw [hk]; decide)
    · next hk => exact fun _ => (h.pop_function hm hk).push .null

/-- The next pass of a loop stands where the one before stood. -/
theorem governed_continueLoop {m : Machine} (h : m.Orderly) : m.continueLoop.1.Governed := by
  unfold continueLoop
  dsimp only
  split
  · exact governed_endFrame (Orderly.leaveBranches h)
  · exact governed_stop _ _

/-- A loop that is left leaves the frames below it in order. -/
theorem governed_breakLoop {m : Machine} (h : m.Orderly) : m.breakLoop.1.Governed := by
  have hleft : (m.leaveBranches m.frames).Orderly := Orderly.leaveBranches h
  unfold breakLoop
  dsimp only
  generalize m.leaveBranches m.frames = m' at hleft ⊢
  cases hm : m'.frames with
  | nil => exact governed_stop m' _
  | cons f frames =>
    dsimp only
    split
    · next hat =>
      have hk := kind_of_atLoop hat hm
      intro _
      exact hleft.pop_block hm (by rcases hk with hk | hk <;> rw [hk] <;> decide)
        (by rcases hk with hk | hk <;> rw [hk] <;> decide)
    · exact governed_stop m' _

/-- A function that is left leaves the frames of its caller in order. -/
theorem governed_giveBack {m : Machine} (h : m.Orderly) : m.giveBack.1.Governed := by
  unfold giveBack
  split
  · exact governed_stop m _
  · next v rest _ =>
    have hrest : Orderly { m with operands := rest } := ⟨h.stacked, h.depth, h.bases⟩
    have hleft (hf : (leaveFunction { m with operands := rest } m.frames).2 = true) :
        (leaveFunction { m with operands := rest } m.frames).1.returnToCaller.Orderly :=
      Orderly.leaveFunction hrest hf
    split
    · next m' hm =>
      rw [hm] at hleft
      exact fun _ => (hleft rfl).push v
    · exact governed_stop _ _

/-- A call of a function stands on the frame that made it. -/
theorem governed_call {m : Machine} (h : m.Orderly) {id : UInt32} {f : Frame} {frames : List Frame}
    (hm : m.frames = f :: frames) (passed : f.Passed (.call id)) : (m.call id).1.Governed := by
  unfold call
  split
  · exact governed_stop m _
  · next function hfunction =>
    split
    · exact governed_stop m _
    · next called hcalled =>
      split
      · exact governed_stop m _
      · next hdepth =>
        have hstacked := h.stacked
        rw [hm] at hstacked
        intro _
        refine ⟨?_, Nat.le_of_not_lt hdepth, Orderly.bases_push h.bases⟩
        simp only [go, Machine.enter, hm]
        exact .called passed rfl hfunction rfl hcalled List.suffix_rfl hstacked

/-- The block of a branch is stacked on the frame that the branch stands in. -/
theorem governed_branch {m : Machine} (h : m.Orderly) {yes no : List Op} {f : Frame}
    {frames : List Frame} (hm : m.frames = f :: frames) (passed : f.Passed (.branch yes no)) :
    (m.branch yes no).1.Governed := by
  unfold branch
  split
  · exact governed_stop m _
  · next v rest _ =>
    have hdropped : (m.dropped rest [v]).Orderly := ⟨h.stacked, h.depth, h.bases⟩
    have hchosen : (if v.isTruthy then yes else no) = yes ∨ (if v.isTruthy then yes else no) = no := by
      cases v.isTruthy with
      | true => exact .inl rfl
      | false => exact .inr rfl
    dsimp only
    generalize (if v.isTruthy then yes else no) = body at hchosen ⊢
    split
    · exact fun _ => hdropped
    · exact fun _ => hdropped.enter hm passed ⟨rfl, hchosen⟩

/-- What works on values leaves frames and calls alone. -/
theorem Works.governed {m : Machine} {result : Machine × Status} (hw : Works m result) (h : m.Orderly) :
    result.1.Governed := by
  cases hw with
  | stops => exact governed_stop _ _
  | goes hw =>
    intro _
    cases hw with
    | kept => exact h.steady rfl rfl rfl rfl (Nat.le_refl _)
    | pushed => exact h.steady rfl rfl rfl rfl (Nat.le_succ _)
    | changed => exact h.steady rfl rfl rfl rfl (Nat.le_of_eq List.length_set.symm)

/-- An instruction keeps the control in order that the frame on top has just passed. -/
theorem governed_exec {m : Machine} (h : m.Orderly) {op : Op} {f : Frame} {frames : List Frame}
    (hm : m.frames = f :: frames) (passed : f.Passed op) : (m.exec op).1.Governed := by
  cases op with
  | branch yes no => exact governed_branch h hm passed
  | loop body => exact fun _ => h.enter hm passed ⟨rfl, rfl⟩
  | tick body => exact fun _ => h.enter hm passed ⟨rfl, rfl⟩
  | continueLoop => exact governed_continueLoop h
  | breakLoop => exact governed_breakLoop h
  | giveBack => exact governed_giveBack h
  | call id => exact governed_call h hm passed
  | line | file | callBuiltin =>
    simp only [exec, callBuiltin]
    repeat' split
    all_goals first
      | exact governed_stop _ _
      | exact fun _ => h.steady rfl rfl rfl rfl (Nat.le_refl _)
  | _ => exact (works_exec m rfl).governed h

/-- Whatever runs next leaves the control in order. -/
theorem governed_execNext {m : Machine} (h : m.Orderly) : m.execNext.1.Governed := by
  cases m.nextCase with
  | nothing _ hx => exact hx ▸ governed_stop m _
  | leaves _ _ _ _ hx => exact hx ▸ governed_endFrame h
  | runs f frames op rest hm hr hx =>
    have hstacked := h.stacked
    rw [hm] at hstacked
    obtain ⟨before, hbody⟩ := hstacked.rest_suffix
    rw [hr] at hbody
    have hnext : Orderly { m with frames := { f with rest } :: frames } := by
      refine ⟨hstacked.withRest ⟨before ++ [op], by simp [← hbody]⟩, h.depth, ?_⟩
      have hb := h.bases
      rw [hm] at hb
      exact hb
    rw [hx]
    exact governed_exec hnext rfl ⟨before, hbody.symm⟩

/-- **A step keeps the control in order**, unless the machine fails. -/
theorem governed_step {m : Machine} (h : m.Governed) : m.step.1.Governed := by
  cases m.stepCase with
  | complete _ hs | faulted _ _ hs | unpaid _ _ hs => exact hs ▸ h
  | unanswered _ hs | overfull _ _ _ hs => exact hs ▸ governed_stop m _
  | made hp _ _ hs =>
    have hm : m.Orderly := h (by unfold fault?; rw [hp])
    exact hs ▸ governed_execNext ⟨hm.stacked, hm.depth, hm.bases⟩

/-! ## Whatever a host does -/

/-- What a host may do with a machine: give it a new tick, let it make a step or a batch of them, answer
its call, and let functions work on its heap and its log. -/
inductive Deed where
  | startTick
  | step
  | stepBatch
  | pushResult (v : Value)
  | touch (heap : Heap) (log : List String)

/-- The machine after its host has done something. -/
def perform (m : Machine) : Deed → Machine
  | .startTick => m.startTick
  | .step => m.step.1
  | .stepBatch => m.stepBatch.1
  | .pushResult v => (m.pushResult v).2
  | .touch heap log => { m with heap, log }

/-- The machine after its host has done several things, one after the other. -/
def after (m : Machine) (deeds : List Deed) : Machine := deeds.foldl perform m

/-- What a step keeps, a batch of steps keeps. -/
theorem stepBatch_induction {P : Machine → Prop} (h : ∀ m, P m → P m.step.1) {m : Machine} (hm : P m) :
    P m.stepBatch.1 := by
  fun_induction stepBatch m with
  | case1 m m' hs ih =>
    have hstep := h m hm
    rw [hs] at hstep
    exact ih hstep
  | case2 m _ => exact h m hm

/-- What every deed keeps holds after any number of them. -/
theorem after_induction {P : Machine → Prop} (h : ∀ m d, P m → P (m.perform d)) {m : Machine}
    (hm : P m) (deeds : List Deed) : P (m.after deeds) := by
  induction deeds generalizing m with
  | nil => exact hm
  | cons d deeds ih => exact ih (h m d hm)

/-- No deed changes the program or its limits. -/
theorem program_perform (m : Machine) (d : Deed) :
    (m.perform d).image = m.image ∧ (m.perform d).limits = m.limits := by
  have hstep (m' : Machine) (h : m'.image = m.image ∧ m'.limits = m.limits) :
      m'.step.1.image = m.image ∧ m'.step.1.limits = m.limits := by
    obtain ⟨n, hn⟩ := m'.exists_priced_step
    exact ⟨hn.charged.image.trans h.1, hn.charged.limits.trans h.2⟩
  cases d with
  | startTick => exact ⟨rfl, rfl⟩
  | step => exact hstep m ⟨rfl, rfl⟩
  | stepBatch =>
    exact stepBatch_induction (P := fun m' => m'.image = m.image ∧ m'.limits = m.limits) hstep ⟨rfl, rfl⟩
  | pushResult v =>
    obtain ⟨-, h⟩ | ⟨-, h⟩ := m.pushResult_cases v
    all_goals rw [perform, h]; exact ⟨rfl, rfl⟩
  | touch heap log => exact ⟨rfl, rfl⟩

/-- So does whatever the host does. -/
theorem governed_perform {m : Machine} (h : m.Governed) (d : Deed) : (m.perform d).Governed := by
  have hsame {m' : Machine} (hi : m'.image = m.image) (hl : m'.limits = m.limits)
      (hf : m'.frames = m.frames) (hc : m'.calls = m.calls) (hn : m.locals.length = m'.locals.length)
      (hp : m'.fault? = none → m.fault? = none) : m'.Governed :=
    fun hm' => (h (hp hm')).steady hi hl hf hc (Nat.le_of_eq hn)
  cases d with
  | startTick => exact hsame rfl rfl rfl rfl rfl id
  | step => exact governed_step h
  | stepBatch => exact stepBatch_induction (fun _ => governed_step) h
  | pushResult v =>
    obtain ⟨hp, hanswer⟩ | ⟨-, hanswer⟩ := m.pushResult_cases v
    · rw [perform, hanswer]
      refine hsame rfl rfl rfl rfl rfl ?_
      intro _
      unfold fault?
      rw [hp]
    · rw [perform, hanswer]
      rintro ⟨⟩
  | touch heap log => exact hsame rfl rfl rfl rfl rfl id

/-- A machine starts in order, with the frame of the program's body. -/
theorem orderly_start (image : Image) (shapes : List (List String)) (limits : Limits) :
    (start image shapes limits).Orderly where
  stacked := .bottom rfl rfl List.suffix_rfl
  depth := Nat.zero_le _
  bases := List.pairwise_cons.2 ⟨fun _ hb => Nat.le_of_eq (List.mem_singleton.1 hb),
    List.pairwise_singleton _ _⟩

/-- **The control stack stays in order.** Whatever bytes a machine was loaded from, and whatever its host
has done with it since, as long as it has not failed: its frames are stacked as the code nests, with the
body of the program at the bottom and only there; there is one call for each frame of a function, and no
more than may be; a frame above another found at least as many locals, and all of them are still there.
So there are at most as many frames as calls and nested blocks can make. -/
theorem control_stacked {bytes : List UInt8} {limits : Limits} {m₀ m : Machine} (deeds : List Deed)
    (hload : load bytes limits = .ok m₀) (hm : m₀.after deeds = m) (hf : m.fault? = none) :
    ∃ image, Image.decode bytes = .ok image ∧ Stacked image m.frames m.calls ∧
      (∃ above bottom, m.frames = above ++ [bottom] ∧ bottom.kind = .top ∧
        ∀ f ∈ above, f.kind ≠ .top) ∧
      m.calls.length = m.frames.countP (·.kind = .function) ∧ m.calls.length ≤ limits.callDepth ∧
      (m.locals.length :: m.frames.map Frame.base).Pairwise (· ≥ ·) ∧
      m.frames.length ≤ (limits.callDepth + 1) * (image.program.nesting + 1) := by
  obtain ⟨image, shapes, hdecode, -, rfl⟩ := Machine.load_eq_ok.1 hload
  -- The stack is in order after every deed, as long as there was no fault.
  have hgoverned : m.Governed := by
    rw [← hm]
    refine after_induction (P := Governed) ?_ (fun _ => orderly_start image shapes limits) deeds
    exact fun m' d h => governed_perform h d
  have hprogram : m.image = image ∧ m.limits = limits := by
    rw [← hm]
    refine after_induction (P := fun m => m.image = image ∧ m.limits = limits) ?_ ⟨rfl, rfl⟩ deeds
    intro m' d h
    obtain ⟨hi, hl⟩ := program_perform m' d
    exact ⟨hi.trans h.1, hl.trans h.2⟩
  obtain ⟨hstacked, hdepth, hbases⟩ := hgoverned hf
  rw [hprogram.1] at hstacked
  rw [hprogram.2] at hdepth
  refine ⟨image, hdecode, hstacked, hstacked.exists_bottom, hstacked.length_calls, hdepth, hbases, ?_⟩
  cases hframes : m.frames with
  | nil => exact Nat.zero_le _
  | cons f frames =>
    rw [hframes] at hstacked
    -- Every call has one frame of its own and at most as many inside as bodies are nested.
    calc (f :: frames).length ≤ frames.length + 1 + nestingOf f.body := Nat.le_add_right _ _
      _ ≤ (m.calls.length + 1) * (image.program.nesting + 1) := hstacked.length_add_nesting_le
      _ ≤ (limits.callDepth + 1) * (image.program.nesting + 1) :=
        Nat.mul_le_mul_right _ (Nat.succ_le_succ hdepth)

/-- A function with a loop in a branch in a loop that waits for ticks, five steps in. -/
theorem control_stacked_nested :
    ∃ m₀ m, load (Image.link ⟨[], [], [⟨"f", 0, 1, "a", [.tick [.pushInt 1, .branch [.loop []] []]]⟩],
        [.call 0]⟩).encode .least = .ok m₀ ∧
      m₀.after [.step, .step, .step, .step, .step] = m ∧ m.fault? = none ∧ m.frames.length = 5 ∧
      m.frames.length ≤ 33 * 4 := by
  have hload : load (Image.link ⟨[], [], [⟨"f", 0, 1, "a",
      [.tick [.pushInt 1, .branch [.loop []] []]]⟩], [.call 0]⟩).encode .least =
        .ok (.start (Image.link ⟨[], [], [⟨"f", 0, 1, "a",
          [.tick [.pushInt 1, .branch [.loop []] []]]⟩], [.call 0]⟩) [] .least) := by
    unfold load
    rw [Image.decode_encode (Image.fits_of_length_encode (by decide +kernel))]
    rfl
  obtain ⟨image, hdecode, hrest⟩ := control_stacked [.step, .step, .step, .step, .step] hload rfl
    (by cbv)
  rw [Image.decode_encode (Image.fits_of_length_encode (by decide +kernel))] at hdecode
  cases hdecode
  exact ⟨_, _, hload, rfl, by cbv, by cbv, hrest.2.2.2.2.2⟩

end Machine

end TickScript
