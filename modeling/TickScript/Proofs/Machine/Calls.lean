import TickScript.Proofs.Machine.Halting
import TickScript.Proofs.Tick.Soundness

/-!
# Calls leave their callers alone

All activations of functions share one stack of locals, which is addressed from its moving top. While a
call runs, whatever code it runs, the frames, the calls and the locals of its caller stay below its own
(`Inside`): a local is found only above those that the frame of the running function found, and every
frame of the call found at least what the caller had. When the frame of the call goes, all that is above
the caller goes with it, and the result is on top of the operands (`Returned`).

A step of a machine inside a call leads to one or to the other (`Inside.step`). What happens to the
operands below the result depends on the code. Code in order takes no operand that is not its own, so a
compiled program finds below the result of a call exactly what was below the arguments.
-/

namespace TickScript

/-! ## Operands that code starts with -/

/-- The operands before an instruction are determined by those after it. -/
theorem Instr.flow_injective {s : Site UInt32 UInt32} {op : Op} {d₁ d₂ e₁ e₂ : Depth}
    (hl : d₁.locals = d₂.locals) (h₁ : op.flow s d₁ = some e₁) (h₂ : op.flow s d₂ = some e₂) :
    e₁.locals = e₂.locals ∧ (e₁.operands = e₂.operands → d₁.operands = d₂.operands) := by
  have hswap {taken given : Nat} {e₁ e₂ : Depth} (h₁ : d₁.swap taken given = some e₁)
      (h₂ : d₂.swap taken given = some e₂) :
      e₁.locals = e₂.locals ∧ (e₁.operands = e₂.operands → d₁.operands = d₂.operands) := by
    obtain ⟨hle₁, rfl⟩ := Depth.swap_eq_some h₁
    obtain ⟨hle₂, rfl⟩ := Depth.swap_eq_some h₂
    refine ⟨hl, ?_⟩
    intro he
    dsimp only at he
    omega
  cases op with
  | pushLocal =>
    obtain ⟨e₁', h₁', rfl⟩ := Option.map_eq_some_iff.1 h₁
    obtain ⟨e₂', h₂', rfl⟩ := Option.map_eq_some_iff.1 h₂
    obtain ⟨hlocals, hoperands⟩ := hswap h₁' h₂'
    exact ⟨congrArg (· + 1) hlocals, hoperands⟩
  | makeObject _ | call _ | callBuiltin _ =>
    obtain ⟨n₁, hn₁, h₁⟩ := Option.bind_eq_some_iff.1 h₁
    obtain ⟨n₂, hn₂, h₂⟩ := Option.bind_eq_some_iff.1 h₂
    cases hn₁.symm.trans hn₂
    exact hswap h₁ h₂
  | line _ =>
    cases h₁
    cases h₂
    exact ⟨hl, id⟩
  | file _ | continueLoop | breakLoop | loop _ | tick _ =>
    rw [Instr.flow, Option.ite_none_right_eq_some] at h₁ h₂
    cases h₁.2
    cases h₂.2
    exact ⟨hl, id⟩
  -- A condition and a result are the only operand, so there is nothing to compare.
  | branch _ _ =>
    rw [Instr.flow, Option.ite_none_right_eq_some] at h₁ h₂
    cases h₁.2
    cases h₂.2
    exact ⟨hl, fun _ => h₁.1.1.trans h₂.1.1.symm⟩
  | giveBack =>
    rw [Instr.flow, Option.ite_none_right_eq_some] at h₁ h₂
    cases h₁.2
    cases h₂.2
    exact ⟨hl, fun _ => h₁.1.2.trans h₂.1.2.symm⟩
  | pushText _ | objectMember _ | loadGlobal _ | loadLocal _ | storeGlobal _ | storeLocal _
  | storeMember _ =>
    rw [Instr.flow, Option.ite_none_right_eq_some] at h₁ h₂
    exact hswap h₁.2 h₂.2
  | _ => exact hswap h₁ h₂

/-- Code in order goes on in order after its first instruction. -/
theorem exists_flow_of_isClosed {s : Site UInt32 UInt32} {d : Depth} {op : Op} {ops : List Op}
    (h : Depth.isClosed (flowInstrs s d (op :: ops))) :
    ∃ e, op.flow s d = some e ∧ Depth.isClosed (flowInstrs s e ops) := by
  rw [flowInstrs] at h
  cases hd : op.flow s d with
  | none =>
    rw [hd] at h
    exact nomatch h
  | some e =>
    rw [hd] at h
    exact ⟨e, rfl, h⟩

/-- Code that ends without operands starts with as many as it takes. -/
theorem flowInstrs_injective {s : Site UInt32 UInt32} {ops : List Op} {o₁ o₂ n : Nat}
    (h₁ : Depth.isClosed (flowInstrs s ⟨o₁, n⟩ ops)) (h₂ : Depth.isClosed (flowInstrs s ⟨o₂, n⟩ ops)) :
    o₁ = o₂ := by
  induction ops generalizing o₁ o₂ n with
  | nil => exact (of_decide_eq_true h₁).trans (of_decide_eq_true h₂).symm
  | cons op ops ih =>
    obtain ⟨⟨p₁, l₁⟩, hd₁, h₁⟩ := exists_flow_of_isClosed h₁
    obtain ⟨⟨p₂, l₂⟩, hd₂, h₂⟩ := exists_flow_of_isClosed h₂
    have hl : (⟨o₁, n⟩ : Depth).locals = (⟨o₂, n⟩ : Depth).locals := rfl
    obtain ⟨hlocals, hoperands⟩ := Instr.flow_injective hl hd₁ hd₂
    cases (hlocals : l₁ = l₂)
    exact hoperands (ih h₁ h₂)

namespace Machine

/-- The frames determine how many operands belong to the running function and how many to those that
wait for it. -/
theorem Runs.injective {image : Image} {shapes : List (List String)} {frames : List Frame}
    {own₁ own₂ below₁ below₂ n : Nat} (h₁ : Runs image shapes frames own₁ below₁ n)
    (h₂ : Runs image shapes frames own₂ below₂ n) : own₁ = own₂ ∧ below₁ = below₂ := by
  induction frames generalizing own₁ own₂ below₁ below₂ n with
  | nil => exact h₁.elim
  | cons f frames ih =>
    obtain ⟨hflow₁, -, -, hkind₁⟩ := h₁
    obtain ⟨hflow₂, -, -, hkind₂⟩ := h₂
    refine ⟨flowInstrs_injective hflow₁ hflow₂, ?_⟩
    cases hk : f.kind with
    | top =>
      rw [hk] at hkind₁ hkind₂
      exact hkind₁.trans hkind₂.symm
    | branch =>
      rw [hk] at hkind₁ hkind₂
      exact (ih hkind₁ hkind₂).2
    | loop | tick =>
      rw [hk] at hkind₁ hkind₂
      exact (ih hkind₁.2 hkind₂.2).2
    | function =>
      rw [hk] at hkind₁ hkind₂
      obtain ⟨own₁', below₁', rfl, hr₁⟩ := hkind₁
      obtain ⟨own₂', below₂', rfl, hr₂⟩ := hkind₂
      obtain ⟨ho, hb⟩ := ih hr₁ hr₂
      omega

/-! ## The caller and the call -/

/-- What belongs to the caller of a function: its frames, the calls it stands in, its locals, and the
place of the call. -/
structure Caller where
  frames : List Frame
  calls : List CallSite
  locals : List Value
  location : Location

/-- The frames and calls, listed from the top, that a call has put on those of its caller. -/
inductive Caller.Above (caller : Caller) : List Frame → List CallSite → Prop
  /-- The frame of the call itself found the caller's locals, and goes back to the caller's place. -/
  | entered {f : Frame} {c : CallSite} (kind : f.kind = .function) (base : f.base = caller.locals.length)
      (site : c.location = caller.location) : caller.Above [f] [c]
  | block {f : Frame} {frames : List Frame} {calls : List CallSite} (top : f.kind ≠ .top)
      (kind : f.kind ≠ .function) (base : caller.locals.length ≤ f.base)
      (below : caller.Above frames calls) : caller.Above (f :: frames) calls
  | called {f : Frame} {c : CallSite} {frames : List Frame} {calls : List CallSite}
      (kind : f.kind = .function) (base : caller.locals.length ≤ f.base)
      (below : caller.Above frames calls) : caller.Above (f :: frames) (c :: calls)

/-- A machine inside a call: what belongs to the caller is below what belongs to the call. -/
structure Inside (caller : Caller) (m : Machine) : Prop where
  control : ∃ frames calls, m.frames = frames ++ caller.frames ∧ m.calls = calls ++ caller.calls ∧
    caller.Above frames calls
  locals : ∃ own, m.locals = own ++ caller.locals

/-- A machine that is back at the caller and can go on. -/
structure Returned (caller : Caller) (m : Machine) : Prop where
  phase : m.phase = .running
  frames : m.frames = caller.frames
  calls : m.calls = caller.calls
  locals : m.locals = caller.locals
  location : m.location = caller.location

/-- The next step of the machine leaves a function with a value: it runs a `return`, wherever that stands
in the function, or the function has come to its end. The other operands are those given. -/
def Yields (m : Machine) (v : Value) (operands : List Value) : Prop :=
  ∃ f frames, m.frames = f :: frames ∧
    ((∃ rest, f.rest = .giveBack :: rest ∧ m.operands = v :: operands) ∨
      (f.kind = .function ∧ f.rest = [] ∧ v = .null ∧ m.operands = operands))

/-- What a step inside a call leads to: the machine is still inside, or it is back at the caller with the
value of the call. -/
def Proceeds (caller : Caller) (m m' : Machine) : Prop :=
  Inside caller m' ∨
    (Returned caller m' ∧ ∃ v operands, m'.operands = v :: operands ∧ m.Yields v operands)

namespace Caller.Above

variable {caller : Caller} {f : Frame} {frames : List Frame} {calls : List CallSite}

/-- The frame on top may go on to another part of its body. -/
theorem withRest (h : caller.Above (f :: frames) calls) (rest : List Op) :
    caller.Above ({ f with rest } :: frames) calls := by
  cases h with
  | entered kind base site => exact .entered kind base site
  | block top kind base below => exact .block top kind base below
  | called kind base below => exact .called kind base below

/-- The frame on top of a call is not that of the program's body. -/
theorem kind_ne_top (h : caller.Above (f :: frames) calls) : f.kind ≠ .top := by
  cases h with
  | entered kind => rw [kind]; decide
  | block top => exact top
  | called kind => rw [kind]; decide

/-- The frames of a call found at least the locals of the caller. -/
theorem le_base (h : caller.Above (f :: frames) calls) : caller.locals.length ≤ f.base := by
  cases h with
  | entered _ base => exact Nat.le_of_eq base.symm
  | block _ _ base => exact base
  | called _ base => exact base

/-- Under a block there is more of the call. -/
theorem pop_block (h : caller.Above (f :: frames) calls) (hk : f.kind ≠ .function) :
    caller.Above frames calls := by
  cases h with
  | entered kind => exact absurd kind hk
  | block _ _ _ below => exact below
  | called kind => exact absurd kind hk

/-- The running function of a call found at least the locals of the caller. -/
theorem le_callerLocals {m : Machine} {below : List Frame} (h : caller.Above frames calls)
    (hm : m.frames = frames ++ below) : caller.locals.length ≤ m.callerLocals := by
  unfold callerLocals
  rw [hm]
  clear hm
  induction h with
  | entered kind base _ =>
    simp only [List.cons_append, List.find?_cons, kind, decide_true]
    exact Nat.le_of_eq base.symm
  | block _ kind _ _ ih => simpa only [List.cons_append, List.find?_cons, kind, decide_false] using ih
  | called kind base _ _ => simpa only [List.cons_append, List.find?_cons, kind, decide_true] using base

end Caller.Above

/-! ## Locals -/

/-- Dropping locals down to a frame of the call leaves those of the caller. -/
theorem exists_locals_truncate {m : Machine} {own kept : List Value} {base : Nat}
    (hm : m.locals = own ++ kept) (hb : kept.length ≤ base) :
    ∃ own', (m.truncate base).locals = own' ++ kept := by
  refine ⟨own.drop (m.locals.length - base), ?_⟩
  have hle : m.locals.length - base ≤ own.length := by
    rw [hm, List.length_append]
    omega
  simp only [truncate]
  rw [hm, List.drop_append_of_le_length (hm ▸ hle)]

/-- Dropping locals down to the frame of the call itself leaves the caller's and nothing else. -/
theorem locals_truncate {m : Machine} {own kept : List Value} (hm : m.locals = own ++ kept) :
    (m.truncate kept.length).locals = kept := by
  simp only [truncate, hm, List.length_append, Nat.add_sub_cancel]
  exact List.drop_left

namespace Inside

variable {caller : Caller} {m m' : Machine}

/-- Nothing changes when frames and calls stay, and the caller's locals too. -/
theorem steady (h : Inside caller m) (hf : m'.frames = m.frames) (hc : m'.calls = m.calls)
    (hl : ∃ own, m'.locals = own ++ caller.locals) : Inside caller m' := by
  obtain ⟨frames, calls, hframes, hcalls, habove⟩ := h.control
  exact ⟨⟨frames, calls, hf.trans hframes, hc.trans hcalls, habove⟩, hl⟩

/-- A machine that fails inside a call is still inside. -/
theorem stop (h : Inside caller m) (cause : Cause) : Inside caller (m.stop cause).1 :=
  h.steady rfl rfl h.locals

/-- A body can be entered. -/
theorem enter (h : Inside caller m) {kind : FrameKind} (body : List Op) (ht : kind ≠ .top)
    (hf : kind ≠ .function) : Inside caller (m.enter kind body) := by
  obtain ⟨frames, calls, hframes, hcalls, habove⟩ := h.control
  obtain ⟨own, hown⟩ := h.locals
  refine ⟨⟨⟨kind, body, body, m.locals.length⟩ :: frames, calls, ?_, hcalls, .block ht hf ?_ habove⟩, own, hown⟩
  · simp only [Machine.enter, hframes, List.cons_append]
  · rw [hown, List.length_append]
    exact Nat.le_add_left _ _

/-- The result of a function goes to the function that has called it, or to the caller. -/
theorem afterFunction {v : Value} {f : Frame} {frames : List Frame} {calls : List CallSite}
    (hp : m.phase = .running) (hf : m.frames = frames ++ caller.frames) (hc : m.calls = calls ++ caller.calls)
    (habove : caller.Above (f :: frames) calls) (hk : f.kind = .function)
    (hl : ∃ own, m.locals = own ++ caller.locals) :
    Inside caller ({ m.truncate f.base with frames := m.frames }.returnToCaller.push v) ∨
      Returned caller ({ m.truncate f.base with frames := m.frames }.returnToCaller.push v) := by
  obtain ⟨own, hown⟩ := hl
  have hcalls : ({ m.truncate f.base with frames := m.frames } : Machine).calls =
      calls ++ caller.calls := hc
  unfold returnToCaller
  rw [hcalls]
  cases habove with
  | entered _ base site => exact .inr ⟨hp, hf, rfl, base ▸ locals_truncate hown, site⟩
  | block _ kind => exact absurd hk kind
  | called _ base below =>
    exact .inl ⟨⟨frames, _, hf, rfl, below⟩, exists_locals_truncate hown base⟩

/-- The end of a body inside a call. -/
theorem endFrame (h : Inside caller m) (hp : m.phase = .running) :
    Inside caller m.endFrame.1 ∨
      (Returned caller m.endFrame.1 ∧ m.endFrame.1.operands = .null :: m.operands ∧
        ∃ f frames, m.frames = f :: frames ∧ f.kind = .function) := by
  obtain ⟨frames, calls, hframes, hcalls, habove⟩ := h.control
  obtain ⟨own, hown⟩ := h.locals
  cases frames with
  | nil => exact nomatch habove
  | cons f frames =>
    rw [List.cons_append] at hframes
    have hlocals := exists_locals_truncate hown habove.le_base
    unfold Machine.endFrame
    rw [hframes]
    dsimp only
    cases hk : f.kind with
    | top => exact absurd hk habove.kind_ne_top
    | loop | tick => exact .inl ⟨⟨_ :: frames, calls, rfl, hcalls, hk ▸ habove.withRest f.body⟩, hlocals⟩
    | branch =>
      exact .inl ⟨⟨frames, calls, rfl, hcalls, habove.pop_block (by rw [hk]; decide)⟩, hlocals⟩
    | function =>
      rcases afterFunction (m := { m with frames := frames ++ caller.frames }) (v := .null) hp rfl
        hcalls habove hk ⟨own, hown⟩ with hin | hback
      · exact .inl hin
      · refine .inr ⟨hback, ?_, f, _, rfl, hk⟩
        obtain ⟨calls', location, he⟩ :=
          returnToCaller_eq { m.truncate f.base with frames := frames ++ caller.frames }
        simp only [go, push, he]
        rfl

/-- Leaving branches leads to a loop of the call or to one of its functions. -/
theorem leaveBranches {frames : List Frame} {calls : List CallSite}
    (habove : caller.Above frames calls) (hc : m.calls = calls ++ caller.calls)
    (hl : ∃ own, m.locals = own ++ caller.locals) :
    Inside caller (m.leaveBranches (frames ++ caller.frames)) := by
  induction frames generalizing m with
  | nil => exact nomatch habove
  | cons f frames ih =>
    obtain ⟨own, hown⟩ := hl
    rw [List.cons_append, Machine.leaveBranches]
    split
    · next hk =>
      exact ih (m := m.truncate f.base) (habove.pop_block (by rw [hk]; decide)) hc
        (exists_locals_truncate hown habove.le_base)
    · exact ⟨⟨f :: frames, calls, rfl, hc, habove⟩, own, hown⟩

/-- Leaving a function that belongs to the call, and going back to where it was called. -/
theorem leaveFunction {frames : List Frame} {calls : List CallSite} (v : Value)
    (hp : m.phase = .running) (habove : caller.Above frames calls) (hc : m.calls = calls ++ caller.calls)
    (hl : ∃ own, m.locals = own ++ caller.locals) :
    ∃ m', m.leaveFunction (frames ++ caller.frames) = (m', true) ∧ m'.operands = m.operands ∧
      (Inside caller (m'.returnToCaller.push v) ∨ Returned caller (m'.returnToCaller.push v)) := by
  induction frames generalizing m with
  | nil => exact nomatch habove
  | cons f frames ih =>
    rw [List.cons_append, Machine.leaveFunction]
    cases hk : f.kind with
    | top => exact absurd hk habove.kind_ne_top
    | function =>
      exact ⟨_, rfl, rfl, afterFunction (m := { m with frames := frames ++ caller.frames }) hp rfl hc
        habove hk hl⟩
    | loop | tick | branch =>
      obtain ⟨own, hown⟩ := hl
      exact ih (m := m.truncate f.base) hp (habove.pop_block (by rw [hk]; decide)) hc
        (exists_locals_truncate hown habove.le_base)

/-! ## Steps inside a call -/

/-- The next pass of a loop is inside the call that the loop is in. -/
theorem continueLoop (h : Inside caller m) (hp : m.phase = .running) : Inside caller m.continueLoop.1 := by
  obtain ⟨frames, calls, hframes, hcalls, habove⟩ := h.control
  have hleft := leaveBranches habove hcalls h.locals
  unfold Machine.continueLoop
  dsimp only
  rw [hframes]
  split
  · next hat =>
    have hp' := (phase_leaveBranches m (frames ++ caller.frames)).trans hp
    rcases hleft.endFrame hp' with hin | ⟨-, -, f, fs, hf, hk⟩
    · exact hin
    -- Only a loop starts again, so no function has ended.
    · rcases kind_of_atLoop hat hf with hloop | hloop <;> exact nomatch hk.symm.trans hloop
  · exact hleft.stop _

/-- A loop that is left is left to what the call has around it. -/
theorem breakLoop (h : Inside caller m) : Inside caller m.breakLoop.1 := by
  obtain ⟨frames, calls, hframes, hcalls, habove⟩ := h.control
  have hleft := leaveBranches habove hcalls h.locals
  unfold Machine.breakLoop
  dsimp only
  rw [hframes]
  generalize m.leaveBranches (frames ++ caller.frames) = left at hleft ⊢
  obtain ⟨frames', calls', hframes', hcalls', habove'⟩ := hleft.control
  obtain ⟨own, hown⟩ := hleft.locals
  cases frames' with
  | nil => exact nomatch habove'
  | cons f frames' =>
    rw [hframes']
    dsimp only [List.cons_append]
    split
    · next hat =>
      have hk : f.kind ≠ .function := by
        rcases kind_of_atLoop hat hframes' with hk | hk <;> rw [hk] <;> decide
      exact ⟨⟨frames', calls', rfl, hcalls', habove'.pop_block hk⟩,
        exists_locals_truncate hown habove'.le_base⟩
    · exact hleft.stop _

/-- Giving back a value leaves the call, unless a function inside it gives the value back. -/
theorem giveBack (h : Inside caller m) (hp : m.phase = .running) :
    Inside caller m.giveBack.1 ∨ (Returned caller m.giveBack.1 ∧
      ∃ v operands, m.giveBack.1.operands = v :: operands ∧ m.operands = v :: operands) := by
  obtain ⟨frames, calls, hframes, hcalls, habove⟩ := h.control
  unfold Machine.giveBack
  split
  · exact .inl (h.stop _)
  · next v rest hm =>
    obtain ⟨m', hleft, hoperands, hgoes⟩ :=
      leaveFunction (m := { m with operands := rest }) v hp habove hcalls h.locals
    rw [← hframes] at hleft
    rw [hleft]
    dsimp only
    rcases hgoes with hin | hback
    · exact .inl hin
    · refine .inr ⟨hback, v, rest, ?_, hm⟩
      obtain ⟨calls', location, he⟩ := returnToCaller_eq m'
      simp only [go, push, he, hoperands]

/-- A call inside a call is inside it. -/
theorem call (h : Inside caller m) (id : UInt32) : Inside caller (m.call id).1 := by
  obtain ⟨frames, calls, hframes, hcalls, habove⟩ := h.control
  obtain ⟨own, hown⟩ := h.locals
  unfold Machine.call
  split
  · exact h.stop _
  · next function _ =>
    split
    · exact h.stop _
    · next called _ =>
      split
      · exact h.stop _
      · refine ⟨⟨⟨.function, function.body, function.body, m.locals.length⟩ :: frames,
          ⟨called, m.location⟩ :: calls, ?_, ?_, .called rfl ?_ habove⟩, own, hown⟩
        · simp only [go, Machine.enter, hframes, List.cons_append]
        · simp only [go, Machine.enter, hcalls, List.cons_append]
        · rw [hown, List.length_append]
          exact Nat.le_add_left _ _

/-- The block of a branch is inside the call that the branch is in. -/
theorem branch (h : Inside caller m) (yes no : List Op) : Inside caller (m.branch yes no).1 := by
  unfold Machine.branch
  split
  · exact h.stop _
  · next v rest _ =>
    have hdropped : Inside caller (m.dropped rest [v]) := h.steady rfl rfl h.locals
    dsimp only
    generalize (if v.isTruthy then yes else no) = body
    split
    · exact hdropped
    · exact hdropped.enter body (by decide) (by decide)

/-- Work on values spares the caller's locals: one that is stored is one of the call's own. -/
theorem works {result : Machine × Status} (h : Inside caller m) (hw : Works m result) :
    Inside caller result.1 := by
  have hworked {m' : Machine} (hw : Worked m m') : Inside caller m' := by
    obtain ⟨own, hown⟩ := h.locals
    cases hw with
    | kept => exact h.steady rfl rfl ⟨own, hown⟩
    | pushed _ v => exact h.steady rfl rfl ⟨v :: own, by rw [hown, List.cons_append]⟩
    | @changed _ _ slot v owned =>
      obtain ⟨frames, calls, hframes, -, habove⟩ := h.control
      have hfloor := habove.le_callerLocals hframes
      have hslot : slot < own.length := by
        have hle := of_decide_eq_true owned
        rw [hown, List.length_append] at hle
        omega
      refine h.steady rfl rfl ⟨own.set slot v, ?_⟩
      rw [hown]
      exact List.set_append_left _ _ hslot
  cases hw with
  | goes hw => exact hworked hw
  | stops hw => exact (hworked hw).stop _

/-- An instruction leaves the machine inside the call, except for the `return` that ends the call. -/
theorem exec (h : Inside caller m) (hp : m.phase = .running) (op : Op) :
    Inside caller (m.exec op).1 ∨ (op = .giveBack ∧ Returned caller (m.exec op).1 ∧
      ∃ v operands, (m.exec op).1.operands = v :: operands ∧ m.operands = v :: operands) := by
  cases op with
  | giveBack =>
    rcases h.giveBack hp with hin | hback
    · exact .inl hin
    · exact .inr ⟨rfl, hback⟩
  | branch yes no => exact .inl (h.branch yes no)
  | loop body => exact .inl (h.enter body (by decide) (by decide))
  | tick body => exact .inl (h.enter body (by decide) (by decide))
  | continueLoop => exact .inl (h.continueLoop hp)
  | breakLoop => exact .inl h.breakLoop
  | call id => exact .inl (h.call id)
  | line | file | callBuiltin =>
    left
    simp only [Machine.exec, callBuiltin]
    repeat' split
    all_goals exact h.steady rfl rfl h.locals
  | _ => exact .inl (h.works (works_exec m rfl))

/-- Whatever runs next leads on inside the call, or back to the caller. -/
theorem execNext (h : Inside caller m) (hp : m.phase = .running) : Proceeds caller m m.execNext.1 := by
  obtain ⟨frames, calls, hframes, hcalls, habove⟩ := h.control
  cases frames with
  | nil => exact nomatch habove
  | cons f frames =>
    rw [List.cons_append] at hframes
    cases hr : f.rest with
    | nil =>
      rw [execNext_of_nil hframes hr]
      rcases h.endFrame hp with hin | ⟨hback, hoperands, g, gs, hg, hk⟩
      · exact .inl hin
      · cases hframes.symm.trans hg
        exact .inr ⟨hback, .null, m.operands, hoperands, f, _, hframes, .inr ⟨hk, hr, rfl, rfl⟩⟩
    | cons op rest =>
      rw [execNext_of_cons hframes hr]
      have hnext : Inside caller { m with frames := { f with rest } :: (frames ++ caller.frames) } :=
        ⟨⟨{ f with rest } :: frames, calls, rfl, hcalls, habove.withRest rest⟩, h.locals⟩
      rcases hnext.exec hp op with hin | ⟨rfl, hback, v, operands, hv, ho⟩
      · exact .inl hin
      · exact .inr ⟨hback, v, operands, hv, f, _, hframes, .inl ⟨rest, hr, ho⟩⟩

/-- **A step inside a call stays inside or goes back to the caller.** -/
theorem step (h : Inside caller m) : Proceeds caller m m.step.1 := by
  cases m.stepCase with
  | complete _ hs | faulted _ _ hs | unpaid _ _ hs => exact hs ▸ .inl h
  | unanswered _ hs | overfull _ _ _ hs => exact hs ▸ .inl (h.stop _)
  | made hp _ _ hs =>
    have hpaid : Inside caller { m with spent := m.spent + 1 } := h.steady rfl rfl h.locals
    exact hs ▸ hpaid.execNext hp

end Inside

/-! ## A whole call -/

/-- The second machine comes of the first by single deeds of the host, and has had more than `k` frames
all the time. A batch of steps is as many single ones (`exists_steps_of_stepBatch`). -/
inductive Within (k : Nat) (m : Machine) : Machine → Prop
  | here (h : k < m.frames.length) : Within k m m
  | on {m' : Machine} (before : Within k m m') (d : Deed) (single : d ≠ .stepBatch)
      (h : k < (m'.perform d).frames.length) : Within k m (m'.perform d)

/-- A batch is a number of steps. -/
theorem exists_steps_of_stepBatch (m : Machine) :
    ∃ n, m.stepBatch.1 = m.after (List.replicate n .step) := by
  fun_induction stepBatch m with
  | case1 m m' hs ih =>
    obtain ⟨n, hn⟩ := ih
    refine ⟨n + 1, ?_⟩
    rw [List.replicate_succ, after, List.foldl_cons, perform, hs]
    exact hn
  | case2 m _ => exact ⟨1, rfl⟩

/-- Steps with more than `k` frames all the time are such deeds. -/
theorem within_of_steps {k n : Nat} {m : Machine}
    (h : ∀ i ≤ n, k < (m.after (List.replicate i .step)).frames.length) :
    Within k m (m.after (List.replicate n .step)) := by
  induction n with
  | zero => exact .here (h 0 (Nat.le_refl 0))
  | succ n ih =>
    have hlast := h (n + 1) (Nat.le_refl _)
    rw [List.replicate_succ', after, List.foldl_append] at hlast ⊢
    exact .on (ih fun i hi => h i (Nat.le_succ_of_le hi)) .step (by rintro ⟨⟩) hlast

/-- Only a step can leave a call. -/
theorem Inside.perform {caller : Caller} {m : Machine} (h : Inside caller m) {d : Deed}
    (hd : d ≠ .stepBatch) :
    Inside caller (m.perform d) ∨ (d = .step ∧ Proceeds caller m (m.perform d)) := by
  cases d with
  | startTick => exact .inl (h.steady rfl rfl h.locals)
  | step => exact .inr ⟨rfl, h.step⟩
  | stepBatch => exact absurd rfl hd
  | pushResult v =>
    left
    obtain ⟨-, hanswer⟩ | ⟨-, hanswer⟩ := m.pushResult_cases v
    all_goals rw [Machine.perform, hanswer]; exact h.steady rfl rfl h.locals
  | touch heap log => exact .inl (h.steady rfl rfl h.locals)

/-- A call has a frame of its own. -/
theorem Inside.lt_length {caller : Caller} {m : Machine} (h : Inside caller m) :
    caller.frames.length < m.frames.length := by
  obtain ⟨frames, calls, hframes, -, habove⟩ := h.control
  cases frames with
  | nil => exact nomatch habove
  | cons f frames =>
    simp only [hframes, List.length_append, List.length_cons]
    omega

/-- A machine that has not left a call is inside it. -/
theorem Inside.within {caller : Caller} {m m' : Machine} (h : Inside caller m)
    (hw : Within caller.frames.length m m') : Inside caller m' := by
  induction hw with
  | here => exact h
  | @on m' _ d single hlt ih =>
    rcases ih.perform single with hin | ⟨-, hin | ⟨hback, -⟩⟩
    · exact hin
    · exact hin
    · rw [hback.frames] at hlt
      exact absurd hlt (Nat.lt_irrefl _)

/-- A deed that leaves a call is a step, and goes back to the caller with the value of the call. -/
theorem Inside.left {caller : Caller} {m : Machine} (h : Inside caller m) {d : Deed}
    (hd : d ≠ .stepBatch) (hle : (m.perform d).frames.length ≤ caller.frames.length) :
    d = .step ∧ Returned caller (m.perform d) ∧
      ∃ v operands, (m.perform d).operands = v :: operands ∧ m.Yields v operands := by
  rcases h.perform hd with hin | ⟨rfl, hin | ⟨hback, hvalue⟩⟩
  · exact absurd hin.lt_length (Nat.not_lt_of_le hle)
  · exact absurd hin.lt_length (Nat.not_lt_of_le hle)
  · exact ⟨rfl, hback, hvalue⟩

/-- What a call of a function does that is not refused. -/
theorem step_of_call {m m' : Machine} {id : UInt32} {f : Frame} {frames : List Frame} {rest : List Op}
    (hf : m.frames = f :: frames) (hr : f.rest = .call id :: rest) (hs : m.step = (m', .running)) :
    ∃ function called, m.image.program.functions[id.toNat]? = some function ∧
      m' = { m with
        spent := m.spent + 1
        calls := ⟨called, m.location⟩ :: m.calls
        frames := ⟨.function, function.body, function.body, m.locals.length⟩ :: { f with rest } ::
          frames } := by
  cases m.stepCase with
  | complete _ he | faulted _ _ he | unanswered _ he | unpaid _ _ he | overfull _ _ _ he =>
    cases hs.symm.trans he
  | made _ _ _ he =>
    rw [he, execNext_of_cons (m := { m with spent := m.spent + 1 }) hf hr] at hs
    simp only [exec, call] at hs
    split at hs
    · cases hs
    · next function hfunction =>
      split at hs
      · cases hs
      · next called hcalled =>
        split at hs
        · cases hs
        · cases hs
          exact ⟨function, called, hfunction, rfl⟩

/-- What a machine leaves behind when it runs a call. -/
def callerAt (m : Machine) (f : Frame) (frames : List Frame) (rest : List Op) : Caller :=
  ⟨{ f with rest } :: frames, m.calls, m.locals, m.location⟩

/-- A step that runs a call enters it. -/
theorem inside_of_call {m m' : Machine} {id : UInt32} {f : Frame} {frames : List Frame} {rest : List Op}
    (hf : m.frames = f :: frames) (hr : f.rest = .call id :: rest) (hs : m.step = (m', .running)) :
    Inside (m.callerAt f frames rest) m' := by
  obtain ⟨function, called, -, rfl⟩ := step_of_call hf hr hs
  exact ⟨⟨[_], [_], rfl, rfl, .entered rfl rfl rfl⟩, [], rfl⟩

/-! ## The caller's operands -/

/-- Leaving branches touches no operand. -/
theorem operands_leaveBranches (m : Machine) (frames : List Frame) :
    (m.leaveBranches frames).operands = m.operands := by
  obtain ⟨locals, heap, left, he⟩ := m.leaveBranches_eq frames
  rw [he]

/-- Nor does leaving a function. -/
theorem operands_leaveFunction (m : Machine) (frames : List Frame) :
    (m.leaveFunction frames).1.operands = m.operands := by
  obtain ⟨locals, heap, left, he⟩ := m.leaveFunction_eq frames
  rw [he]

/-- The end of a frame takes no operand away. -/
theorem suffix_operands_endFrame (m : Machine) : m.operands <:+ m.endFrame.1.operands := by
  unfold endFrame
  split
  · exact List.suffix_rfl
  · next f frames _ =>
    split
    all_goals try exact List.suffix_rfl
    obtain ⟨calls, location, he⟩ := returnToCaller_eq { m.truncate f.base with frames }
    rw [he]
    exact List.suffix_cons _ _

/-- Nor does the next pass of a loop. -/
theorem suffix_operands_continueLoop (m : Machine) : m.operands <:+ m.continueLoop.1.operands := by
  have ho := operands_leaveBranches m m.frames
  unfold continueLoop
  dsimp only
  split
  · exact ho ▸ suffix_operands_endFrame _
  · rw [← ho]
    exact List.suffix_rfl

/-- Nor does leaving a loop. -/
theorem suffix_operands_breakLoop (m : Machine) : m.operands <:+ m.breakLoop.1.operands := by
  have ho := operands_leaveBranches m m.frames
  unfold breakLoop
  dsimp only
  rw [← ho]
  split
  · split <;> exact List.suffix_rfl
  · exact List.suffix_rfl

/-- Giving back a value takes no more than the value away. -/
theorem suffix_operands_giveBack (m : Machine) : m.operands.drop 1 <:+ m.giveBack.1.operands := by
  unfold giveBack
  split
  · next hm =>
    rw [hm]
    exact List.nil_suffix
  · next v rest hm =>
    have ho := operands_leaveFunction { m with operands := rest } m.frames
    rw [hm]
    split
    · next m' hl =>
      rw [hl] at ho
      obtain ⟨calls, location, he⟩ := returnToCaller_eq m'
      rw [he]
      exact ho ▸ List.suffix_cons _ _
    · next m' hl =>
      rw [hl] at ho
      exact ho ▸ List.suffix_rfl

/-- What is left of the operands is what is below those that were taken. -/
theorem eq_drop_of_takeOperands {n : Nat} {operands args rest : List Value}
    (h : takeOperands n operands = some (args, rest)) : rest = operands.drop n := by
  unfold takeOperands at h
  split at h
  · cases h
    rfl
  · cases h

/-- A tuple takes no more operands than it has items. -/
theorem suffix_operands_makeTuple (m : Machine) (n : Nat) :
    m.operands.drop n <:+ (m.makeTuple n).1.operands := by
  unfold makeTuple
  split
  · exact List.drop_suffix _ _
  · next items rest ht =>
    cases eq_drop_of_takeOperands ht
    dsimp only
    split
    · exact List.suffix_rfl
    · exact List.suffix_cons _ _

/-- Nor does an array. -/
theorem suffix_operands_makeArray (m : Machine) (n : Nat) :
    m.operands.drop n <:+ (m.makeArray n).1.operands := by
  unfold makeArray
  split
  · exact List.drop_suffix _ _
  · split
    · exact List.drop_suffix _ _
    · next items rest ht =>
      cases eq_drop_of_takeOperands ht
      exact List.suffix_cons _ _

/-- An object takes no more operands than its shape has names. -/
theorem suffix_operands_makeObject {m : Machine} {shape : UInt32} {n : Nat}
    (h : m.site.members? shape = some n) : m.operands.drop n <:+ (m.makeObject shape).1.operands := by
  obtain ⟨names, hs, rfl⟩ := Option.map_eq_some_iff.1 h
  unfold makeObject
  rw [hs]
  dsimp only
  split
  · exact List.drop_suffix _ _
  · next values rest ht =>
    cases eq_drop_of_takeOperands ht
    exact List.suffix_cons _ _

/-- A call of the host takes no more operands than the function has arguments. -/
theorem suffix_operands_callBuiltin {m : Machine} {id : UInt32} {n : Nat}
    (h : m.site.builtinArity? id = some n) : m.operands.drop n <:+ (m.callBuiltin id).1.operands := by
  obtain ⟨b, hb, rfl⟩ := Option.map_eq_some_iff.1 h
  unfold callBuiltin
  rw [hb]
  dsimp only
  split
  · exact List.drop_suffix _ _
  · next args rest ht =>
    cases eq_drop_of_takeOperands ht
    exact List.suffix_rfl

/-- An instruction in order leaves the operands below its own as they are. -/
theorem suffix_operands_exec {m : Machine} {op : Op} {d d' : Depth} (h : op.flow m.site d = some d') :
    m.operands.drop d.operands <:+ (m.exec op).1.operands := by
  -- An instruction that takes some operands leaves those below, and what flows takes no more than it has.
  have hfewer {taken given : Nat} {e : Depth} {operands : List Value} (hd : d.swap taken given = some e)
      (hs : m.operands.drop taken <:+ operands) : m.operands.drop d.operands <:+ operands :=
    (List.drop_suffix_drop_left m.operands (Depth.swap_eq_some hd).1).trans hs
  have hkept {operands : List Value} (hs : m.operands <:+ operands) :
      m.operands.drop d.operands <:+ operands := (List.drop_suffix _ _).trans hs
  cases op with
  | continueLoop => exact hkept (suffix_operands_continueLoop m)
  | breakLoop => exact hkept (suffix_operands_breakLoop m)
  | giveBack =>
    rw [Instr.flow, Option.ite_none_right_eq_some] at h
    exact h.1.2 ▸ suffix_operands_giveBack m
  | branch yes no =>
    rw [Instr.flow, Option.ite_none_right_eq_some] at h
    rw [h.1.1]
    simp only [exec, branch]
    split
    · next hm => exact hm ▸ List.nil_suffix
    · next v rest hm =>
      rw [hm]
      generalize (if v.isTruthy then yes else no) = body
      split <;> exact List.suffix_rfl
  | loop _ | tick _ | line _ => exact hkept List.suffix_rfl
  | file _ | loadGlobal _ | loadLocal _ | call _ =>
    refine hkept ?_
    simp only [exec, loadGlobal, loadLocal, call]
    repeat' split
    all_goals first
      | exact List.suffix_rfl
      | exact List.suffix_cons _ _
  | pushNull | pushInt _ | pushFloat _ => exact hkept (List.suffix_cons _ _)
  | pushText _ =>
    rw [Instr.flow, Option.ite_none_right_eq_some] at h
    refine hkept ?_
    simp only [exec]
    split
    · exact List.suffix_cons _ _
    · exact List.suffix_rfl
  | makeTuple n => exact hfewer h (suffix_operands_makeTuple m n.toNat)
  | makeArray n => exact hfewer h (suffix_operands_makeArray m n.toNat)
  | makeObject shape =>
    obtain ⟨n, hn, hd⟩ := Option.bind_eq_some_iff.1 h
    exact hfewer hd (suffix_operands_makeObject hn)
  | callBuiltin id =>
    obtain ⟨n, hn, hd⟩ := Option.bind_eq_some_iff.1 h
    exact hfewer hd (suffix_operands_callBuiltin hn)
  | discard | tupleMember _ | unary _ | element | binary _ | storeElement =>
    refine hfewer h ?_
    simp only [exec, tupleMember, unary, element, binary, storeElement]
    repeat' split
    all_goals simp [*, go, Machine.stop, fail, dropped, replaceTop, List.tail_suffix]
  | objectMember _ | storeGlobal _ | storeLocal _ | storeMember _ =>
    rw [Instr.flow, Option.ite_none_right_eq_some] at h
    refine hfewer h.2 ?_
    simp only [exec, objectMember, storeGlobal, storeLocal, storeMember]
    repeat' split
    all_goals simp [*, go, Machine.stop, fail, dropped, replaceTop, List.tail_suffix]
  | pushLocal =>
    obtain ⟨e, hd, -⟩ := Option.map_eq_some_iff.1 h
    refine hfewer hd ?_
    simp only [exec, pushLocal]
    split
    all_goals simp [*, go, Machine.stop, fail]

/-! ## Calls of compiled programs -/

/-- A step of a sound machine leaves a sound machine of the same program, unless it fails. -/
theorem Sound.step {m : Machine} (h : m.Sound) (hf : m.step.1.fault? = none) :
    m.step.1.Sound ∧ m.step.1.image = m.image ∧ m.step.1.shapes = m.shapes := by
  by_cases hp : m.phase = .awaiting
  · have hstop : m.step = m.stop .callPending := by unfold Machine.step; rw [hp]
    rw [hstop] at hf
    exact nomatch hf
  · have hgood := good_step h hp
    exact ⟨hgood.sound, hgood.image, hgood.shapes⟩

/-- A result that a sound machine accepts is the answer to its call. -/
theorem Sound.pushResult {m : Machine} (h : m.Sound) (v : Value)
    (hf : (m.pushResult v).2.fault? = none) :
    (m.pushResult v).2 = { m with operands := v :: m.operands, phase := .running } ∧
      (m.pushResult v).2.Sound := by
  obtain ⟨hp, hanswer⟩ | ⟨-, hanswer⟩ := m.pushResult_cases v <;> rw [hanswer] at hf ⊢
  · have hstands := h.stands
    unfold Stands at hstands
    rw [hp] at hstands
    obtain ⟨own, below, ho, hruns⟩ := hstands
    refine ⟨rfl, h.ordered, h.globals, own + 1, below, ?_, hruns⟩
    simp only [List.length_cons]
    omega
  · exact nomatch hf

/-- A machine that has failed stays so. -/
theorem fault?_of_perform {m : Machine} {d : Deed} (h : (m.perform d).fault? = none) :
    m.fault? = none := by
  cases hp : m.phase with
  | running | awaiting | complete =>
    unfold fault?
    rw [hp]
  | faulted f =>
    have hfinal : m.phase.final? = some (.fault f) := by rw [hp]; rfl
    have hafter := (perform_of_final hfinal d).2
    unfold fault? at h
    rw [hafter, afterwards] at h
    cases hanswer : d.isAnswer with
    | true =>
      rw [hanswer] at h
      cases h
    | false =>
      rw [hanswer, hp] at h
      cases h

/-- A machine that does not run leaves its operands alone. -/
theorem operands_step_of_not_running {m : Machine} (h : m.phase ≠ .running) :
    m.step.1.operands = m.operands := by
  cases m.stepCase with
  | complete _ hs | faulted _ _ hs | unanswered _ hs => exact congrArg (·.1.operands) hs
  | unpaid hp | overfull hp | made hp => exact absurd hp h

/-- A machine that is sound unless it has failed stays so, whatever its host does. -/
theorem sound_perform {m : Machine} (h : m.fault? = none → m.Sound) (d : Deed)
    (hf : (m.perform d).fault? = none) : (m.perform d).Sound := by
  have hm := h (fault?_of_perform hf)
  cases d with
  | startTick => exact ⟨hm.ordered, hm.globals, hm.stands⟩
  | step => exact (hm.step hf).1
  | stepBatch =>
    refine stepBatch_induction (P := fun m' => m'.fault? = none → m'.Sound) ?_ h hf
    intro m' h' hf'
    exact ((h' (fault?_of_perform (d := .step) hf')).step hf').1
  | pushResult v => exact (hm.pushResult v hf).2
  | touch heap log => exact ⟨hm.ordered, hm.globals, hm.stands⟩

/-- Where a sound machine may run its next instruction, it has operands of its own above those that wait
for it. -/
theorem Sound.runs {m : Machine} (h : m.Sound) (hp : m.phase = .running) :
    ∃ own below, m.operands.length = own + below ∧
      Runs m.image m.shapes m.frames own below m.locals.length := by
  have hstands := h.stands
  unfold Stands at hstands
  rw [hp] at hstands
  exact hstands

/-- A step of a sound machine leaves the operands below those of the running function as they are. -/
theorem suffix_operands_step {m : Machine} {own below : Nat} (hp : m.phase = .running)
    (hr : Runs m.image m.shapes m.frames own below m.locals.length) :
    m.operands.drop own <:+ m.step.1.operands := by
  cases m.stepCase with
  | complete ho | faulted _ ho | unanswered ho => exact nomatch hp.symm.trans ho
  | unpaid _ _ hs | overfull _ _ _ hs => exact hs ▸ List.drop_suffix _ _
  | made _ _ _ hs =>
    rw [hs]
    cases nextCase { m with spent := m.spent + 1 } with
    | nothing hm =>
      rw [show m.frames = [] from hm] at hr
      exact hr.elim
    | leaves _ _ _ _ hx =>
      exact hx ▸ (List.drop_suffix _ _).trans (suffix_operands_endFrame { m with spent := m.spent + 1 })
    | runs f frames op rest hm hrest hx =>
      rw [show m.frames = f :: frames from hm] at hr
      obtain ⟨hflow, -⟩ := hr
      rw [hrest] at hflow
      obtain ⟨d, hd, -⟩ := exists_flow_of_isClosed hflow
      rw [hx]
      exact suffix_operands_exec
        (m := { m with spent := m.spent + 1, frames := { f with rest } :: frames }) hd

/-- The caller and what it has on the operand stack besides the arguments of its call. -/
structure Caller.Spared (caller : Caller) (image : Image) (shapes : List (List String))
    (operands : List Value) : Prop where
  runs : ∃ own below, operands.length = own + below ∧
    Runs image shapes caller.frames (own + 1) below caller.locals.length

/-- The operands of the caller are among those that wait for the running function. -/
theorem Caller.Spared.length_le {caller : Caller} {image : Image} {shapes : List (List String)}
    {operands : List Value} (h : caller.Spared image shapes operands) {frames : List Frame}
    {calls : List CallSite} (habove : caller.Above frames calls) {own below n : Nat}
    (hr : Runs image shapes (frames ++ caller.frames) own below n) : operands.length ≤ below := by
  induction habove generalizing own below n with
  | entered kind base _ =>
    obtain ⟨own', below', hlength, hcaller⟩ := h.runs
    obtain ⟨-, -, -, hkind⟩ := hr
    rw [kind] at hkind
    obtain ⟨own'', below'', rfl, hr'⟩ := hkind
    rw [base] at hr'
    obtain ⟨ho, hb⟩ := hcaller.injective hr'
    omega
  | @block f _ _ top kind _ _ ih =>
    obtain ⟨-, -, -, hkind⟩ := hr
    cases hk : f.kind with
    | top => exact absurd hk top
    | function => exact absurd hk kind
    | branch =>
      rw [hk] at hkind
      exact ih hkind
    | loop | tick =>
      rw [hk] at hkind
      exact ih hkind.2
  | called kind _ _ ih =>
    obtain ⟨-, -, -, hkind⟩ := hr
    rw [kind] at hkind
    obtain ⟨own'', below'', rfl, hr'⟩ := hkind
    exact Nat.le_trans (ih hr') (Nat.le_add_left _ _)

/-- What a machine of a compiled program keeps inside a call. -/
structure Keeps (image : Image) (shapes : List (List String)) (operands : List Value) (m : Machine) :
    Prop where
  sound : m.Sound
  image : m.image = image
  shapes : m.shapes = shapes
  operands : operands <:+ m.operands

/-- A step inside a call leaves the operands of the caller as they are, unless it fails. -/
theorem Keeps.step {caller : Caller} {image : Image} {shapes : List (List String)}
    {operands : List Value} {m : Machine} (h : Keeps image shapes operands m)
    (hs : caller.Spared image shapes operands) (hin : Inside caller m) (hf : m.step.1.fault? = none) :
    Keeps image shapes operands m.step.1 := by
  obtain ⟨hsound, himage, hshapes⟩ := h.sound.step hf
  refine ⟨hsound, himage.trans h.image, hshapes.trans h.shapes, ?_⟩
  by_cases hp : m.phase = .running
  · obtain ⟨own, below, ho, hr⟩ := h.sound.runs hp
    obtain ⟨frames, calls, hframes, -, habove⟩ := hin.control
    have hle : operands.length ≤ below := by
      rw [hframes, h.image, h.shapes] at hr
      exact hs.length_le habove hr
    have hbelow : operands <:+ m.operands.drop own := by
      refine List.suffix_of_suffix_length_le h.operands (List.drop_suffix _ _) ?_
      rw [List.length_drop]
      omega
    exact hbelow.trans (suffix_operands_step hp hr)
  · rw [operands_step_of_not_running hp]
    exact h.operands

/-- Whatever a host does inside a call, it leaves the operands of the caller as they are, unless the
machine fails. -/
theorem Keeps.perform {caller : Caller} {image : Image} {shapes : List (List String)}
    {operands : List Value} {m : Machine} (hs : caller.Spared image shapes operands)
    (hin : Inside caller m) (h : m.fault? = none → Keeps image shapes operands m) {d : Deed}
    (hd : d ≠ .stepBatch) (hf : (m.perform d).fault? = none) :
    Keeps image shapes operands (m.perform d) := by
  have hm : m.fault? = none := fault?_of_perform hf
  obtain ⟨hsound, himage, hshapes, hoperands⟩ := h hm
  cases d with
  | startTick => exact ⟨⟨hsound.ordered, hsound.globals, hsound.stands⟩, himage, hshapes, hoperands⟩
  | step => exact (h hm).step hs hin hf
  | stepBatch => exact absurd rfl hd
  | pushResult v =>
    obtain ⟨he, hsound'⟩ := hsound.pushResult v hf
    refine ⟨hsound', ?_, ?_, ?_⟩
    · rw [Machine.perform, he]
      exact himage
    · rw [Machine.perform, he]
      exact hshapes
    · rw [Machine.perform, he]
      exact hoperands.trans (List.suffix_cons _ _)
  | touch heap log =>
    exact ⟨⟨hsound.ordered, hsound.globals, hsound.stands⟩, himage, hshapes, hoperands⟩

/-- Inside a call the operands of the caller stay, as long as the machine has not failed. -/
theorem Keeps.within {caller : Caller} {image : Image} {shapes : List (List String)}
    {operands : List Value} {m m' : Machine} (h : Keeps image shapes operands m)
    (hs : caller.Spared image shapes operands) (hin : Inside caller m)
    (hw : Within caller.frames.length m m') (hf : m'.fault? = none) : Keeps image shapes operands m' := by
  induction hw with
  | here => exact h
  | on before d single _ ih => exact Keeps.perform hs (hin.within before) ih single hf

/-- Back at the caller, its operands are all that is below the result. -/
theorem Keeps.returned {caller : Caller} {image : Image} {shapes : List (List String)}
    {operands : List Value} {m : Machine} {v : Value} {rest : List Value}
    (h : Keeps image shapes operands m) (hs : caller.Spared image shapes operands)
    (hback : Returned caller m) (ho : m.operands = v :: rest) : rest = operands := by
  obtain ⟨own, below, hlength, hcaller⟩ := hs.runs
  obtain ⟨own', below', hlength', hr⟩ := h.sound.runs hback.phase
  rw [hback.frames, hback.locals, h.image, h.shapes] at hr
  obtain ⟨rfl, rfl⟩ := hcaller.injective hr
  rw [ho, List.length_cons] at hlength'
  have hsuffix : operands <:+ rest := by
    rcases List.suffix_cons_iff.1 (ho ▸ h.operands) with he | hsuffix
    · rw [he, List.length_cons] at hlength
      omega
    · exact hsuffix
  exact (hsuffix.eq_of_length (by omega)).symm

/-- At a call, a sound machine has the arguments on top of the operands that the caller keeps. -/
theorem spared_of_call {m : Machine} {id : UInt32} {f : Frame} {frames : List Frame} {rest : List Op}
    (h : m.Sound) (hp : m.phase = .running) (hf : m.frames = f :: frames)
    (hr : f.rest = .call id :: rest) :
    ∃ function args operands, m.image.program.functions[id.toNat]? = some function ∧
      args.length = function.arity.toNat ∧ m.operands = args ++ operands ∧
      (m.callerAt f frames rest).Spared m.image m.shapes operands := by
  obtain ⟨own, below, ho, hruns⟩ := h.runs hp
  rw [hf] at hruns
  obtain ⟨hflow, hfloor, hbase, hkind⟩ := hruns
  rw [hr] at hflow
  obtain ⟨d, hd, hflow⟩ := exists_flow_of_isClosed hflow
  obtain ⟨n, hm, hd⟩ := Option.bind_eq_some_iff.1 hd
  obtain ⟨function, hfunction, rfl⟩ := Option.map_eq_some_iff.1 hm
  obtain ⟨hn, rfl⟩ := Depth.swap_eq_some hd
  have hn : function.arity.toNat ≤ own := hn
  refine ⟨function, m.operands.take function.arity.toNat, m.operands.drop function.arity.toNat,
    hfunction, ?_, (List.take_append_drop _ _).symm, own - function.arity.toNat, below, ?_, ?_⟩
  · rw [List.length_take]
    omega
  · rw [List.length_drop]
    omega
  · exact ⟨hflow, hfloor, hbase, hkind⟩

/-- What is below the arguments of a call is kept when the call is entered. -/
theorem keeps_of_call {m m' : Machine} {id : UInt32} {f : Frame} {frames : List Frame} {rest : List Op}
    {operands : List Value} (h : m.Sound) (hp : m.phase = .running) (hf : m.frames = f :: frames)
    (hr : f.rest = .call id :: rest) (hs : m.step = (m', .running)) (ho : operands <:+ m.operands) :
    Keeps m.image m.shapes operands m' := by
  obtain ⟨function, called, -, rfl⟩ := step_of_call hf hr hs
  have hsound := h.step (by rw [hs]; exact fault?_of_running hp)
  rw [hs] at hsound
  exact ⟨hsound.1, rfl, rfl, ho⟩

/-- A compiled program starts sound. -/
theorem sound_of_compile {files : List SourceFile} {features : FeatureSet}
    {builtins : List (Signature String)} {bytes : List UInt8} {limits : Limits} {m : Machine}
    (hc : compile files features builtins = .ok bytes)
    (hstorable : ∀ p, compileProgram files features builtins = .ok p → p.Storable)
    (hload : load bytes limits = .ok m) : m.Sound := by
  obtain ⟨p, hcompiled, rfl⟩ := compile_eq_ok hc
  obtain ⟨script, -, hp⟩ := compileProgram_eq_ok.1 hcompiled
  have hs := hstorable p hcompiled
  obtain ⟨shapes, hshapes⟩ := Image.exists_resolves hs.numbered
  cases (load_link hs hshapes limits).symm.trans hload
  exact sound_start (hs.counted.ordered hp) hs.numbered hshapes limits

/-- **Calls leave their callers alone.** Take any machine that was loaded from bytes, whatever its host has
done with it since, and let it make a step that calls a function. As long as the frame of the call is
there, whatever the host does, the caller's locals are below those of the call. What takes the frame away
is a step that gives back a value, from wherever in the function, or that ends the function with null.
Then frames, calls, locals and place are the caller's again, and the value is on top of the operands. In a
compiled program, what is below the value is what was below the arguments of the call. -/
theorem call_isolated {bytes : List UInt8} {limits : Limits} {m₀ m m₁ m₂ : Machine}
    (deeds : List Deed) {id : UInt32} {f : Frame} {frames : List Frame} {rest : List Op}
    (hload : load bytes limits = .ok m₀) (hm : m₀.after deeds = m) (hf : m.frames = f :: frames)
    (hr : f.rest = .call id :: rest) (hs : m.step = (m₁, .running))
    (hw : Within (frames.length + 1) m₁ m₂) :
    (∃ own, m₂.locals = own ++ m.locals) ∧
    ∀ d : Deed, d ≠ .stepBatch → (m₂.perform d).frames.length ≤ frames.length + 1 →
      d = .step ∧ (m₂.perform d).frames = { f with rest } :: frames ∧
        (m₂.perform d).calls = m.calls ∧ (m₂.perform d).locals = m.locals ∧
        (m₂.perform d).location = m.location ∧
        ∃ v operands, (m₂.perform d).operands = v :: operands ∧ m₂.Yields v operands ∧
          ∀ files features builtins, compile files features builtins = .ok bytes →
            (∀ p, compileProgram files features builtins = .ok p → p.Storable) →
            ∃ function args, m.image.program.functions[id.toNat]? = some function ∧
              args.length = function.arity.toNat ∧ m.operands = args ++ operands := by
  have hin₁ := inside_of_call hf hr hs
  have hin₂ := hin₁.within hw
  refine ⟨hin₂.locals, ?_⟩
  intro d hd hle
  obtain ⟨rfl, hback, v, operands, hv, hyields⟩ := hin₂.left hd hle
  refine ⟨rfl, hback.frames, hback.calls, hback.locals, hback.location, v, operands, hv, hyields, ?_⟩
  intro files features builtins hc hstorable
  have hp := running_of_step hs (.inl rfl)
  -- Only what the compiler made is known to balance, so this part needs where the bytes came from.
  have hsound : m.Sound := by
    have hstart : m₀.fault? = none → m₀.Sound := fun _ => sound_of_compile hc hstorable hload
    have hafter := after_induction (P := fun m => m.fault? = none → m.Sound)
      (fun _ d h => sound_perform h d) hstart deeds
    rw [hm] at hafter
    exact hafter (fault?_of_running hp)
  obtain ⟨function, args, kept, hfunction, hargs, hoperands, hspared⟩ := spared_of_call hsound hp hf hr
  refine ⟨function, args, hfunction, hargs, ?_⟩
  have hf₂ : (m₂.perform .step).fault? = none := fault?_of_running hback.phase
  -- The operands below the arguments are spared by the call, by every step inside and by the way back.
  have hkeeps₁ := keeps_of_call hsound hp hf hr hs ⟨args, hoperands.symm⟩
  have hkeeps₂ := hkeeps₁.within hspared hin₁ hw (fault?_of_perform hf₂)
  have hkeeps₃ := Keeps.perform hspared hin₂ (fun _ => hkeeps₂) hd hf₂
  rw [hkeeps₃.returned hspared hback hv]
  exact hoperands

/-- A function that is called for the right operand of a difference, and gives back its argument out of a
loop: the call at the tenth step ends with the seventeenth. -/
theorem call_isolated_nested :
    ∃ bytes m₀ m m₁ m₂, compile [⟨"a",
        "fun f(x) \x7b loop \x7b return x \x7d \x7d\nfun g(a) \x7b return a - f(a) \x7d\nvar z = g(7)"⟩] .full [] = .ok bytes ∧
      load bytes .least = .ok m₀ ∧ m₀.after (List.replicate 9 .step) = m ∧ m.step = (m₁, .running) ∧
      m₁.after (List.replicate 6 .step) = m₂ ∧ m₂.frames.length = 4 ∧
      (∃ own, m₂.locals = own ++ m.locals) ∧ (m₂.perform .step).calls = m.calls ∧
      (m₂.perform .step).locals = m.locals ∧ (m₂.perform .step).location = m.location ∧
      ∃ v operands function args, (m₂.perform .step).operands = v :: operands ∧
        m.image.program.functions[0]? = some function ∧ args.length = function.arity.toNat ∧
        m.operands = args ++ operands := by
  obtain ⟨p, hp, hsize, hshapes, hframes, hrun, hwithin, hinside, hleft⟩ : ∃ p, lowerScript .full []
      [.function ⟨1, "a"⟩ "f" ["x"] [.loop ⟨1, "a"⟩ [.giveBack ⟨1, "a"⟩ (.name ⟨1, "a"⟩ "x")]],
        .function ⟨2, "a"⟩ "g" ["a"] [.giveBack ⟨2, "a"⟩ (.binary ⟨2, "a"⟩ .sub
          (.name ⟨2, "a"⟩ "a") (.call ⟨2, "a"⟩ "f" [.name ⟨2, "a"⟩ "a"]))],
        .declare ⟨3, "a"⟩ "z" (.call ⟨3, "a"⟩ "g" [.int ⟨3, "a"⟩ 7])] = .ok p ∧
      (Image.link p).encode.length < UInt32.size ∧ (Image.link p).Resolves [] ∧
      (∃ f g rest, ((start (Image.link p) [] .least).after (List.replicate 9 .step)).frames = [f, g] ∧
        f.rest = .call 0 :: rest) ∧
      ((start (Image.link p) [] .least).after (List.replicate 9 .step)).step.2 = .running ∧
      ((List.range 7).all fun n => decide (2 <
        ((start (Image.link p) [] .least).after (List.replicate (10 + n) .step)).frames.length)) = true ∧
      ((start (Image.link p) [] .least).after (List.replicate 16 .step)).frames.length = 4 ∧
      ((start (Image.link p) [] .least).after (List.replicate 17 .step)).frames.length = 2 :=
    ⟨_, rfl, by decide +kernel, rfl, ⟨_, _, _, by cbv, rfl⟩, by cbv, by cbv, by cbv, by cbv⟩
  have hload := load_link (.of_length_encode hsize) hshapes .least
  generalize start (Image.link p) [] .least = m₀ at hframes hrun hwithin hinside hleft hload
  obtain ⟨f, g, rest, hf, hr⟩ := hframes
  have hparse : (tokenizeFiles [⟨"a",
      "fun f(x) \x7b loop \x7b return x \x7d \x7d\nfun g(a) \x7b return a - f(a) \x7d\nvar z = g(7)"⟩] >>= Parser.parse) = .ok
        [.function ⟨1, "a"⟩ "f" ["x"] [.loop ⟨1, "a"⟩ [.giveBack ⟨1, "a"⟩ (.name ⟨1, "a"⟩ "x")]],
          .function ⟨2, "a"⟩ "g" ["a"] [.giveBack ⟨2, "a"⟩ (.binary ⟨2, "a"⟩ .sub
            (.name ⟨2, "a"⟩ "a") (.call ⟨2, "a"⟩ "f" [.name ⟨2, "a"⟩ "a"]))],
          .declare ⟨3, "a"⟩ "z" (.call ⟨3, "a"⟩ "g" [.int ⟨3, "a"⟩ 7])] := by
    cbv
  have hcompiled := compileProgram_eq_ok.2 ⟨_, hparse, hp⟩
  have hc := compile_of_parse hparse hp
  have hs : (m₀.after (List.replicate 9 .step)).step =
      (m₀.after (List.replicate 10 .step), .running) := Prod.ext rfl hrun
  have hw : Within 2 (m₀.after (List.replicate 10 .step)) (m₀.after (List.replicate 16 .step)) := by
    refine within_of_steps (n := 6) ?_
    intro i hi
    have hlt := List.all_eq_true.1 hwithin i (List.mem_range.2 (Nat.lt_succ_of_le hi))
    rw [List.replicate_add, after, List.foldl_append] at hlt
    exact of_decide_eq_true hlt
  obtain ⟨hlocals, hleaves⟩ := call_isolated (List.replicate 9 .step) hload rfl hf hr hs hw
  obtain ⟨-, -, hcalls, hkept, hplace, v, operands, hv, -, hbelow⟩ :=
    hleaves .step (by rintro ⟨⟩) (Nat.le_of_eq hleft)
  obtain ⟨function, args, hfunction, hargs, hoperands⟩ := hbelow _ _ _ hc
    fun _ h => Except.ok.inj (hcompiled.symm.trans h) ▸ .of_length_encode hsize
  exact ⟨_, _, _, _, _, hc, hload, rfl, hs, rfl, hinside, hlocals, hcalls, hkept, hplace, v, operands,
    function, args, hv, hfunction, hargs, hoperands⟩

end Machine

end TickScript
