import TickScript.Proofs.Meaning.Statements

/-!
# Calls of the script's functions

A call enters the frame of the function, whose code starts by making the arguments locals: they are the
variables of the block around the function's body. However the body ends, the machine leaves the frame
and drops the variables of both blocks at once, where the script drops them one block after the other.

So calls are simulated as `Expr.sim` assumes (`invokes`). The induction is on the fuel, which a call
takes a unit of.
-/

namespace TickScript

variable {κ : Type} {w : Setting κ} {fuel : Nat} {s : Course κ} {st : Store κ} {m : Machine}
  {f g : Frame} {frames inner : List Frame} {code k : List Code} {operands below locals : List Value}

/-! ## Arguments -/

/-- Instructions that make operands locals, one after the other. -/
theorem toward_pushLocals (vs : List Value)
    (hs : s.At w st f frames (List.replicate vs.length .pushLocal ++ k) (vs ++ operands) locals) :
    s.Toward w.registry fun s' => s'.At w st f frames k operands (vs.reverse ++ locals) := by
  induction vs generalizing s locals with
  | nil => exact .here hs
  | cons v vs ih =>
    have hpush : Sim w 0 s st (pure ()) _ := sim_pushLocal hs
    refine (hpush.toward_of_ok (Action.on_pure () st)).bind ?_
    intro s' _ hs'
    rw [List.reverse_cons, List.append_assoc]
    exact ih hs'.2

/-- The arguments are the variables of a function's outer block. -/
theorem Scoped.ofParams {params : List String} {vs : List Value} (hlen : params.length = vs.length)
    (hn : params.length ≤ UInt32.size) (hk : g.kind = .function) (hbase : g.base = below.length) :
    Scoped (.ofParams params) [[], params.zip vs] g inner below where
  top := ⟨fun h => (nomatch h), fun h => (nomatch h)⟩
  names := by
    rw [Blocks.names_cons, Blocks.names_cons, List.map_fst_zip (Nat.le_of_eq hlen)]
    exact (List.append_nil _).symm
  floor := by
    unfold floorOf
    rw [List.find?_cons, hk]
    exact hbase
  numbered := hn

/-! ## Results -/

/-- The caller goes on with the result of a function as an operand. -/
theorem Machine.At.returned (hm : m.At w st f frames k operands locals) (v : Value) :
    (m.returnToCaller.push v).At w st f frames k (v :: operands) locals := by
  unfold Machine.returnToCaller
  split
  · exact { hm with operands := congrArg (v :: ·) hm.operands }
  · exact { hm with operands := congrArg (v :: ·) hm.operands }

/-- A function's frame that its body has left, with the variables of two blocks to drop. -/
theorem Machine.At.left_blocks {b b' : Bindings} {rest : List Op}
    (hm : m.At w st g inner code operands (Blocks.values [b, b'] ++ below))
    (hbase : g.base = below.length) (hr : w.image.spelled? rest = some k) :
    (m.left g ({ f with rest } :: frames)).At w
      { st with heap := (st.heap.release (b.map (·.2))).release (b'.map (·.2)) } f frames k operands
      below := by
  have hvalues : Blocks.values [b, b'] = b.map (·.2) ++ b'.map (·.2) := by
    rw [Blocks.values_cons, Blocks.values_cons]
    exact congrArg _ (List.append_nil _)
  rw [hvalues] at hm
  rw [← Heap.release_append]
  exact hm.left hbase hr

/-- The body of a function, from its first statement to the end of the call. -/
theorem sim_functionBody {invoke : Declaration → List Value → Action κ Value} (hw : w.Linked)
    (hinv : Invokes w fuel invoke) {d : Declaration} {vs : List Value}
    (hv : Scoped (.ofParams d.params) [[], d.params.zip vs] g ({ f with rest } :: frames) below)
    (hk : g.kind = .function) (hbase : g.base = below.length) (hr : w.image.spelled? rest = some k)
    (hbody : lowerStmts w.names (.ofParams d.params) d.body = .ok code)
    (hc : d.params.length + countInstrs Instr.isWork code < UInt32.size)
    (hs : s.At w st g ({ f with rest } :: frames) (bareAll code) operands
      (Blocks.values [[], d.params.zip vs] ++ below)) :
    Sim w fuel s st
      (do
        let (signal, _) ← inBlock (d.params.zip vs)
          (inBlock [] (execAll w.surroundings invoke fuel d.body)) []
        match signal with
        | .returns v => return v
        | _ => return .null)
      fun v st' s' => s'.At w st' f frames k (v :: operands) below := by
  rw [← List.append_nil (bareAll code)] at hs
  simp only [inBlock, bind_assoc]
  refine (sim_execAll hw hinv hv hbody hc hs).bind ?_
  intro result st' s' hs'
  obtain ⟨signal, env⟩ := result
  obtain ⟨hfollows, hkept⟩ := hs'
  -- Below the block of the body there is the block of the arguments, and nothing else.
  obtain ⟨b, env, rfl, hshape⟩ := hkept.cons
  obtain ⟨b', rfl⟩ := List.length_eq_one_iff.1 (Nat.succ.inj hkept.length)
  cases signal with
  | next =>
    refine .leave hfollows fun s'' m hkeeps hm hd => ?_
    obtain ⟨r, hf, -⟩ := hm.frames
    rw [Machine.endFrame_of_function hf hk] at hd
    exact .go hkeeps hd rfl ((hm.left_blocks hbase hr).returned .null) fun _ h => h
  | breaks => exact nomatch hfollows.1
    -- A loop outside of the function cannot be left from inside it.
  | continues => exact nomatch hfollows.1
  | returns v =>
    obtain ⟨-, hkeeps, m, code, hm, hd⟩ := hfollows
    obtain ⟨r, hf, -⟩ := hm.frames
    rw [Machine.giveBack_of_function hf hk hm.operands] at hd
    have hm' : ({ m with operands } : Machine).At w st' g ({ f with rest } :: frames) code operands
        (Blocks.values [b, b'] ++ below) := hm.changed rfl hm.heap
    exact .go hkeeps hd rfl ((hm'.left_blocks hbase hr).returned v) fun _ h => h

/-! ## Calls -/

/-- Calls of the script's functions are simulated, whatever fuel there is. -/
theorem invokes (hw : w.Linked) (fuel : Nat) : Invokes w fuel (invoke w.surroundings fuel) := by
  induction fuel with
  | zero =>
    intro id d vs s st f frames k operands locals _ _ _
    exact .starved
  | succ fuel ih =>
    intro id d vs s st f frames k operands locals hget hlen hs
    obtain ⟨fn, body, hfn, hname, hbody, hspelled, hcount⟩ := hw.functions id d hget
    obtain ⟨name, hname⟩ := Option.isSome_iff_exists.1 hname
    refine .run hs ?_
    intro s' m op hk hi hm hd
    cases hi
    rw [← hm.image] at hfn hname
    simp only [Machine.exec, Machine.call, hfn, hname] at hd
    by_cases hdepth : m.limits.callDepth < m.calls.length + 1
    · rw [if_pos hdepth] at hd
      exact .limit hd rfl
    · rw [if_neg hdepth] at hd
      have hm' : ({ m with calls := ⟨name, m.location⟩ :: m.calls } : Machine).At w st f frames k
          (vs.reverse ++ operands) locals := { hm with }
      refine .enter hk hm' hd hspelled ?_
      intro s'' rest hr hs''
      rw [hlen.trans (List.length_reverse.symm : vs.length = vs.reverse.length)] at hs''
      refine .toward (toward_pushLocals vs.reverse hs'') ?_
      intro s₃ hs₃
      rw [List.reverse_reverse] at hs₃
      have hvalues : Blocks.values [[], d.params.zip vs] = vs := by
        rw [Blocks.values_cons, Blocks.values_cons, List.map_snd_zip (Nat.le_of_eq hlen.symm)]
        exact List.append_nil _
      rw [← hvalues] at hs₃
      exact sim_functionBody hw ih (.ofParams hlen (by omega) rfl rfl) rfl rfl hr hbody hcount hs₃

end TickScript
