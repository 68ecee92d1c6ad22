import TickScript.Proofs.Builtin.Conduct
import TickScript.Proofs.Tick.Course
import TickScript.Proofs.Tick.Unfolding

/-!
# Sessions played back

A function of the host may answer by anything that it finds in the machine. Whatever it answered by, a
program sees the answer only. So a session can be played back from its answers alone, by a host that has
them on a tape (`Registry.session_replay`): the program goes the same way, and asks for the same things in
the same order.
-/

namespace TickScript

variable {κ : Type}

/-- A call of the host as the program makes it: the name of the function, the arguments, and the heap and
the log at the call. -/
structure Asked where
  name : String
  args : List Value
  heap : Heap
  log : List String

namespace HostCall

/-- What the function answered. -/
def reply (call : HostCall κ) : Reply κ := call.builtin.run call.args call.machine call.context

/-- What the program asked. -/
def asked (call : HostCall κ) : Asked :=
  ⟨call.builtin.name, call.args, call.machine.heap, call.machine.log⟩

end HostCall

/-- What a host keeps that plays answers back: those that are still ahead, and what it was asked so far. -/
structure Tape (κ : Type) where
  ahead : List (Reply κ)
  asked : List Asked

/-- A function that answers with what comes next on the tape, and with nothing at its end. -/
def Builtin.replay (b : Builtin κ) : Builtin (Tape κ) where
  name := b.name
  arity := b.arity
  cost := b.cost
  run args m tape :=
    let asked := tape.asked ++ [⟨b.name, args, m.heap, m.log⟩]
    match tape.ahead with
    | [] => m.reply (.ok .null) ⟨[], asked⟩
    | reply :: ahead => ⟨reply.result, reply.heap, reply.log, ahead, asked⟩

/-- A tape is all that such a function answers by. -/
theorem Builtin.detached_replay (b : Builtin κ) : b.replay.Detached := by
  rintro args m ⟨_ | ⟨reply, ahead⟩, asked⟩ <;> exact ⟨rfl, rfl, rfl, rfl⟩

namespace Registry

variable (r : Registry κ)

/-- The functions of a host, played back from a tape. -/
def replay : Registry (Tape κ) := ⟨r.builtins.map Builtin.replay⟩

/-- Played-back builtins have the same signatures. -/
theorem signatures_replay : r.replay.signatures = r.signatures := by
  unfold signatures replay
  rw [List.map_map]
  rfl

/-- A played-back builtin reads the tape and not the machine. -/
theorem detached_replay : ∀ b ∈ r.replay.builtins, b.Detached := by
  intro b hb
  obtain ⟨b', -, rfl⟩ := List.mem_map.1 hb
  exact b'.detached_replay

/-- An id means the played-back builtin of what it meant. -/
theorem meant?_replay (image : Image) (id : UInt32) :
    r.replay.meant? image id = (r.meant? image id).map Builtin.replay := by
  unfold meant? replay
  rw [List.getElem?_map]
  cases r.builtins[id.toNat]? with
  | none => rfl
  | some b =>
    change (if image.builtinName? id = some b.name then some b.replay else none) = _
    dsimp only
    split <;> rfl

/-! ## One answer -/

/-- A call that no function is meant by is refused without a look at the tape. -/
theorem replay_answer_of_not_meant {m : Machine} {id : UInt32} (h : r.meant? m.image id = none) (c : κ)
    (args : List Value) (tape : Tape κ) :
    r.replay.answer m tape id args = ((r.answer m c id args).1, (r.answer m c id args).2.1, tape) := by
  have hreplay : r.replay.meant? m.image id = none := by rw [meant?_replay, h, Option.map_none]
  unfold answer Service.answer
  rw [dispatch_of_not_meant h, dispatch_of_not_meant hreplay]

/-- A call that was answered comes to the same when the answer is played back. -/
theorem replay_answer_of_meant {m : Machine} {id : UInt32} {b : Builtin κ} (h : r.meant? m.image id = some b)
    (c : κ) (args : List Value) (ahead : List (Reply κ)) (asked : List Asked) :
    r.replay.answer m ⟨HostCall.reply ⟨b, args, m, c⟩ :: ahead, asked⟩ id args =
      ((r.answer m c id args).1, (r.answer m c id args).2.1,
        ⟨ahead, asked ++ [HostCall.asked ⟨b, args, m, c⟩]⟩) := by
  have hreplay : r.replay.meant? m.image id = some b.replay := by rw [meant?_replay, h, Option.map_some]
  unfold answer Service.answer
  rw [dispatch_of_meant h, dispatch_of_meant hreplay]
  rfl

/-- What a step asked of the host, the tape answers as the host did. -/
theorem replay_answer {m m' : Machine} {c c' : κ} {id : UInt32} {args : List Value} {result : Except Fault Unit}
    (h : r.answer m c id args = (result, m', c')) (ahead : List (Reply κ)) (asked : List Asked) :
    r.replay.answer m
        ⟨(r.hostCalls [⟨m, .request id args, c, m', c'⟩]).map HostCall.reply ++ ahead, asked⟩ id args =
      (result, m', ⟨ahead, asked ++ (r.hostCalls [⟨m, .request id args, c, m', c'⟩]).map HostCall.asked⟩) := by
  unfold hostCalls
  rw [List.filterMap_cons]
  cases hb : r.meant? m.image id with
  | none =>
    have hcall : r.hostCall? ⟨m, .request id args, c, m', c'⟩ = none := by
      simp only [hostCall?, hb, Option.map_none]
    simp only [hcall, List.filterMap_nil, List.map_nil, List.nil_append, List.append_nil]
    rw [r.replay_answer_of_not_meant hb c, h]
  | some b =>
    have hcall : r.hostCall? ⟨m, .request id args, c, m', c'⟩ = some ⟨b, args, m, c⟩ := by
      simp only [hostCall?, hb, Option.map_some]
    simp only [hcall, List.filterMap_nil, List.map_cons, List.map_nil, List.cons_append, List.nil_append]
    rw [r.replay_answer_of_meant hb c, h]

/-! ## A turn -/

/-- The calls of some steps are those of the first and those of the others. -/
theorem hostCalls_cons (e : Executed κ) (steps : List (Executed κ)) :
    r.hostCalls (e :: steps) = r.hostCalls [e] ++ r.hostCalls steps :=
  List.filterMap_append (l := [e])

/-- A step that is the last of a turn without a call asks for nothing. -/
theorem hostCalls_of_outcome {status : Status} {outcome : Outcome} (h : status.outcome? = some outcome)
    (m m' : Machine) (c c' : κ) : r.hostCalls [⟨m, status, c, m', c'⟩] = [] := by
  cases status with
  | running | request => exact nomatch h
  | yielded | budgetSpent | complete | fault => rfl

end Registry

/-- A turn goes the same way when what the host answered in it is played back. -/
theorem Unfolds.replay {r : Registry κ} {m m' : Machine} {c c' : κ} {steps : List (Executed κ)}
    {outcome : Outcome} (h : Unfolds r.answer m c steps outcome m' c') (ahead : List (Reply κ))
    (asked : List Asked) :
    ∃ steps', Unfolds r.replay.answer m ⟨(r.hostCalls steps).map HostCall.reply ++ ahead, asked⟩ steps'
      outcome m' ⟨ahead, asked ++ (r.hostCalls steps).map HostCall.asked⟩ := by
  induction h generalizing asked with
  | goes step _ ih =>
    obtain ⟨steps', hrest⟩ := ih asked
    exact ⟨_, .goes step hrest⟩
  | @answered m m₁ m₂ _ c c₂ _ id args u steps _ step reply _ ih =>
    let asks := r.hostCalls [⟨m₁, .request id args, c, m₂, c₂⟩]
    obtain ⟨steps', hrest⟩ := ih (asked ++ asks.map HostCall.asked)
    have hreply := r.replay_answer reply ((r.hostCalls steps).map HostCall.reply ++ ahead) asked
    rw [r.hostCalls_cons, List.map_append, List.map_append, List.append_assoc, ← List.append_assoc asked]
    exact ⟨_, .answered step hreply hrest⟩
  | refused step reply => exact ⟨_, .refused step (r.replay_answer reply ahead asked)⟩
  | @ends m m' c status outcome step last =>
    rw [r.hostCalls_of_outcome last, List.map_nil, List.map_nil, List.nil_append, List.append_nil]
    exact ⟨_, .ends step last⟩

namespace Registry

variable (r : Registry κ)

/-- Driving with the answers on tape does what the recorded drive did, and uses them up. -/
theorem drive_replay (m : Machine) (c : κ) (ahead : List (Reply κ)) (asked : List Asked) :
    r.replay.drive m ⟨(r.hostCalls (r.steps m c)).map HostCall.reply ++ ahead, asked⟩ =
      ((r.drive m c).1, (r.drive m c).2.1,
        ⟨ahead, asked ++ (r.hostCalls (r.steps m c)).map HostCall.asked⟩) := by
  obtain ⟨steps', hreplay⟩ := (r.unfolds_drive m c).replay ahead asked
  obtain ⟨-, ho, hm, hc⟩ := (r.replay.unfolds_drive _ _).unique hreplay
  exact Prod.ext ho (Prod.ext hm hc)

/-- A turn with the answers on tape does what the recorded turn did, and uses them up. -/
theorem runTick_replay (m : Machine) (c : κ) (ahead : List (Reply κ)) (asked : List Asked) :
    r.replay.runTick m ⟨(r.hostCalls (r.steps m.startTick c)).map HostCall.reply ++ ahead, asked⟩ =
      ((r.runTick m c).1, (r.runTick m c).2.1,
        ⟨ahead, asked ++ (r.hostCalls (r.steps m.startTick c)).map HostCall.asked⟩) := by
  rw [runTick_eq, runTick_eq, drive_replay]

/-! ## A session -/

/-- What is asked of the host in a session. -/
def sessionCalls : Nat → Machine → κ → List (HostCall κ)
  | 0, _, _ => []
  | n + 1, m, c =>
    let (report, m', c') := r.runTick m c
    r.hostCalls (r.steps m.startTick c) ++
      if report.outcome.isRunning then sessionCalls n m' c' else []

/-- **A session can be played back.** From the answers of the host alone the program goes the same way, uses
them all up and asks for the same. -/
theorem session_replay (n : Nat) (m : Machine) (c : κ) (ahead : List (Reply κ)) (asked : List Asked) :
    r.replay.session n m ⟨(r.sessionCalls n m c).map HostCall.reply ++ ahead, asked⟩ =
      ((r.session n m c).1, (r.session n m c).2.1,
        ⟨ahead, asked ++ (r.sessionCalls n m c).map HostCall.asked⟩) := by
  induction n generalizing m c asked with
  | zero => exact congrArg (fun asked => ([], m, (⟨ahead, asked⟩ : Tape κ))) (List.append_nil asked).symm
  | succ n ih =>
    rw [session, session, sessionCalls, List.map_append, List.append_assoc, runTick_replay]
    dsimp only
    split
    · rw [List.map_append, ih, List.append_assoc]
    · rw [List.map_nil, List.nil_append, List.append_nil]

end Registry

end TickScript
