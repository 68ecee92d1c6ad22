import TickScript.Proofs.Meaning.Interpreter
import TickScript.Proofs.Program.Bare
import TickScript.Proofs.Tick.Course

/-!
# Machines that follow a script

A machine follows a running script when it has the same heap, globals and log, the values of the
script's variables are its locals, and its frame on top goes on with the code of what the script does
next (`Machine.At`). The run of a machine simulates something that the script does if it comes from one
such moment to another (`Sim`): with the result as an operand, or at the end of the run when the script
stops. When the fuel of the script is used up, the machine has made at least as many steps.

The rules below take apart what the script does, down to single instructions.
-/

namespace TickScript

variable {κ α β : Type}

/-! ## Actions on a store -/

namespace Action

/-- What an action comes to. -/
def on (x : Action κ α) (st : Store κ) : Except Halt α × Store κ := x.run.run st

/-- An action that only gives a value leaves the store alone. -/
theorem on_pure (a : α) (st : Store κ) : (pure a : Action κ α).on st = (.ok a, st) := rfl

/-- An action that only halts leaves the store alone. -/
theorem on_throw (h : Halt) (st : Store κ) : (throw h : Action κ α).on st = (.error h, st) := rfl

/-- The second of two actions runs where the first one ended well. -/
theorem on_bind (x : Action κ α) (f : α → Action κ β) (st : Store κ) :
    (x >>= f).on st =
      match x.on st with
      | (.ok a, st') => (f a).on st'
      | (.error h, st') => (.error h, st') := by
  change (match x.run.run st with
    | (a, st') => (ExceptT.bindCont f a).run st') = _
  unfold on
  rcases x.run.run st with ⟨_ | a, st'⟩ <;> rfl

theorem on_get (st : Store κ) : (get : Action κ (Store κ)).on st = (.ok st, st) := rfl

/-- A refused operation releases its operands and has no place of its own. -/
theorem on_refuse (vs : List Value) (cause : Cause) (st : Store κ) :
    (refuse vs cause : Action κ α).on st =
      (.error (.failed cause none), { st with heap := st.heap.release vs }) := rfl

/-- The result is retained before the operands are released. -/
theorem on_exchange (vs : List Value) (result : Value) (st : Store κ) :
    (exchange vs result).on st =
      (.ok result, { st with heap := (st.heap.retain result).release vs }) := rfl

theorem on_drop (vs : List Value) (st : Store κ) :
    (drop vs).on st = (.ok (), { st with heap := st.heap.release vs }) := rfl

theorem on_make (build : Heap → Value × Heap) (st : Store κ) :
    (make build).on st = (.ok (build st.heap).1, { st with heap := (build st.heap).2 }) := rfl

end Action

/-! ## What a machine shares with a script -/

/-- What stays the same while a program runs: the functions of the host, what the names of the script
stand for, the image and its shapes, and the memory that there is. -/
structure Setting (κ : Type) where
  registry : Registry κ
  names : Names
  image : Image
  shapes : List (List String)
  memory : Nat

/-- What the script refers to beyond its variables. -/
def Setting.surroundings (w : Setting κ) : Surroundings κ := ⟨w.registry, w.memory, w.names.functions⟩

/-- The values of the globals are those that the script has by name. -/
structure GlobalsAgree (names : List String) (values : List Value) (globals : String → Option Value) :
    Prop where
  length : values.length = names.length
  value : ∀ s, globals s = (names.findIdx? (fun t => t == s)).bind (values[·]?)

/-- The reports of turns that ended by waiting for the next tick. -/
def waited (past : List (List String)) : List TickReport := past.map fun lines => ⟨.yielded, lines⟩

/-- The machine has the heap, the globals and the log of the script. -/
structure Machine.Mirrors (w : Setting κ) (m : Machine) (st : Store κ) : Prop where
  image : m.image = w.image
  heap : m.heap = st.heap
  globals : GlobalsAgree w.names.globals m.globals st.globals
  log : m.log = st.log

/-- The machine mirrors the script in the frame `f` on top of others, where it goes on with some code;
these are its operands and its locals. What is left of the frame's pass is part of the machine, hence
not of `f`. -/
structure Machine.At (w : Setting κ) (m : Machine) (st : Store κ) (f : Frame) (frames : List Frame)
    (code : List Code) (operands locals : List Value) : Prop extends Machine.Mirrors w m st where
  shapes : m.shapes = w.shapes
  memory : m.limits.memory = w.memory
  phase : m.phase = .running
  frames : ∃ rest, m.frames = { f with rest } :: frames ∧ w.image.spelled? rest = some code
  operands : m.operands = operands
  locals : m.locals = locals

namespace Course

/-- The run has come as far as the script has. -/
structure Keeps (s : Course κ) (st : Store κ) : Prop where
  context : s.context = st.context
  past : s.past = waited st.past
  left : s.left = st.left
  isOver : s.isOver = false

/-- A run that goes on is as far as it was, whatever the script does to its heap and its globals. -/
theorem Keeps.goes {s : Course κ} {st : Store κ} {heap : Heap} {globals : String → Option Value}
    (h : s.Keeps st) (r : Registry κ) (m : Machine) :
    (s.follow r m.go).Keeps { st with heap, globals } :=
  ⟨h.context, h.past, h.left, h.isOver⟩

/-- The run has come as far as the script has, and its machine is at some code. -/
structure At (w : Setting κ) (s : Course κ) (st : Store κ) (f : Frame) (frames : List Frame)
    (code : List Code) (operands locals : List Value) : Prop where
  keeps : s.Keeps st
  machine : s.machine.At w st f frames code operands locals

/-- The run is over, and left what the script left. -/
structure Ended (w : Setting κ) (s : Course κ) (st : Store κ) (last : List TickReport) : Prop where
  isOver : s.isOver = true
  image : s.machine.image = w.image
  heap : s.machine.heap = st.heap
  globals : GlobalsAgree w.names.globals s.machine.globals st.globals
  context : s.context = st.context
  past : s.past = waited st.past ++ last

end Course

/-- Where a run has come when the script stops. A script that uses up its fuel leaves the machine
behind by as many steps. -/
def Halt.Stops (w : Setting κ) (fuel : Nat) (s : Course κ) (st : Store κ) (s' : Course κ) : Halt → Prop
  | .starved => s'.budget + fuel ≤ s.budget
  | .paused => s'.Ended w st []
  | .failed cause detail => ∃ f : Fault, f.cause = cause ∧ f.detail = detail ∧
      s'.Ended w st [⟨.faulted f, st.log ++ f.report⟩]

/-- The run has come to a moment that the result of the script leads to. -/
def Leads (w : Setting κ) (fuel : Nat) (s : Course κ) (post : α → Store κ → Course κ → Prop) :
    Except Halt α × Store κ → Course κ → Prop
  | (.ok a, st), s' => post a st s'
  | (.error halt, st), s' => halt.Stops w fuel s st s'

/-- The run simulates what the script does with a store. -/
def Sim (w : Setting κ) (fuel : Nat) (s : Course κ) (st : Store κ) (x : Action κ α)
    (post : α → Store κ → Course κ → Prop) : Prop :=
  s.Toward w.registry (Leads w fuel s post (x.on st))

/-- A run that leads to a result leads to what follows from it. -/
theorem Leads.imp {w : Setting κ} {fuel fuel' : Nat} {s s' t : Course κ}
    {post post' : α → Store κ → Course κ → Prop} {result : Except Halt α × Store κ}
    (h : Leads w fuel s post result s')
    (hstops : ∀ (halt : Halt) (st : Store κ), halt.Stops w fuel s st s' → halt.Stops w fuel' t st s')
    (hpost : ∀ a st, post a st s' → post' a st s') : Leads w fuel' t post' result s' := by
  obtain ⟨halt | a, st⟩ := result
  · exact hstops halt st h
  · exact hpost a st h

/-- A script stops at the same moment for a run that started earlier. -/
theorem Halt.Stops.of_reaches {w : Setting κ} {fuel : Nat} {s s' s'' : Course κ} {st : Store κ} {halt : Halt}
    (hr : s.Reaches w.registry s') (h : halt.Stops w fuel s' st s'') : halt.Stops w fuel s st s'' := by
  cases halt with
  | starved => exact Nat.le_trans h hr.budget_le
  | paused => exact h
  | failed cause detail => exact h

/-! ## Rules -/

namespace Sim

variable {w : Setting κ} {fuel : Nat} {s s' : Course κ} {st st' : Store κ} {x : Action κ α}
  {post : α → Store κ → Course κ → Prop}

/-- Where a turn is cut short nothing is promised. -/
theorem cut (h : s.CutShort w.registry) : Sim w fuel s st x post := .inl h

/-- An action that ends well is simulated by getting to its result. -/
theorem of_ok {a : α} (hx : x.on st = (.ok a, st'))
    (h : s.Toward w.registry (post a st')) : Sim w fuel s st x post := by
  unfold Sim
  rw [hx]
  exact h

/-- An action that halts is simulated by getting to a machine that stopped for the same reason. -/
theorem of_error {halt : Halt} (hx : x.on st = (.error halt, st'))
    (h : s.Toward w.registry (halt.Stops w fuel s st')) : Sim w fuel s st x post := by
  unfold Sim
  rw [hx]
  exact h

/-- A simulated action that ends well gets to its result. -/
theorem toward_of_ok {a : α} (h : Sim w fuel s st x post) (hx : x.on st = (.ok a, st')) :
    s.Toward w.registry (post a st') := by
  unfold Sim at h
  rw [hx] at h
  exact h

theorem pure {a : α} (h : post a st s) : Sim w fuel s st (pure a) post :=
  of_ok (Action.on_pure a st) (.here h)

/-- Nothing is simulated without fuel. -/
theorem starved : Sim w 0 s st (throw .starved : Action κ α) post :=
  of_error (Action.on_throw .starved st) (.here (Nat.le_refl _))

theorem mono {post' : α → Store κ → Course κ → Prop} (h : Sim w fuel s st x post)
    (himp : ∀ a st' s', post a st' s' → post' a st' s') : Sim w fuel s st x post' :=
  Course.Toward.mono h fun s' hs' => hs'.imp (fun _ _ => id) fun a st' => himp a st' s'

theorem congr {y : Action κ α} (hx : x.on st = y.on st) (h : Sim w fuel s st y post) :
    Sim w fuel s st x post := by
  unfold Sim
  rw [hx]
  exact h

/-- The machine first comes closer. -/
theorem toward {P : Course κ → Prop} (h : s.Toward w.registry P)
    (next : ∀ s', P s' → Sim w fuel s' st x post) : Sim w fuel s st x post := by
  refine Course.Toward.bind h ?_
  intro s' hr hp
  exact Course.Toward.mono (next s' hp) fun s'' hs'' =>
    hs''.imp (fun _ _ => Halt.Stops.of_reaches hr) fun _ _ => id

/-- Two actions in a row are simulated by their simulations in a row. -/
theorem bind {f : α → Action κ β} {post' : β → Store κ → Course κ → Prop}
    (h : Sim w fuel s st x post)
    (next : ∀ a st' s', post a st' s' → Sim w fuel s' st' (f a) post') :
    Sim w fuel s st (x >>= f) post' := by
  unfold Sim
  rw [Action.on_bind]
  rcases hx : x.on st with ⟨halt | a, st'⟩
  · unfold Sim at h
    rw [hx] at h
    exact h
  · exact toward (h.toward_of_ok hx) (next a st')

/-- An action that the machine has no part in. -/
theorem silent {f : α → Action κ β} {post' : β → Store κ → Course κ → Prop} {a : α}
    (hx : x.on st = (.ok a, st')) (h : Sim w fuel s st' (f a) post') :
    Sim w fuel s st (x >>= f) post' := by
  unfold Sim
  rw [Action.on_bind, hx]
  exact h

/-- A step pays for a unit of fuel. -/
theorem step {act : Machine × Status} (hd : s.Doing act)
    (h : Sim w fuel (s.follow w.registry act) st x post) : Sim w (fuel + 1) s st x post := by
  refine Course.Toward.step ?_
  rw [hd.step_eq]
  refine Course.Toward.mono h fun s' hs' => hs'.imp (fun halt st' hstops => ?_) fun _ _ => id
  cases halt with
  | starved =>
    have hb := hd.budget_lt (r := w.registry)
    have hle : s'.budget + fuel ≤ (s.follow w.registry act).budget := hstops
    change s'.budget + (fuel + 1) ≤ s.budget
    omega
  | paused => exact hstops
  | failed cause detail => exact hstops

/-- What is simulated with some fuel is simulated with less. -/
theorem less_fuel {fuel' : Nat} (hle : fuel' ≤ fuel) (h : Sim w fuel s st x post) :
    Sim w fuel' s st x post := by
  refine Course.Toward.mono h fun s' hs' => hs'.imp (fun halt st' hstops => ?_) fun _ _ => id
  cases halt with
  | starved => exact Nat.le_trans (Nat.add_le_add_left hle _) hstops
  | paused => exact hstops
  | failed cause detail => exact hstops

/-- The machine takes a step while the script does nothing. -/
theorem follow {act : Machine × Status} (hd : s.Doing act)
    (h : Sim w fuel (s.follow w.registry act) st x post) : Sim w fuel s st x post :=
  less_fuel (Nat.le_succ fuel) (step hd h)

/-- The machine fails as the script does. -/
theorem stop {m : Machine} {cause : Cause} {heap : Heap} {globals : String → Option Value}
    (hk : s.Keeps st) (hd : s.Doing (m.stop cause))
    (hx : x.on st = (.error (.failed cause none), { st with heap, globals }))
    (hm : m.Mirrors w { st with heap, globals }) : Sim w fuel s st x post := by
  refine of_error hx (.step ?_)
  rw [hd.step_eq]
  refine .here ⟨m.faultOf cause none, rfl, rfl, rfl, hm.image, hm.heap, hm.globals, hk.context, ?_⟩
  change s.past ++ [_] = _
  rw [hk.past, ← hm.log]
  rfl

/-- The machine meets a limit. -/
theorem limit {m : Machine} {cause : Cause} (hd : s.Doing (m.stop cause)) (hc : cause.isLimit) :
    Sim w fuel s st x post :=
  cut (Course.cutShort_of_ends (.faulted (m.faultOf cause none)) hd.step_eq hc)

/-- The machine goes on after an instruction that did what the script did. -/
theorem go {m : Machine} {heap : Heap} {globals : String → Option Value} {a : α}
    {f : Frame} {frames : List Frame} {code : List Code} {operands locals : List Value}
    (hk : s.Keeps st) (hd : s.Doing m.go) (hx : x.on st = (.ok a, { st with heap, globals }))
    (hm : m.At w { st with heap, globals } f frames code operands locals)
    (hp : ∀ s' : Course κ, s'.At w { st with heap, globals } f frames code operands locals →
      post a { st with heap, globals } s') : Sim w fuel s st x post := by
  refine of_ok hx (.step ?_)
  rw [hd.step_eq]
  exact .here (hp _ ⟨hk.goes w.registry m, hm⟩)

end Sim

end TickScript
