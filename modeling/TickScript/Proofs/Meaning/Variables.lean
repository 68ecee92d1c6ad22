import TickScript.Proofs.Meaning.Instructions
import TickScript.Proofs.Program.Resolution

/-!
# Names and slots

A script finds a variable by its name, block by block; its program finds it by a slot, which counts
from the top of one stack of locals. They find the same variable, because the stack holds the variables
of the blocks one after the other, the innermost first (`seen?_eq`, `assigned?_eq_some`), and so do the
names by which slots are given out.
-/

namespace TickScript

/-! ## Variables of blocks -/

namespace Blocks

/-- The names of the variables, the latest first. -/
def names (env : Blocks) : List String := env.flatten.map (·.1)

/-- The values of the variables, the latest first. -/
def values (env : Blocks) : List Value := env.flatten.map (·.2)

/-- The names of the variables, block by block. -/
def shape (env : Blocks) : List (List String) := env.map fun b => b.map (·.1)

theorem names_cons (b : Bindings) (env : Blocks) : names (b :: env) = b.map (·.1) ++ names env := by
  rw [names, List.flatten_cons, List.map_append]
  rfl

theorem values_cons (b : Bindings) (env : Blocks) : values (b :: env) = b.map (·.2) ++ values env := by
  rw [values, List.flatten_cons, List.map_append]
  rfl

/-- The names in scope are those of the blocks, one block after the other. -/
theorem names_eq_flatten_shape (env : Blocks) : names env = (shape env).flatten := List.map_flatten

theorem length_values (env : Blocks) : (values env).length = (names env).length := by
  rw [values, names, List.length_map, List.length_map]

end Blocks

/-- A variable has the value at the place of its name. -/
theorem lookup?_eq (s : String) (b : Bindings) :
    lookup? s b = ((b.map (·.1)).findIdx? (fun t => t == s)).bind ((b.map (·.2))[·]?) := by
  induction b with
  | nil => rfl
  | cons x b ih =>
    rw [List.map_cons, List.map_cons, List.findIdx?_cons, lookup?]
    by_cases h : x.1 == s
    · rw [if_pos h, if_pos h]
      rfl
    · rw [if_neg h, if_neg h, ih, Option.bind_map]
      rfl

/-- A variable is looked up in the first bindings, and then in the others. -/
theorem lookup?_append (s : String) (b b' : Bindings) :
    lookup? s (b ++ b') = (lookup? s b).or (lookup? s b') := by
  induction b with
  | nil => rfl
  | cons x b ih =>
    rw [List.cons_append, lookup?, lookup?, ih]
    split <;> rfl

/-- The variable that a name stands for is the one in the slot of the name. -/
theorem seen?_eq (s : String) (env : Blocks) :
    seen? s env = (env.names.findIdx? (fun t => t == s)).bind (env.values[·]?) := by
  have h : seen? s env = lookup? s env.flatten := by
    induction env with
    | nil => rfl
    | cons b env ih =>
      rw [seen?, List.flatten_cons, lookup?_append, ih]
      cases lookup? s b <;> rfl
  rw [h, lookup?_eq]
  rfl

/-- A variable that cannot be updated has no name in the block. -/
theorem update?_eq_none {s : String} {v : Value} {b : Bindings} (h : update? s v b = none) :
    (b.map (·.1)).findIdx? (fun t => t == s) = none := by
  induction b with
  | nil => rfl
  | cons x b ih =>
    rw [update?] at h
    split at h
    · cases h
    · next hx =>
      rw [List.map_cons, List.findIdx?_cons, if_neg hx, ih (Option.map_eq_none_iff.1 h)]
      rfl

/-- Updating replaces the value at the place of the name and leaves the names as they are. -/
theorem update?_eq_some {s : String} {v old : Value} {b b' : Bindings}
    (h : update? s v b = some (old, b')) :
    ∃ i, (b.map (·.1)).findIdx? (fun t => t == s) = some i ∧ (b.map (·.2))[i]? = some old ∧
      b'.map (·.2) = (b.map (·.2)).set i v ∧ b'.map (·.1) = b.map (·.1) := by
  induction b generalizing b' with
  | nil => exact nomatch h
  | cons x b ih =>
    rw [update?] at h
    split at h
    · next hx =>
      cases h
      exact ⟨0, by rw [List.map_cons, List.findIdx?_cons, if_pos hx], rfl, rfl, rfl⟩
    · next hx =>
      obtain ⟨⟨found, b''⟩, hu, he⟩ := Option.map_eq_some_iff.1 h
      cases he
      obtain ⟨i, hi, hold, hvalues, hnames⟩ := ih hu
      refine ⟨i + 1, ?_, hold, ?_, ?_⟩
      · rw [List.map_cons, List.findIdx?_cons, if_neg hx, hi]
        rfl
      · rw [List.map_cons, List.map_cons, hvalues]
        rfl
      · rw [List.map_cons, List.map_cons, hnames]

/-- A variable that cannot be assigned has no name in any block. -/
theorem assigned?_eq_none {s : String} {v : Value} {env : Blocks} (h : assigned? s v env = none) :
    env.names.findIdx? (fun t => t == s) = none := by
  induction env with
  | nil => rfl
  | cons b env ih =>
    rw [assigned?] at h
    split at h
    · cases h
    · next hu =>
      have hnone := ih (Option.map_eq_none_iff.1 h)
      rw [Blocks.names_cons, List.findIdx?_append, update?_eq_none hu, hnone]
      rfl

/-- Assigning to a name changes the value in the slot of the name, and no name. -/
theorem assigned?_eq_some {s : String} {v old : Value} {env env' : Blocks}
    (h : assigned? s v env = some (old, env')) :
    ∃ i, env.names.findIdx? (fun t => t == s) = some i ∧ env.values[i]? = some old ∧
      env'.values = env.values.set i v ∧ env'.shape = env.shape := by
  induction env generalizing env' with
  | nil => exact nomatch h
  | cons b env ih =>
    rw [assigned?] at h
    split at h
    · next old' b' hu =>
      cases h
      obtain ⟨i, hi, hold, hvalues, hnames⟩ := update?_eq_some hu
      have hlt : i < (b.map (·.2)).length := (List.getElem?_eq_some_iff.1 hold).1
      refine ⟨i, ?_, ?_, ?_, ?_⟩
      · rw [Blocks.names_cons, List.findIdx?_append, hi]
        rfl
      · rw [Blocks.values_cons, List.getElem?_append_left hlt, hold]
      · rw [Blocks.values_cons, Blocks.values_cons, hvalues, List.set_append_left _ _ hlt]
      · exact congrArg (· :: Blocks.shape env) hnames
    · next hu =>
      obtain ⟨⟨old', env''⟩, ha, he⟩ := Option.map_eq_some_iff.1 h
      cases he
      obtain ⟨i, hi, hold, hvalues, hshape⟩ := ih ha
      have hlen : (b.map (·.1)).length = (b.map (·.2)).length := by
        rw [List.length_map, List.length_map]
      refine ⟨i + (b.map (·.1)).length, ?_, ?_, ?_, ?_⟩
      · rw [Blocks.names_cons, List.findIdx?_append, update?_eq_none hu, hi]
        rfl
      · rw [Blocks.values_cons, hlen, List.getElem?_append_right (by omega), Nat.add_sub_cancel, hold]
      · rw [Blocks.values_cons, Blocks.values_cons, hlen, List.set_append_right _ _ (by omega),
          Nat.add_sub_cancel, hvalues]
      · exact congrArg (b.map (·.1) :: ·) hshape

/-! ## Globals -/

namespace GlobalsAgree

variable {names : List String} {values : List Value} {globals : String → Option Value}

/-- The values of the globals when one of them changes. -/
theorem set (h : GlobalsAgree names values globals) {s : String} {i : Nat} {v : Value}
    (hi : names.findIdx? (fun t => t == s) = some i) :
    GlobalsAgree names (values.set i v) fun t => if t == s then some v else globals t := by
  have hlt : i < values.length := h.length ▸ (List.findIdx?_eq_some_iff_findIdx_eq.1 hi).1
  refine ⟨by rw [List.length_set, h.length], fun t => ?_⟩
  by_cases ht : t == s
  · rw [if_pos ht, LawfulBEq.eq_of_beq ht, hi]
    exact (List.getElem?_set_self hlt).symm
  · rw [if_neg ht, h.value t]
    cases hj : names.findIdx? (fun u => u == t) with
    | none => rfl
    | some j =>
      -- Another name has another slot.
      have hne : i ≠ j := by
        rintro rfl
        obtain ⟨_, hs, -⟩ := List.findIdx?_eq_some_iff_getElem.1 hi
        obtain ⟨_, ht', -⟩ := List.findIdx?_eq_some_iff_getElem.1 hj
        have hs := LawfulBEq.eq_of_beq hs
        have ht' := LawfulBEq.eq_of_beq ht'
        exact ht (beq_iff_eq.2 (ht'.symm.trans hs))
      exact (List.getElem?_set_ne hne).symm

end GlobalsAgree

/-! ## Instructions -/

/-- How many locals belong to functions that wait for a call to return. -/
def floorOf (frames : List Frame) : Nat :=
  match frames.find? (fun f => f.kind = .function) with
  | some f => f.base
  | none => 0

/-- The blocks around a place have the variables that its scope lists, and the locals below them belong
to functions that wait. There are no blocks around the top of the script only. -/
structure Scoped (scope : Scope) (env : Blocks) (f : Frame) (frames : List Frame) (below : List Value) :
    Prop where
  top : scope.atTop = true ↔ env = []
  names : scope.locals = env.names
  floor : floorOf (f :: frames) = below.length
  numbered : scope.locals.length ≤ UInt32.size

/-- How many locals belong to the callers is told by the frames. -/
theorem callerLocals_eq {κ : Type} {w : Setting κ} {m : Machine} {st : Store κ} {f : Frame}
    {frames : List Frame} {code : List Code} {operands locals : List Value}
    (hm : m.At w st f frames code operands locals) : m.callerLocals = floorOf (f :: frames) := by
  obtain ⟨rest, hf, -⟩ := hm.frames
  unfold Machine.callerLocals floorOf
  rw [hf, List.find?_cons, List.find?_cons]
  dsimp only
  cases decide (f.kind = .function) <;> rfl

section Instructions

variable {κ : Type} {w : Setting κ} {fuel : Nat} {s : Course κ} {st : Store κ} {f : Frame}
  {frames : List Frame} {k : List Code} {operands below locals : List Value} {scope : Scope}
  {env : Blocks}

/-- The slot of a variable of the blocks around a place. -/
theorem Scoped.slot (h : Scoped scope env f frames below) {t : String} {slot : UInt32}
    (hs : Names.slot? scope.locals t = some slot) :
    env.names.findIdx? (fun u => u == t) = some slot.toNat ∧ slot.toNat < env.values.length := by
  obtain ⟨i, rfl, hlt, hi⟩ := Names.slot?_eq_some hs
  rw [UInt32.toNat_ofNat_of_lt' (Nat.lt_of_lt_of_le hlt h.numbered)]
  rw [h.names] at hi hlt
  rw [Blocks.length_values]
  exact ⟨hi, hlt⟩

/-- A variable that the compiler gives no slot is in no block of the interpreter. -/
theorem Scoped.no_slot (h : Scoped scope env f frames below) {t : String}
    (hs : Names.slot? scope.locals t = none) : env.names.findIdx? (fun u => u == t) = none := by
  rw [← h.names]
  exact Option.map_eq_none_iff.1 hs

/-- The running function owns the variables of the blocks around a place. -/
theorem Scoped.owns (h : Scoped scope env f frames below) {m : Machine} {code : List Code}
    (hm : m.At w st f frames code operands (env.values ++ below)) {i : Nat}
    (hi : i < env.values.length) : m.ownsLocal i = true := by
  unfold Machine.ownsLocal
  rw [callerLocals_eq hm, h.floor, hm.locals, List.length_append]
  exact decide_eq_true (by omega)

/-- The slot of a global is the place of its name in the table. -/
theorem slot_global {table : List String} (hn : table.length ≤ UInt32.size) {t : String} {slot : UInt32}
    (hs : Names.slot? table t = some slot) :
    table.findIdx? (fun u => u == t) = some slot.toNat := by
  obtain ⟨i, rfl, hlt, hi⟩ := Names.slot?_eq_some hs
  rw [UInt32.toNat_ofNat_of_lt' (Nat.lt_of_lt_of_le hlt hn)]
  exact hi

/-- A global that has a slot has its value there. -/
theorem GlobalsAgree.value_slot {names : List String} {values : List Value}
    {globals : String → Option Value} (h : GlobalsAgree names values globals)
    (hn : names.length ≤ UInt32.size) {t : String} {slot : UInt32} (hs : Names.slot? names t = some slot) :
    ∃ v, values[slot.toNat]? = some v ∧ globals t = some v := by
  have hlt : slot.toNat < values.length := h.length ▸ Names.slot?_lt hs
  have hvalue := h.value t
  rw [slot_global hn hs, Option.bind_some, List.getElem?_eq_getElem hlt] at hvalue
  exact ⟨_, List.getElem?_eq_getElem hlt, hvalue⟩

/-- Reading a variable gets the value that the interpreter finds. -/
theorem sim_load {t : String} {i : Code} (hv : Scoped scope env f frames below)
    (hn : w.names.globals.length ≤ UInt32.size) (hl : w.names.load? scope t = some i)
    (hs : s.At w st f frames (i :: k) operands (env.values ++ below)) :
    Sim w fuel s st (Action.load env t) fun v st' s' =>
      s'.At w st' f frames k (v :: operands) (env.values ++ below) := by
  refine .run hs ?_
  intro s' m op hk hi hm hd
  unfold Names.load? at hl
  split at hl
  · next _ _ slot hslot =>
    cases hl
    cases hi
    obtain ⟨hidx, hlt⟩ := hv.slot hslot
    have hget : m.locals[slot.toNat]? = some env.values[slot.toNat] := by
      rw [hm.locals, List.getElem?_append_left hlt, List.getElem?_eq_getElem hlt]
    have hx : (Action.load env t).on st = (.ok env.values[slot.toNat],
        { st with heap := st.heap.retain env.values[slot.toNat] }) := by
      have hseen : seen? t env = some env.values[slot.toNat] := by
        rw [seen?_eq, hidx, Option.bind_some, List.getElem?_eq_getElem hlt]
      simp only [Action.load, Action.on_bind, Action.on_get, hseen, Option.some_or]
      rfl
    simp only [Machine.exec, Machine.loadLocal, hget, hv.owns hm hlt, if_true] at hd
    exact .go hk hd hx (hm.changed (by rw [hm.operands]) (by rw [hm.heap])) fun _ h => h
  · next _ _ slot hnone hslot =>
    cases hl
    cases hi
    obtain ⟨v, hget, hvalue⟩ := hm.globals.value_slot hn hslot
    have hx : (Action.load env t).on st = (.ok v, { st with heap := st.heap.retain v }) := by
      have hseen : seen? t env = none := by
        rw [seen?_eq, hv.no_slot hnone]
        rfl
      simp only [Action.load, Action.on_bind, Action.on_get, hseen, hvalue, Option.none_or]
      rfl
    simp only [Machine.exec, Machine.loadGlobal, hget] at hd
    exact .go hk hd hx (hm.changed (by rw [hm.operands]) (by rw [hm.heap])) fun _ h => h
  · cases hl

/-- Storing a global stores what the interpreter stores. -/
theorem sim_storeGlobal {t : String} {slot : UInt32} {v : Value} (hn : w.names.globals.length ≤ UInt32.size)
    (hslot : Names.slot? w.names.globals t = some slot)
    (hs : s.At w st f frames (.storeGlobal slot :: k) (v :: operands) locals) :
    Sim w fuel s st (Action.storeGlobal t v) fun _ st' s' => s'.At w st' f frames k operands locals := by
  refine .run hs ?_
  intro s' m op hk hi hm hd
  cases hi
  obtain ⟨old, hget, hvalue⟩ := hm.globals.value_slot hn hslot
  have hx : (Action.storeGlobal t v).on st = (.ok (), { st with
      heap := st.heap.release [old]
      globals := fun u => if u == t then some v else st.globals u }) := by
    simp only [Action.storeGlobal, Action.on_bind, Action.on_get, hvalue]
    rfl
  simp only [Machine.exec, Machine.storeGlobal, hm.operands, hget] at hd
  refine .go hk hd hx ?_ fun _ h => h
  exact { hm with
    heap := by rw [Machine.dropped, hm.heap]
    globals := hm.globals.set (slot_global hn hslot)
    operands := rfl }

/-- Storing a variable stores where the interpreter does, and declares nothing. -/
theorem sim_store {t : String} {i : Code} {v : Value} (hv : Scoped scope env f frames below)
    (hn : w.names.globals.length ≤ UInt32.size) (hl : w.names.store? scope t = some i)
    (hs : s.At w st f frames (i :: k) (v :: operands) (env.values ++ below)) :
    Sim w fuel s st (Action.store env t v) fun env' st' s' =>
      s'.At w st' f frames k operands (env'.values ++ below) ∧ env'.shape = env.shape := by
  unfold Names.store? at hl
  split at hl
  · next _ _ slot hslot =>
    cases hl
    refine .run hs ?_
    intro s' m op hk hi hm hd
    cases hi
    -- Both sides find the innermost variable of that name, the interpreter by looking and the code by its
    -- slot.
    obtain ⟨hidx, hlt⟩ := hv.slot hslot
    have hget : m.locals[slot.toNat]? = some env.values[slot.toNat] := by
      rw [hm.locals, List.getElem?_append_left hlt, List.getElem?_eq_getElem hlt]
    unfold Action.store
    cases ha : assigned? t v env with
    | none => cases hidx.symm.trans (assigned?_eq_none ha)
    | some found =>
      obtain ⟨old, env'⟩ := found
      obtain ⟨j, hj, hold, hvalues, hshape⟩ := assigned?_eq_some ha
      cases hidx.symm.trans hj
      rw [List.getElem?_eq_getElem hlt] at hold
      cases hold
      simp only [Machine.exec, Machine.storeLocal, hm.operands, hget, hv.owns hm hlt, if_true] at hd
      have hlocals : m.locals.set slot.toNat v = env'.values ++ below := by
        rw [hm.locals, hvalues, List.set_append_left _ _ hlt]
      refine .go hk hd rfl ?_ fun _ h => ⟨hlocals ▸ h, hshape⟩
      exact { hm with
        heap := by rw [Machine.dropped, hm.heap]
        operands := rfl
        locals := rfl }
  · next _ _ slot hnone hslot =>
    cases hl
    unfold Action.store
    cases ha : assigned? t v env with
    | some found =>
      obtain ⟨j, hj, -⟩ := assigned?_eq_some ha
      cases hj.symm.trans (hv.no_slot hnone)
    | none =>
      refine (sim_storeGlobal hn hslot hs).bind ?_
      intro _ st' s' hs'
      exact .pure ⟨hs', rfl⟩
  · cases hl

end Instructions

end TickScript
