import TickScript.Program.Marks
import TickScript.Program.Lowering
import TickScript.Image
import TickScript.Proofs.Image.Size

/-!
# Flow

Instructions take operands, give operands, and make locals. What they take must be there, so code is
checked by following how many operands and locals there are before and after every instruction
(`Instr.flow`): the check has a result exactly when every operand that is taken has been given before,
every slot and number is in its table, and `break`, `continue` and `return` stand where they may.

The check is made the same way before and after linking, because it asks of a mentioned text only
whether it is there, and of a shape how many members it has. Dropping redundant places does not change
it either.
-/

namespace TickScript

variable {ν σ : Type}

/-- How many operands and locals a body has for itself. -/
structure Depth where
  operands : Nat
  locals : Nat
deriving Repr, DecidableEq

namespace Depth

/-- The depth after so many operands are taken, if they are there, and so many are given. -/
def swap (d : Depth) (taken given : Nat) : Option Depth :=
  if taken ≤ d.operands then some { d with operands := d.operands - taken + given } else none

/-- The depth with one more local. -/
def declare (d : Depth) : Depth := { d with locals := d.locals + 1 }

/-- An instruction finds the operands that stand on top. -/
theorem swap_add (d : Depth) (o taken given : Nat) (h : d.operands = o + taken) :
    d.swap taken given = some { d with operands := o + given } := by
  unfold swap
  rw [if_pos (by omega)]
  congr 2
  omega

/-- An instruction that flows found its operands. -/
theorem swap_eq_some {d d' : Depth} {taken given : Nat} (h : d.swap taken given = some d') :
    taken ≤ d.operands ∧ d' = { d with operands := d.operands - taken + given } := by
  unfold swap at h
  split at h
  · next ht => exact ⟨ht, (Option.some.inj h).symm⟩
  · cases h

/-- Whether a body ends as it must, with no operand left. -/
def isClosed : Option Depth → Bool
  | some d => d.operands = 0
  | none => false

end Depth

/-- What the code of a program may mention, and where a body stands. -/
structure Site (ν σ : Type) where
  hasText : ν → Bool
  members? : σ → Option Nat
  globals : Nat
  functionArity? : UInt32 → Option Nat
  builtinArity? : UInt32 → Option Nat
  inFunction : Bool
  inLoop : Bool

/-- The place inside a loop. -/
def Site.looped (s : Site ν σ) : Site ν σ := { s with inLoop := true }

mutual

/-- The depth after an instruction that starts at a depth, if the instruction is in order there. -/
def Instr.flow (s : Site ν σ) (d : Depth) : Instr ν σ → Option Depth
  | .line _ => some d
  | .file text => if s.hasText text then some d else none
  | .discard => d.swap 1 0
  | .pushNull => d.swap 0 1
  | .pushInt _ => d.swap 0 1
  | .pushFloat _ => d.swap 0 1
  | .pushText text => if s.hasText text then d.swap 0 1 else none
  | .makeTuple n => d.swap n.toNat 1
  | .makeObject shape => (s.members? shape).bind (d.swap · 1)
  | .makeArray n => d.swap n.toNat 1
  | .tupleMember _ => d.swap 1 1
  | .objectMember text => if s.hasText text then d.swap 1 1 else none
  | .element => d.swap 2 1
  | .loadGlobal slot => if slot.toNat < s.globals then d.swap 0 1 else none
  | .loadLocal slot => if slot.toNat < d.locals then d.swap 0 1 else none
  | .unary _ => d.swap 1 1
  | .binary _ => d.swap 2 1
  | .storeGlobal slot => if slot.toNat < s.globals then d.swap 1 0 else none
  | .pushLocal => (d.swap 1 0).map Depth.declare
  | .storeLocal slot => if slot.toNat < d.locals then d.swap 1 0 else none
  | .storeMember text => if s.hasText text then d.swap 2 0 else none
  | .storeElement => d.swap 3 0
  | .branch yes no =>
    -- A branch is a statement of its own: its condition is the only operand.
    if d.operands = 1 ∧ Depth.isClosed (flowInstrs s ⟨0, d.locals⟩ yes) ∧
        Depth.isClosed (flowInstrs s ⟨0, d.locals⟩ no) then some ⟨0, d.locals⟩ else none
  | .loop body =>
    if d.operands = 0 ∧ Depth.isClosed (flowInstrs s.looped d body) then some d else none
  | .tick body =>
    if d.operands = 0 ∧ Depth.isClosed (flowInstrs s.looped d body) then some d else none
  | .continueLoop => if s.inLoop ∧ d.operands = 0 then some d else none
  | .breakLoop => if s.inLoop ∧ d.operands = 0 then some d else none
  | .call id => (s.functionArity? id).bind (d.swap · 1)
  | .callBuiltin id => (s.builtinArity? id).bind (d.swap · 1)
  | .giveBack => if s.inFunction ∧ d.operands = 1 then some { d with operands := 0 } else none

/-- The depth after instructions that start at a depth, if they are in order there. -/
def flowInstrs (s : Site ν σ) (d : Depth) : List (Instr ν σ) → Option Depth
  | [] => some d
  | i :: is => (i.flow s d).bind fun d => flowInstrs s d is

end

/-- Code flows part by part. -/
theorem flowInstrs_append (s : Site ν σ) (d : Depth) (is js : List (Instr ν σ)) :
    flowInstrs s d (is ++ js) = (flowInstrs s d is).bind fun d => flowInstrs s d js := by
  induction is generalizing d with
  | nil => rfl
  | cons i is ih =>
    rw [List.cons_append, flowInstrs, flowInstrs, Option.bind_assoc]
    congr 1
    funext d
    exact ih d

/-- Code in two parts, of which the first is in order. -/
theorem flowInstrs_append_of {s : Site ν σ} {d d' : Depth} {is js : List (Instr ν σ)}
    (h : flowInstrs s d is = some d') : flowInstrs s d (is ++ js) = flowInstrs s d' js := by
  rw [flowInstrs_append, h, Option.bind_some]

/-- Code of one instruction flows as the instruction does. -/
theorem flowInstrs_singleton (s : Site ν σ) (d : Depth) (i : Instr ν σ) :
    flowInstrs s d [i] = i.flow s d := by
  rw [flowInstrs]
  cases i.flow s d <;> rfl

/-! ## Dropping redundant places -/

mutual

/-- Thinning marks does not change how code flows. -/
theorem Instr.flow_thin {s : Site String σ} (hs : ∀ text, s.hasText text) (m : Marks) (d : Depth)
    (i : Instr String σ) : flowInstrs s d (i.thin m).1 = i.flow s d := by
  cases i with
  | line n =>
    rw [Instr.thin]
    split <;> rfl
  | file text =>
    rw [Instr.thin, Instr.flow, if_pos (hs text)]
    split
    · rfl
    · rw [flowInstrs_singleton, Instr.flow, if_pos (hs text)]
  | branch yes no =>
    rw [Instr.thin, flowInstrs_singleton, Instr.flow, Instr.flow, flow_thinAll hs,
      flow_thinAll hs]
  | loop body | tick body =>
    rw [Instr.thin, flowInstrs_singleton, Instr.flow, Instr.flow, flow_thinAll (s := s.looped) hs]
  | _ => exact flowInstrs_singleton s d _

/-- Code without its redundant places is in order where the code is. -/
theorem flow_thinAll {s : Site String σ} (hs : ∀ text, s.hasText text) (m : Marks) (d : Depth)
    (is : List (Instr String σ)) : flowInstrs s d (thinAll m is).1 = flowInstrs s d is := by
  cases is with
  | nil => rfl
  | cons i is =>
    rw [thinAll, flowInstrs_append, Instr.flow_thin hs, flowInstrs]
    congr 1
    funext d
    exact flow_thinAll hs _ d is

end

/-! ## Linking -/

/-- Two sites that say the same of what is mentioned, where it is mentioned in two ways. -/
structure Site.Alike {ν' σ' : Type} (f : ν → Option ν') (g : σ → Option σ') (s : Site ν σ)
    (s' : Site ν' σ') : Prop where
  hasText : ∀ text text', f text = some text' → s.hasText text = s'.hasText text'
  members? : ∀ shape shape', g shape = some shape' → s.members? shape = s'.members? shape'
  globals : s.globals = s'.globals
  functionArity? : s.functionArity? = s'.functionArity?
  builtinArity? : s.builtinArity? = s'.builtinArity?
  inFunction : s.inFunction = s'.inFunction
  inLoop : s.inLoop = s'.inLoop

/-- Sites that are alike are alike inside a loop. -/
theorem Site.Alike.looped {ν' σ' : Type} {f : ν → Option ν'} {g : σ → Option σ'} {s : Site ν σ}
    {s' : Site ν' σ'} (h : s.Alike f g s') : s.looped.Alike f g s'.looped :=
  ⟨h.hasText, h.members?, h.globals, h.functionArity?, h.builtinArity?, h.inFunction, rfl⟩

section Linking

variable {ν' σ' : Type} {f : ν → Option ν'} {g : σ → Option σ'}

mutual

/-- Numbering texts and shapes does not change how code flows. -/
theorem Instr.flow_mapM {s : Site ν σ} {s' : Site ν' σ'} (hs : s.Alike f g s') (d : Depth)
    {i : Instr ν σ} {i' : Instr ν' σ'} (h : i.mapM f g = some i') : i.flow s d = i'.flow s' d := by
  cases i with
  | file text | pushText text | objectMember text | storeMember text =>
    rw [Instr.mapM] at h
    obtain ⟨text', ht, rfl⟩ := Option.map_eq_some_iff.1 h
    rw [Instr.flow, Instr.flow, hs.hasText text text' ht]
  | makeObject shape =>
    rw [Instr.mapM] at h
    obtain ⟨shape', hsh, rfl⟩ := Option.map_eq_some_iff.1 h
    rw [Instr.flow, Instr.flow, hs.members? shape shape' hsh]
  | branch yes no =>
    rw [Instr.mapM] at h
    obtain ⟨yes', hyes, h⟩ := Option.bind_eq_some_iff.1 h
    obtain ⟨no', hno, h⟩ := Option.bind_eq_some_iff.1 h
    cases h
    rw [Instr.flow, Instr.flow, flow_mapInstrsM hs _ hyes, flow_mapInstrsM hs _ hno]
  | loop body | tick body =>
    rw [Instr.mapM] at h
    obtain ⟨body', hbody, rfl⟩ := Option.map_eq_some_iff.1 h
    rw [Instr.flow, Instr.flow, flow_mapInstrsM hs.looped _ hbody]
  | _ =>
    cases h
    simp only [Instr.flow, hs.globals, hs.functionArity?, hs.builtinArity?, hs.inFunction, hs.inLoop]

/-- Code is in order after linking where it was before. -/
theorem flow_mapInstrsM {s : Site ν σ} {s' : Site ν' σ'} (hs : s.Alike f g s') (d : Depth)
    {is : List (Instr ν σ)} {is' : List (Instr ν' σ')} (h : mapInstrsM f g is = some is') :
    flowInstrs s d is = flowInstrs s' d is' := by
  cases is with
  | nil =>
    cases h
    rfl
  | cons i is =>
    rw [mapInstrsM] at h
    obtain ⟨i', hi, h⟩ := Option.bind_eq_some_iff.1 h
    obtain ⟨is', his, h⟩ := Option.bind_eq_some_iff.1 h
    cases h
    rw [flowInstrs, flowInstrs, Instr.flow_mapM hs d hi]
    congr 1
    funext d
    exact flow_mapInstrsM hs d his

end

end Linking

/-! ## Counting what is no place -/

/-- Whether an instruction does more than to say where the program stands. -/
def Instr.isWork : Instr ν σ → Bool
  | .line _ | .file _ => false
  | _ => true

mutual

/-- Thinning removes no work. -/
theorem Instr.count_thin (m : Marks) (i : Instr String σ) :
    countInstrs Instr.isWork (i.thin m).1 = i.count Instr.isWork := by
  cases i with
  | line n => rw [Instr.thin]; split <;> rfl
  | file text => rw [Instr.thin]; split <;> rfl
  | branch yes no | loop body | tick body =>
    simp only [Instr.thin, countInstrs, Instr.count, count_thinAll, Instr.isWork]
    rfl
  | _ => rfl

/-- Thinning code removes no work. -/
theorem count_thinAll (m : Marks) (is : List (Instr String σ)) :
    countInstrs Instr.isWork (thinAll m is).1 = countInstrs Instr.isWork is := by
  cases is with
  | nil => rfl
  | cons i is =>
    rw [thinAll, countInstrs_append, Instr.count_thin, countInstrs, count_thinAll]

end

section Linking

variable {ν' σ' : Type} {f : ν → Option ν'} {g : σ → Option σ'}

mutual

theorem Instr.count_mapM {i : Instr ν σ} {i' : Instr ν' σ'} (h : i.mapM f g = some i') :
    i.count Instr.isWork = i'.count Instr.isWork := by
  cases i with
  | file text | pushText text | objectMember text | storeMember text | makeObject text =>
    rw [Instr.mapM] at h
    obtain ⟨text', -, rfl⟩ := Option.map_eq_some_iff.1 h
    rfl
  | branch yes no =>
    rw [Instr.mapM] at h
    obtain ⟨yes', hyes, h⟩ := Option.bind_eq_some_iff.1 h
    obtain ⟨no', hno, h⟩ := Option.bind_eq_some_iff.1 h
    cases h
    simp only [Instr.count, count_mapInstrsM hyes, count_mapInstrsM hno, Instr.isWork]
  | loop body | tick body =>
    rw [Instr.mapM] at h
    obtain ⟨body', hbody, rfl⟩ := Option.map_eq_some_iff.1 h
    simp only [Instr.count, count_mapInstrsM hbody, Instr.isWork]
  | _ =>
    cases h
    rfl

/-- Numbering texts and shapes leaves the work as it is. -/
theorem count_mapInstrsM {is : List (Instr ν σ)} {is' : List (Instr ν' σ')}
    (h : mapInstrsM f g is = some is') :
    countInstrs Instr.isWork is = countInstrs Instr.isWork is' := by
  cases is with
  | nil =>
    cases h
    rfl
  | cons i is =>
    rw [mapInstrsM] at h
    obtain ⟨i', hi, h⟩ := Option.bind_eq_some_iff.1 h
    obtain ⟨is', his, h⟩ := Option.bind_eq_some_iff.1 h
    cases h
    rw [countInstrs, countInstrs, Instr.count_mapM hi, count_mapInstrsM his]

end

end Linking

end TickScript
