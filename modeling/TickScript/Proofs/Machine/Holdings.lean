import TickScript.Machine.Cases
import TickScript.Proofs.Heap.Handling
import TickScript.Proofs.Value.Operators

/-!
# What a machine holds

A machine holds the references on its stacks and in its globals, and its host those it was given with a
call. Every instruction moves references, copies them or gives them back, and none gets lost, so the books
of a machine and its host stay exact whatever code the machine runs (`Machine.reckons_step`).
-/

namespace TickScript

/-- The references that a machine hands over to its host. -/
def Status.args : Status → List Value
  | .request _ args => args
  | _ => []

namespace Machine

open Books

/-- The books of a machine, when its host holds some references too. -/
def books (m : Machine) (ws : List Value) : Books :=
  ⟨m.heap, m.operands ++ (m.locals ++ (m.globals ++ ws))⟩

/-- What an instruction came to keeps the books exact. -/
def Settles (ws : List Value) (m : Machine) (result : Machine × Status) : Prop :=
  Reckons (m.books ws) (result.1.books (result.2.args ++ ws))

variable {m m' : Machine} {ws : List Value}

/-- A step after which the machine goes on settles what it reckons with. -/
theorem settles_go (h : Reckons (m.books ws) (m'.books ws)) : Settles ws m m'.go := h

/-- So does a step that fails. -/
theorem settles_stop (h : Reckons (m.books ws) (m'.books ws)) (cause : Cause) :
    Settles ws m (m'.stop cause) := h

/-- It does not matter to the books who holds a reference. -/
theorem perm_books (m : Machine) (vs ws : List Value) :
    (vs ++ (m.books ws).roots).Perm (m.books (vs ++ ws)).roots := by
  have hp := List.perm_append_comm_assoc vs (m.operands ++ (m.locals ++ m.globals)) ws
  simpa only [books, List.append_assoc] using hp

/-! ## Operands -/

/-- A value without a cell may be pushed as it is. -/
theorem reckons_push {v : Value} (hv : v.cell? = none) : Reckons (m.books ws) ((m.push v).books ws) :=
  .of_move (.plain hv)

/-- A copy that is pushed counts for one more reference. -/
theorem reckons_pushCopy {v : Value} (hv : v ∈ (m.books ws).roots) :
    Reckons (m.books ws) ((m.pushCopy v).books ws) :=
  .of_move (.copy (List.mem_append_left _ hv))

/-- Giving up some of the operands. -/
theorem reckons_dropped (vs : List Value) {rest : List Value} (hp : m.operands.Perm (vs ++ rest)) :
    Reckons (m.books ws) ((m.dropped rest vs).books ws) := by
  refine .trans (.perm (hp.append_right _)) ?_
  rw [List.append_assoc]
  exact reckons_release _ vs _

/-- A value in the place of those on top that it was made of. -/
theorem reckons_replace {v : Value} (vs : List Value) {rest : List Value} (ho : m.operands.Perm (vs ++ rest))
    (hv : (m.books ws).Exact → v.cell? = none ∨ v ∈ (m.books ws).all) :
    Reckons (m.books ws)
      ({ m with operands := v :: rest, heap := (m.heap.retain v).release vs }.books ws) := by
  intro hx
  have hcopy : Reckons (m.books ws) ⟨m.heap.retain v, v :: (m.books ws).roots⟩ := by
    rcases hv hx with hnone | hmem
    · have hsame : m.heap.retain v = m.heap := by
        unfold Heap.retain
        rw [hnone]
      rw [hsame]
      exact .of_move (.plain hnone)
    · exact .of_move (.copy hmem)
  have hperm : (v :: (m.books ws).roots).Perm (vs ++ (v :: rest ++ (m.locals ++ (m.globals ++ ws)))) := by
    refine ((ho.append_right _).cons v).trans ?_
    rw [List.append_assoc]
    exact List.perm_middle.symm
  exact (hcopy.trans (.trans (.perm hperm) (reckons_release _ vs _))) hx

/-- Taking operands divides them. -/
theorem perm_of_takeOperands {n : Nat} {operands args rest : List Value}
    (h : takeOperands n operands = some (args, rest)) : operands.Perm (args ++ rest) := by
  unfold takeOperands at h
  split at h
  · cases h
    calc operands.Perm (operands.take n ++ operands.drop n) := .of_eq (List.take_append_drop n operands).symm
      _ |>.Perm ((operands.take n).reverse ++ operands.drop n) :=
        (List.reverse_perm _).symm.append_right _
  · cases h

/-! ## Frames -/

/-- Locals that are dropped give their references back. -/
theorem reckons_truncate (m : Machine) (base : Nat) :
    Reckons (m.books ws) ((m.truncate base).books ws) := by
  have hp : (m.books ws).roots.Perm (m.locals.take (m.locals.length - base) ++ (m.operands ++
      (m.locals.drop (m.locals.length - base) ++ (m.globals ++ ws)))) := by
    unfold books
    nth_rewrite 1 [← List.take_append_drop (m.locals.length - base) m.locals]
    rw [List.append_assoc]
    exact List.perm_append_comm_assoc _ _ _
  exact .trans (.perm hp) (reckons_release _ _ _)

/-- Calls and places are on no account. -/
theorem books_returnToCaller (m : Machine) : m.returnToCaller.books ws = m.books ws := by
  unfold returnToCaller
  split <;> rfl

/-- A frame that ends drops its locals. -/
theorem reckons_endFrame (m : Machine) : Settles ws m m.endFrame := by
  unfold endFrame
  split
  · exact .refl _
  · next f frames _ =>
    have htruncate : Reckons (m.books ws) ((m.truncate f.base).books ws) := reckons_truncate m f.base
    split
    · exact .refl _
    · exact htruncate
    · exact htruncate
    · exact htruncate
    · refine htruncate.trans (.trans (.of_eq ?_) (reckons_push rfl))
      exact (books_returnToCaller { m.truncate f.base with frames }).symm

/-- So do branches that are left. -/
theorem reckons_leaveBranches (m : Machine) (frames : List Frame) :
    Reckons (m.books ws) ((m.leaveBranches frames).books ws) := by
  induction frames generalizing m with
  | nil => exact .refl _
  | cons f frames ih =>
    rw [leaveBranches]
    split
    · exact (reckons_truncate m f.base).trans (ih _)
    · exact .refl _

/-- So does a function that is left. -/
theorem reckons_leaveFunction (m : Machine) (frames : List Frame) :
    Reckons (m.books ws) ((m.leaveFunction frames).1.books ws) := by
  induction frames generalizing m with
  | nil => exact .refl _
  | cons f frames ih =>
    rw [leaveFunction]
    split
    · exact reckons_truncate m f.base
    · exact reckons_truncate m f.base
    · exact (reckons_truncate m f.base).trans (ih _)

/-- So does a pass of a loop that is over. -/
theorem reckons_continueLoop (m : Machine) : Settles ws m m.continueLoop := by
  have hleft : Reckons (m.books ws) ((m.leaveBranches m.frames).books ws) :=
    reckons_leaveBranches m m.frames
  unfold continueLoop
  dsimp only
  split
  · exact hleft.trans (reckons_endFrame _)
  · exact hleft

/-- So does a loop that is left. -/
theorem reckons_breakLoop (m : Machine) : Settles ws m m.breakLoop := by
  have hleft : Reckons (m.books ws) ((m.leaveBranches m.frames).books ws) :=
    reckons_leaveBranches m m.frames
  unfold breakLoop
  dsimp only
  split
  · next f frames _ =>
    split
    · exact hleft.trans (reckons_truncate _ f.base)
    · exact hleft
  · exact hleft

/-- The value that is given back stays an operand, and the locals are dropped. -/
theorem reckons_giveBack (m : Machine) : Settles ws m m.giveBack := by
  unfold giveBack
  split
  · exact .refl _
  · next v rest hm =>
    -- The value is held apart while the frames are left.
    have hapart : Reckons (m.books ws) (({ m with operands := rest } : Machine).books (v :: ws)) := by
      have hp := perm_books { m with operands := rest } [v] ws
      refine .perm ?_
      rw [hm]
      exact hp
    have hback (m' : Machine) : Reckons (m'.books (v :: ws)) ((m'.push v).books ws) :=
      .perm (perm_books m' [v] ws).symm
    have hleft := hapart.trans (reckons_leaveFunction { m with operands := rest } m.frames)
    split
    · next m' hl =>
      rw [hl] at hleft
      exact hleft.trans (.trans (.of_eq (books_returnToCaller m').symm) (hback _))
    · next m' hl =>
      rw [hl] at hleft
      exact hleft.trans ((hback m').trans (reckons_dropped (m := m'.push v) [v] (.refl _)))

/-- The arguments go over to the host. -/
theorem reckons_callBuiltin (m : Machine) (id : UInt32) : Settles ws m (m.callBuiltin id) := by
  unfold callBuiltin
  split
  · exact .refl _
  · split
    · exact .refl _
    · next args rest ht =>
      refine .perm (((perm_of_takeOperands ht).append_right _).trans ?_)
      rw [List.append_assoc]
      exact perm_books { m with operands := rest } args ws

/-! ## Values -/

/-- The items go over to the new tuple. -/
theorem reckons_makeTuple (m : Machine) (n : Nat) : Settles ws m (m.makeTuple n) := by
  unfold makeTuple
  split
  · exact .refl _
  · next items rest ht =>
    have hmade : Reckons (m.books ws)
        (({ m with operands := (m.heap.tuple items).1 :: rest, heap := (m.heap.tuple items).2 } :
          Machine).books ws) := by
      refine .trans (.perm ((perm_of_takeOperands ht).append_right _)) ?_
      rw [List.append_assoc]
      exact reckons_tuple m.heap items _
    dsimp only
    split
    · exact hmade.trans (reckons_release _ [_] _)
    · exact hmade

/-- The values go over to the new object. -/
theorem reckons_makeObject (m : Machine) (shape : UInt32) : Settles ws m (m.makeObject shape) := by
  unfold makeObject
  split
  · exact .refl _
  · next names _ =>
    split
    · exact .refl _
    · next values rest ht =>
      refine .trans (.perm ((perm_of_takeOperands ht).append_right _)) ?_
      rw [List.append_assoc]
      exact reckons_object m.heap names values _

/-- The items go over to the new array. -/
theorem reckons_makeArray (m : Machine) (n : Nat) : Settles ws m (m.makeArray n) := by
  unfold makeArray
  split
  · exact .refl _
  · split
    · exact .refl _
    · next items rest ht =>
      refine .trans (.perm ((perm_of_takeOperands ht).append_right _)) ?_
      rw [List.append_assoc]
      exact reckons_array m.heap items _

/-- A part in the place of the operand on top. -/
theorem reckons_replaceTop {v part : Value} {rest : List Value} (hm : m.operands = v :: rest)
    (hp : (m.books ws).Exact → part.cell? = none ∨ part ∈ (m.books ws).all) :
    Reckons (m.books ws) ((m.replaceTop v rest part).books ws) :=
  reckons_replace [v] (.of_eq hm) hp

/-- An instruction that fails drops the operands that it took. -/
theorem settles_refuse (vs : List Value) {rest : List Value} (hm : m.operands.Perm (vs ++ rest)) (cause : Cause) :
    Settles ws m ((m.dropped rest vs).stop cause) :=
  settles_stop (reckons_dropped vs hm) cause

/-- The part is copied before the tuple is dropped. -/
theorem reckons_tupleMember (m : Machine) (i : Nat) : Settles ws m (m.tupleMember i) := by
  unfold tupleMember
  split
  · exact .refl _
  · next v rest hm =>
    split
    · next r flat items =>
      split
      · next part hpart =>
        refine settles_go (reckons_replaceTop hm ?_)
        intro hx
        have hmem : .tuple r flat items ∈ (m.books ws).all := by
          refine List.mem_append_left _ (List.mem_append_left _ ?_)
          rw [hm]
          exact List.mem_cons_self
        exact .inr (List.mem_append_right _ (hx.mem_held_of_tuple hmem (List.mem_of_getElem? hpart)))
      · exact settles_refuse [_] (.of_eq hm) _
    · exact settles_refuse [_] (.of_eq hm) _

/-- The member is copied before the object is dropped. -/
theorem reckons_objectMember (m : Machine) (id : UInt32) : Settles ws m (m.objectMember id) := by
  unfold objectMember
  split
  · exact .refl _
  · split
    · exact .refl _
    · next v rest hm =>
      split
      · split
        · next part hpart =>
          refine settles_go (reckons_replaceTop hm ?_)
          exact fun _ => .inr (List.mem_append_right _ (mem_held_of_member? hpart))
        · exact settles_refuse [_] (.of_eq hm) _
      · exact settles_refuse [_] (.of_eq hm) _

/-- An index is in no cell, so it can go without giving anything back. -/
theorem reckons_element (m : Machine) : Settles ws m m.element := by
  unfold element
  split
  · exact .refl _
  · next i below hm =>
    have hindex : Reckons (m.books ws) (({ m with operands := below } : Machine).books ws) := by
      unfold books
      rw [hm]
      exact .of_move (.forget rfl)
    split
    · refine hindex.trans ?_
      exact reckons_dropped (m := { m with operands := [] }) [] (.refl _)
    · next v rest =>
      split
      · next r =>
        split
        · next part hpart =>
          obtain ⟨k, -, hk⟩ := Option.bind_eq_some_iff.1 hpart
          refine hindex.trans (reckons_replaceTop (m := { m with operands := .array r :: rest }) rfl ?_)
          exact fun _ => .inr (List.mem_append_right _ (mem_held_of_items (List.mem_of_getElem? hk)))
        · exact hindex.trans (reckons_dropped (m := { m with operands := .array r :: rest }) [.array r] (.refl _))
      · exact hindex.trans (reckons_dropped (m := { m with operands := v :: rest }) [v] (.refl _))
  · exact settles_refuse [_] (.of_eq (by assumption)) _

/-- The operand is dropped for the result. -/
theorem reckons_unary (m : Machine) (op : UnaryOp) : Settles ws m (m.unary op) := by
  unfold unary
  split
  · exact .refl _
  · next v rest hm =>
    split
    · next result hr =>
      have hnone := Value.cell?_of_isNumber (UnaryOp.isNumber_apply hr)
      exact settles_go (reckons_replaceTop hm fun _ => .inl hnone)
    · exact settles_refuse [_] (.of_eq hm) _

/-- The operands are dropped for the result, which may be a copy of one. -/
theorem reckons_binary (m : Machine) (op : BinaryOp) : Settles ws m (m.binary op) := by
  unfold binary
  split
  · exact .refl _
  · next v hm => exact settles_refuse [_] (.of_eq hm) _
  · next right left rest hm =>
    have hp : m.operands.Perm ([left, right] ++ rest) := by
      rw [hm]
      exact .swap _ _ _
    split
    · next result hr =>
      refine settles_go (reckons_replace _ hp ?_)
      intro _
      rcases BinaryOp.isNumber_or_eq hr with hnumber | rfl | rfl
      · exact .inl (Value.cell?_of_isNumber hnumber)
      · right
        exact List.mem_append_left _ (List.mem_append_left _ (hp.mem_iff.2 (by simp)))
      · right
        exact List.mem_append_left _ (List.mem_append_left _ (hp.mem_iff.2 (by simp)))
    · exact settles_refuse _ hp _

/-! ## Variables -/

/-- The value of a global is copied. -/
theorem reckons_loadGlobal (m : Machine) (slot : Nat) : Settles ws m (m.loadGlobal slot) := by
  unfold loadGlobal
  split
  · next v hv =>
    refine settles_go (reckons_pushCopy ?_)
    have hmem := List.mem_of_getElem? hv
    simp [books, hmem]
  · exact .refl _

/-- The value of a local is copied. -/
theorem reckons_loadLocal (m : Machine) (slot : Nat) : Settles ws m (m.loadLocal slot) := by
  unfold loadLocal
  split
  · next v hv =>
    split
    · refine settles_go (reckons_pushCopy ?_)
      have hmem := List.mem_of_getElem? hv
      simp [books, hmem]
    · exact .refl _
  · exact .refl _

/-- A value that is stored takes the place of the one before. -/
theorem perm_store {vs : List Value} {i : Nat} {old : Value} (h : vs[i]? = some old) (v : Value)
    (before after : List Value) :
    (v :: (before ++ (vs ++ after))).Perm (old :: (before ++ (vs.set i v ++ after))) :=
  calc (v :: (before ++ (vs ++ after))).Perm (before ++ ((v :: vs) ++ after)) := List.perm_middle.symm
    _ |>.Perm (before ++ ((old :: vs.set i v) ++ after)) :=
      ((Body.Changes.perm_set h v).append_right after).append_left before
    _ |>.Perm (old :: (before ++ (vs.set i v ++ after))) := List.perm_middle

/-- The operand goes over to the global, and the old value is dropped. -/
theorem reckons_storeGlobal (m : Machine) (slot : Nat) : Settles ws m (m.storeGlobal slot) := by
  unfold storeGlobal
  split
  · exact .refl _
  · next v rest hm =>
    split
    · next old hold =>
      have hp := perm_store hold v (rest ++ m.locals) ws
      simp only [List.append_assoc] at hp
      refine .trans (.perm ?_) (reckons_release m.heap [old] _)
      rw [hm]
      exact hp
    · exact settles_refuse [_] (.of_eq hm) _

/-- The operand becomes a local. -/
theorem reckons_pushLocal (m : Machine) : Settles ws m m.pushLocal := by
  unfold pushLocal
  split
  · exact .refl _
  · next v rest hm =>
    refine .perm ?_
    rw [hm]
    exact List.perm_middle.symm

/-- The operand goes over to the local, and the old value is dropped. -/
theorem reckons_storeLocal (m : Machine) (slot : Nat) : Settles ws m (m.storeLocal slot) := by
  unfold storeLocal
  split
  · exact .refl _
  · next v rest hm =>
    split
    · next old hold =>
      split
      · refine .trans (.perm ?_) (reckons_release m.heap [old] _)
        rw [hm]
        exact perm_store hold v rest (m.globals ++ ws)
      · exact settles_refuse [_] (.of_eq hm) _
    · exact settles_refuse [_] (.of_eq hm) _

/-- The operand goes over to the object, which is dropped with the old value. -/
theorem reckons_storeMember (m : Machine) (id : UInt32) : Settles ws m (m.storeMember id) := by
  unfold storeMember
  split
  · exact .refl _
  · next v below hm =>
    split
    · exact settles_refuse [_] (.of_eq hm) _
    · split
      · exact settles_refuse [_] (.of_eq hm) _
      · next target rest =>
        split
        · next r =>
          split
          · next heap hset =>
            have hstored := reckons_setMember? hset
              (.object r :: rest ++ (m.locals ++ (m.globals ++ ws)))
            refine .trans (.of_eq ?_) (hstored.trans (reckons_release heap [_] _))
            unfold books
            rw [hm]
            rfl
          · exact settles_refuse [_, _] (.of_eq hm) _
        · exact settles_refuse [_, _] (.of_eq hm) _

/-- The operand goes over to the array, which is dropped with the old value. -/
theorem reckons_storeElement (m : Machine) : Settles ws m m.storeElement := by
  unfold storeElement
  split
  · exact .refl _
  · next v hm => exact settles_refuse [_] (.of_eq hm) _
  · next v i below hm =>
    have hindex : Reckons (m.books ws) (({ m with operands := v :: below } : Machine).books ws) := by
      refine .trans (.perm ?_) (.of_move (.forget (v := .int i) rfl))
      rw [hm]
      exact .swap _ _ _
    split
    · exact hindex.trans (reckons_dropped (m := { m with operands := [v] }) [v] (.refl _))
    · next target rest =>
      split
      · next r =>
        split
        · next heap hset =>
          obtain ⟨k, -, hk⟩ := Option.bind_eq_some_iff.1 hset
          exact hindex.trans ((reckons_setItem? hk _).trans (reckons_release heap [.array r] _))
        · exact hindex.trans
            (reckons_dropped (m := { m with operands := v :: .array r :: rest }) [v, .array r]
              (.refl _))
      · exact hindex.trans
          (reckons_dropped (m := { m with operands := v :: target :: rest }) [v, target] (.refl _))
  · exact settles_refuse [_, _] (.of_eq (by assumption)) _

/-! ## Steps -/

/-- The condition is dropped. -/
theorem reckons_branch (m : Machine) (yes no : List Op) : Settles ws m (m.branch yes no) := by
  unfold branch
  split
  · exact .refl _
  · next v rest hm =>
    have hdropped : Reckons (m.books ws) ((m.dropped rest [v]).books ws) := reckons_dropped [v] (.of_eq hm)
    dsimp only
    generalize (if v.isTruthy then yes else no) = body
    split
    · exact hdropped
    · exact hdropped

/-- Every instruction reckons with what it takes and makes. -/
theorem reckons_exec (m : Machine) (op : Op) : Settles ws m (m.exec op) := by
  -- Each instruction moves values between the places that hold them, or drops or makes them.
  cases op with
  | line _ | loop _ | tick _ => exact .refl _
  | file id =>
    simp only [exec]
    split <;> exact .refl _
  | discard =>
    simp only [exec]
    split
    · exact .refl _
    · next v rest hm => exact settles_go (reckons_dropped [v] (.of_eq hm))
  | pushNull | pushInt _ | pushFloat _ => exact reckons_push rfl
  | pushText id =>
    simp only [exec]
    split
    · exact reckons_push rfl
    · exact .refl _
  | makeTuple n => exact reckons_makeTuple m n.toNat
  | makeObject shape => exact reckons_makeObject m shape
  | makeArray n => exact reckons_makeArray m n.toNat
  | tupleMember i => exact reckons_tupleMember m i.toNat
  | objectMember id => exact reckons_objectMember m id
  | element => exact reckons_element m
  | loadGlobal slot => exact reckons_loadGlobal m slot.toNat
  | loadLocal slot => exact reckons_loadLocal m slot.toNat
  | unary op => exact reckons_unary m op
  | binary op => exact reckons_binary m op
  | storeGlobal slot => exact reckons_storeGlobal m slot.toNat
  | pushLocal => exact reckons_pushLocal m
  | storeLocal slot => exact reckons_storeLocal m slot.toNat
  | storeMember id => exact reckons_storeMember m id
  | storeElement => exact reckons_storeElement m
  | branch yes no => exact reckons_branch m yes no
  | continueLoop => exact reckons_continueLoop m
  | breakLoop => exact reckons_breakLoop m
  | call id =>
    simp only [exec, call]
    repeat' split
    all_goals exact .refl _
  | callBuiltin id => exact reckons_callBuiltin m id
  | giveBack => exact reckons_giveBack m

/-- So does whatever runs next. -/
theorem reckons_execNext (m : Machine) : Settles ws m m.execNext := by
  cases m.nextCase with
  | nothing _ hx => exact hx ▸ .refl _
  | leaves _ _ _ _ hx => exact hx ▸ reckons_endFrame m
  | runs f frames op rest _ _ hx => exact hx ▸ reckons_exec { m with frames := { f with rest } :: frames } op

/-- **A step keeps the books exact**, whatever code the machine runs. -/
theorem reckons_step (m : Machine) : Settles ws m m.step := by
  cases m.stepCase with
  | complete _ hs | faulted _ _ hs | unanswered _ hs | unpaid _ _ hs | overfull _ _ _ hs =>
    exact hs ▸ .refl _
  | made _ _ _ hs => exact hs ▸ reckons_execNext { m with spent := m.spent + 1 }

/-- A result goes over from the host to the machine. -/
theorem reckons_pushResult (m : Machine) (v : Value) :
    Reckons (m.books (v :: ws)) ((m.pushResult v).2.books ws) := by
  have hback : Reckons (m.books (v :: ws)) ((m.push v).books ws) := .perm (perm_books m [v] ws).symm
  obtain ⟨-, h⟩ | ⟨-, h⟩ := m.pushResult_cases v <;> rw [h]
  · exact hback
  · exact hback.trans (reckons_dropped (m := m.push v) [v] (.refl _))

end Machine

end TickScript
