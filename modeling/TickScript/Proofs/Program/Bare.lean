import TickScript.Program.Lowering
import TickScript.Program.Marks
import TickScript.Image

/-!
# Code without places

Instructions that say where the program stands do nothing else. Code without them is what the rest of
a program's theory speaks of (`bareAll`): dropping redundant places does not change it, and the code of
a linked program spells it (`Image.spelled?`), once its texts and shapes are read from the tables.
-/

namespace TickScript

section Bare

variable {ν σ : Type}

mutual

/-- An instruction without places, inside it too. -/
def Instr.bare : Instr ν σ → List (Instr ν σ)
  | .line _ => []
  | .file _ => []
  | .branch yes no => [.branch (bareAll yes) (bareAll no)]
  | .loop body => [.loop (bareAll body)]
  | .tick body => [.tick (bareAll body)]
  | i => [i]

/-- Instructions without places. -/
def bareAll : List (Instr ν σ) → List (Instr ν σ)
  | [] => []
  | i :: is => i.bare ++ bareAll is

end

/-- Code is stripped of its marks part by part. -/
theorem bareAll_append (is js : List (Instr ν σ)) : bareAll (is ++ js) = bareAll is ++ bareAll js := by
  induction is with
  | nil => rfl
  | cons i is ih => rw [List.cons_append, bareAll, bareAll, ih, List.append_assoc]

theorem bareAll_replicate_pushLocal (n : Nat) :
    bareAll (List.replicate n (.pushLocal : Instr ν σ)) = List.replicate n .pushLocal := by
  induction n with
  | zero => rfl
  | succ n ih =>
    rw [List.replicate_succ, bareAll, ih]
    rfl

/-- Marks of a place are stripped. -/
theorem bareAll_placed (loc : Location) (code : List Code) :
    bareAll (placed loc ++ code) = bareAll code := rfl

mutual

/-- Thinning removes nothing but marks. -/
theorem Instr.bare_thin (m : Marks) (i : Instr String σ) : bareAll (i.thin m).1 = i.bare := by
  cases i with
  | line n =>
    rw [Instr.thin]
    split <;> rfl
  | file text =>
    rw [Instr.thin]
    split <;> rfl
  | branch yes no | loop body | tick body =>
    simp only [Instr.thin, bareAll, Instr.bare, bareAll_thinAll]
    rfl
  | _ => rfl

/-- Dropping redundant places changes nothing else. -/
theorem bareAll_thinAll (m : Marks) (is : List (Instr String σ)) :
    bareAll (thinAll m is).1 = bareAll is := by
  cases is with
  | nil => rfl
  | cons i is => rw [thinAll, bareAll_append, Instr.bare_thin, bareAll_thinAll, bareAll]

end

end Bare

/-! ## What linked code spells -/

namespace Image

/-- The code that linked instructions spell, without places, if the tables have what they mention. -/
def spelled? (image : Image) (ops : List Op) : Option (List Code) :=
  (mapInstrsM image.text? image.shape? ops).map bareAll

/-- A linked instruction spells an instruction that is no place. -/
inductive Spells (image : Image) : Op → Code → Prop where
  | discard : Spells image .discard .discard
  | pushNull : Spells image .pushNull .pushNull
  | pushInt (n : Int64) : Spells image (.pushInt n) (.pushInt n)
  | pushFloat (bits : UInt64) : Spells image (.pushFloat bits) (.pushFloat bits)
  | pushText {id : UInt32} {s : String} (h : image.text? id = some s) :
      Spells image (.pushText id) (.pushText s)
  | makeTuple (n : UInt32) : Spells image (.makeTuple n) (.makeTuple n)
  | makeObject {id : UInt32} {names : List String} (h : image.shape? id = some names) :
      Spells image (.makeObject id) (.makeObject names)
  | makeArray (n : UInt32) : Spells image (.makeArray n) (.makeArray n)
  | tupleMember (i : UInt32) : Spells image (.tupleMember i) (.tupleMember i)
  | objectMember {id : UInt32} {s : String} (h : image.text? id = some s) :
      Spells image (.objectMember id) (.objectMember s)
  | element : Spells image .element .element
  | loadGlobal (slot : UInt32) : Spells image (.loadGlobal slot) (.loadGlobal slot)
  | loadLocal (slot : UInt32) : Spells image (.loadLocal slot) (.loadLocal slot)
  | unary (op : UnaryOp) : Spells image (.unary op) (.unary op)
  | binary (op : BinaryOp) : Spells image (.binary op) (.binary op)
  | storeGlobal (slot : UInt32) : Spells image (.storeGlobal slot) (.storeGlobal slot)
  | pushLocal : Spells image .pushLocal .pushLocal
  | storeLocal (slot : UInt32) : Spells image (.storeLocal slot) (.storeLocal slot)
  | storeMember {id : UInt32} {s : String} (h : image.text? id = some s) :
      Spells image (.storeMember id) (.storeMember s)
  | storeElement : Spells image .storeElement .storeElement
  | branch {yes no : List Op} {yes' no' : List Code} (hyes : image.spelled? yes = some yes')
      (hno : image.spelled? no = some no') : Spells image (.branch yes no) (.branch yes' no')
  | loop {body : List Op} {body' : List Code} (h : image.spelled? body = some body') :
      Spells image (.loop body) (.loop body')
  | tick {body : List Op} {body' : List Code} (h : image.spelled? body = some body') :
      Spells image (.tick body) (.tick body')
  | continueLoop : Spells image .continueLoop .continueLoop
  | breakLoop : Spells image .breakLoop .breakLoop
  | call (id : UInt32) : Spells image (.call id) (.call id)
  | callBuiltin (id : UInt32) : Spells image (.callBuiltin id) (.callBuiltin id)
  | giveBack : Spells image .giveBack .giveBack

variable {image : Image}

/-- What the first of some linked instructions is, and what the others spell: a place spells nothing. -/
inductive Opens (image : Image) (ops : List Op) (k : List Code) : Op → Prop where
  | line (n : UInt32) (h : image.spelled? ops = some k) : Opens image ops k (.line n)
  | file {id : UInt32} {s : String} (ht : image.text? id = some s) (h : image.spelled? ops = some k) :
      Opens image ops k (.file id)
  | work {op : Op} {i : Code} {k' : List Code} (hk : k = i :: k') (hi : Spells image op i)
      (h : image.spelled? ops = some k') : Opens image ops k op

/-- Spelled code opens with what its first instruction does. -/
theorem spelled?_cons {op : Op} {ops : List Op} {k : List Code}
    (h : image.spelled? (op :: ops) = some k) : Opens image ops k op := by
  obtain ⟨code, hcode, rfl⟩ := Option.map_eq_some_iff.1 h
  rw [mapInstrsM] at hcode
  obtain ⟨i, hi, hcode⟩ := Option.bind_eq_some_iff.1 hcode
  obtain ⟨rest, hrest, hcode⟩ := Option.bind_eq_some_iff.1 hcode
  cases hcode
  have hs : image.spelled? ops = some (bareAll rest) := congrArg (Option.map bareAll) hrest
  cases op with
  | line n =>
    cases hi
    exact .line n hs
  | file id =>
    obtain ⟨s, ht, rfl⟩ := Option.map_eq_some_iff.1 hi
    exact .file ht hs
  | pushText id =>
    obtain ⟨s, ht, rfl⟩ := Option.map_eq_some_iff.1 hi
    exact .work rfl (.pushText ht) hs
  | objectMember id =>
    obtain ⟨s, ht, rfl⟩ := Option.map_eq_some_iff.1 hi
    exact .work rfl (.objectMember ht) hs
  | storeMember id =>
    obtain ⟨s, ht, rfl⟩ := Option.map_eq_some_iff.1 hi
    exact .work rfl (.storeMember ht) hs
  | makeObject id =>
    obtain ⟨names, ht, rfl⟩ := Option.map_eq_some_iff.1 hi
    exact .work rfl (.makeObject ht) hs
  | branch yes no =>
    rw [Instr.mapM] at hi
    obtain ⟨yes', hyes, hi⟩ := Option.bind_eq_some_iff.1 hi
    obtain ⟨no', hno, hi⟩ := Option.bind_eq_some_iff.1 hi
    cases hi
    exact .work rfl (.branch (congrArg (Option.map bareAll) hyes) (congrArg (Option.map bareAll) hno)) hs
  | loop body =>
    obtain ⟨body', hbody, rfl⟩ := Option.map_eq_some_iff.1 hi
    exact .work rfl (.loop (congrArg (Option.map bareAll) hbody)) hs
  | tick body =>
    obtain ⟨body', hbody, rfl⟩ := Option.map_eq_some_iff.1 hi
    exact .work rfl (.tick (congrArg (Option.map bareAll) hbody)) hs
  | _ =>
    cases hi
    exact .work rfl (by constructor) hs

end Image

end TickScript
