import TickScript.Program.Lowering
import TickScript.Proofs.Program.Flow

/-!
# What instructions were made for

Each instruction that is no place was made for a part of the script (`Origin`), in the order of
`Expr.origins` and `Stmt.origins`. Every statement and expression says where it stands before its operands
say where they stand, so the instruction that makes an expression's own value is run at the place of its
last operand (`Expr.ends`).

Code is `Located` where what is known of the place, carried from instruction to instruction, is the place
that the origin of each instruction asks for. A linked program is located where the program it was linked
from is.
-/

namespace TickScript

/-! ## The places of a script -/

mutual

/-- Whether a condition holds of every place in an expression. -/
def Expr.everywhere (p : Location → Bool) : Expr → Bool
  | .name loc _ => p loc
  | .null loc => p loc
  | .int loc _ => p loc
  | .float loc _ => p loc
  | .text loc _ => p loc
  | .tuple loc items => p loc && everywhereIn p items
  | .object loc members => p loc && everywhereInMembers p members
  | .array loc items => p loc && everywhereIn p items
  | .call loc _ args => p loc && everywhereIn p args
  | .tupleMember loc base _ => p loc && base.everywhere p
  | .objectMember loc base _ => p loc && base.everywhere p
  | .element loc base index => p loc && base.everywhere p && index.everywhere p
  | .unary loc _ operand => p loc && operand.everywhere p
  | .binary loc _ left right => p loc && left.everywhere p && right.everywhere p

/-- Whether a condition holds of every place in several expressions. -/
def everywhereIn (p : Location → Bool) : List Expr → Bool
  | [] => true
  | e :: es => e.everywhere p && everywhereIn p es

/-- Whether a condition holds of every place in an object's members. -/
def everywhereInMembers (p : Location → Bool) : List (String × Expr) → Bool
  | [] => true
  | (_, e) :: ms => e.everywhere p && everywhereInMembers p ms

end

mutual

/-- Whether a condition holds of every place in a statement. -/
def Stmt.everywhere (p : Location → Bool) : Stmt → Bool
  | .assign loc target value => p loc && target.everywhere p && value.everywhere p
  | .branch loc cond yes no =>
    p loc && cond.everywhere p && everywhereInStmts p yes && everywhereInStmts p no
  | .loop loc body => p loc && everywhereInStmts p body
  | .tick loc body => p loc && everywhereInStmts p body
  | .whileLoop loc cond body => p loc && cond.everywhere p && everywhereInStmts p body
  | .continueLoop loc => p loc
  | .breakLoop loc => p loc
  | .giveBack loc value => p loc && value.everywhere p
  | .declare loc _ value => p loc && value.everywhere p
  | .function loc _ _ body => p loc && everywhereInStmts p body
  | .expr loc value => p loc && value.everywhere p

/-- Whether a condition holds of every place in several statements. -/
def everywhereInStmts (p : Location → Bool) : List Stmt → Bool
  | [] => true
  | s :: ss => s.everywhere p && everywhereInStmts p ss

end

/-- Whether a statement has bodies that do not run in the order in which they are written. -/
def Stmt.isBlock : Stmt → Bool
  | .branch _ _ _ _ | .loop _ _ | .tick _ _ | .whileLoop _ _ _ => true
  | _ => false

/-- Whether a statement that has bodies ends in the file it started in. -/
def Stmt.keepsFile (s : Stmt) : Bool :=
  !s.isBlock || s.everywhere fun loc => loc.file == s.location.file

/-- Whether no branch and no loop of a statement of the script's top leaves its file. A function may
leave its file between the statements of its body. -/
def Stmt.staysInFiles : Stmt → Bool
  | .function _ _ _ body => body.all Stmt.keepsFile
  | s => s.keepsFile

mutual

/-- The place of the last operand that an expression has, and its own if it has none. -/
def Expr.ends : Expr → Location
  | .name loc _ => loc
  | .null loc => loc
  | .int loc _ => loc
  | .float loc _ => loc
  | .text loc _ => loc
  | .tuple loc items => endsOf loc items
  | .object loc members => endsOfMembers loc members
  | .array loc items => endsOf loc items
  | .call loc _ args => endsOf loc args
  | .tupleMember _ base _ => base.ends
  | .objectMember _ base _ => base.ends
  | .element _ _ index => index.ends
  | .unary _ _ operand => operand.ends
  | .binary _ _ _ right => right.ends

/-- Where the last of several expressions ends, and the given place if there are none. -/
def endsOf (loc : Location) : List Expr → Location
  | [] => loc
  | e :: es => endsOf e.ends es

/-- Where the last of an object's members ends, and the given place if there are none. -/
def endsOfMembers (loc : Location) : List (String × Expr) → Location
  | [] => loc
  | (_, e) :: ms => endsOfMembers e.ends ms

end

section Everywhere

variable {p : Location → Bool}

/-- What holds everywhere in an expression holds at its place. -/
theorem Expr.everywhere_location {e : Expr} (h : e.everywhere p) : p e.location := by
  cases e <;> simp_all [Expr.everywhere, Expr.location]

/-- What holds everywhere in a statement holds at its place. -/
theorem Stmt.everywhere_location {s : Stmt} (h : s.everywhere p) : p s.location := by
  cases s <;> simp_all [Stmt.everywhere, Stmt.location]

mutual

/-- What holds everywhere in an expression holds where it ends. -/
theorem Expr.everywhere_ends {e : Expr} (h : e.everywhere p) : p e.ends := by
  cases e with
  | name loc _ | null loc | int loc _ | float loc _ | text loc _ => exact h
  | tuple loc items | array loc items | call loc _ items =>
    simp only [Expr.everywhere, Bool.and_eq_true] at h
    exact everywhereIn_ends h.1 h.2
  | object loc members =>
    simp only [Expr.everywhere, Bool.and_eq_true] at h
    exact everywhereInMembers_ends h.1 h.2
  | tupleMember loc base _ | objectMember loc base _ | unary loc _ base =>
    simp only [Expr.everywhere, Bool.and_eq_true] at h
    exact base.everywhere_ends h.2
  | element loc _ last | binary loc _ _ last =>
    simp only [Expr.everywhere, Bool.and_eq_true] at h
    exact last.everywhere_ends h.2

/-- What holds everywhere holds at the place where the last of the expressions leaves off. -/
theorem everywhereIn_ends {loc : Location} {es : List Expr} (hl : p loc) (h : everywhereIn p es) :
    p (endsOf loc es) := by
  cases es with
  | nil => exact hl
  | cons e es =>
    simp only [everywhereIn, Bool.and_eq_true] at h
    rw [endsOf]
    exact everywhereIn_ends (e.everywhere_ends h.1) h.2

/-- What holds everywhere holds at the place where the last of the members leaves off. -/
theorem everywhereInMembers_ends {loc : Location} {ms : List (String × Expr)} (hl : p loc)
    (h : everywhereInMembers p ms) : p (endsOfMembers loc ms) := by
  match ms with
  | [] => exact hl
  | (_, e) :: ms =>
    simp only [everywhereInMembers, Bool.and_eq_true] at h
    rw [endsOfMembers]
    exact everywhereInMembers_ends (e.everywhere_ends h.1) h.2

end

/-- An expression that stands in one place ends there. -/
theorem Expr.ends_eq_location {e : Expr} (h : e.everywhere (· == e.location)) :
    e.ends = e.location :=
  LawfulBEq.eq_of_beq (e.everywhere_ends h)

end Everywhere

/-! ## What instructions were made for -/

/-- What an instruction that is no place was made for. -/
inductive Origin where
  /-- It makes the value of an expression from those of its operands. -/
  | node (e : Expr)
  /-- It stores a value for the assignment or declaration at a place. -/
  | store (loc : Location) (value : Expr)
  /-- It enters one of two bodies. -/
  | branch (yes no : List Origin)
  /-- It enters the body of a loop. -/
  | loop (body : List Origin)
  /-- It serves no node of its own. -/
  | work

namespace Origin

/-- The place of the node that an instruction was made for. -/
def source? : Origin → Option Location
  | .node e => some e.location
  | .store loc _ => some loc
  | _ => none

/-- The place that is shown when an instruction runs. -/
def place? : Origin → Option Location
  | .node e => some e.ends
  | .store _ value => some value.ends
  | _ => none

end Origin

mutual

/-- The origins of the instructions that push the value of an expression. -/
def Expr.origins : Expr → List Origin
  | .name loc s => [.node (.name loc s)]
  | .null loc => [.node (.null loc)]
  | .int loc n => [.node (.int loc n)]
  | .float loc x => [.node (.float loc x)]
  | .text loc s => [.node (.text loc s)]
  | .tuple loc items => originsOf items ++ [.node (.tuple loc items)]
  | .object loc members => originsOfMembers members ++ [.node (.object loc members)]
  | .array loc items => originsOf items ++ [.node (.array loc items)]
  | .call loc callee args => originsOf args ++ [.node (.call loc callee args)]
  | .tupleMember loc base index => base.origins ++ [.node (.tupleMember loc base index)]
  | .objectMember loc base member => base.origins ++ [.node (.objectMember loc base member)]
  | .element loc base index => base.origins ++ index.origins ++ [.node (.element loc base index)]
  | .unary loc op operand => operand.origins ++ [.node (.unary loc op operand)]
  | .binary loc op left right => left.origins ++ right.origins ++ [.node (.binary loc op left right)]

/-- The origins of the instructions that push the values of several expressions. -/
def originsOf : List Expr → List Origin
  | [] => []
  | e :: es => e.origins ++ originsOf es

/-- The origins of the instructions that push the values of an object's members. -/
def originsOfMembers : List (String × Expr) → List Origin
  | [] => []
  | (_, e) :: ms => e.origins ++ originsOfMembers ms

end

/-- The origins of the instructions that push the parts of an assignment's target. -/
def Expr.targetOrigins : Expr → List Origin
  | .objectMember _ base _ => base.origins
  | .element _ base index => base.origins ++ index.origins
  | _ => []

mutual

/-- The origins of the instructions of a statement. -/
def Stmt.origins : Stmt → List Origin
  | .assign loc target value => target.targetOrigins ++ value.origins ++ [.store loc value]
  | .branch _ cond yes no => cond.origins ++ [.branch (originsOfStmts yes) (originsOfStmts no)]
  | .loop _ body => [.loop (originsOfStmts body)]
  | .tick _ body => [.loop (originsOfStmts body)]
  | .whileLoop _ cond body =>
    [.loop (cond.origins ++ [.work, .branch [.work] []] ++ originsOfStmts body)]
  | .continueLoop _ => [.work]
  | .breakLoop _ => [.work]
  | .giveBack _ value => value.origins ++ [.work]
  | .declare loc _ value => value.origins ++ [.store loc value]
  | .function _ _ _ _ => []
  | .expr _ value => value.origins ++ [.work]

/-- The origins of the instructions of a block. -/
def originsOfStmts : List Stmt → List Origin
  | [] => []
  | s :: ss => s.origins ++ originsOfStmts ss

end

/-! ## Code whose places are those of its origins -/

namespace Marks

/-- What is known of the place where the machine stands. -/
structure Knows (k : Marks) (here : Location) : Prop where
  line : ∀ n, k.line = some n → here.line = n
  file : ∀ s, k.file = some s → here.file = s

/-- Everything about a place. -/
def of (p : Location) : Marks := ⟨some p.line, some p.file⟩

/-- The marks without the file, unless files count. -/
def seen (filed : Bool) (k : Marks) : Marks := { k with file := if filed then k.file else .none }

/-- The line of a place is known, and its file if files count. -/
structure Tell (k : Marks) (filed : Bool) (p : Location) : Prop where
  line : k.line = some p.line
  file : filed = true → k.file = some p.file

/-- Fresh marks of a place tell the place. -/
theorem tell_of (filed : Bool) (p : Location) : ((Marks.of p).seen filed).Tell filed p :=
  ⟨rfl, fun h => if_pos h⟩

end Marks

variable {ν σ : Type}

/-- Whether an instruction is no place, enters no body and calls nothing. -/
def Instr.isPlain : Instr ν σ → Bool
  | .line _ | .file _ | .branch _ _ | .loop _ | .tick _ | .call _ | .callBuiltin _ => false
  | _ => true

/-- What an instruction that is no place may be made for. An operator is one of the script, or the one that
turns the condition of a loop around; a new local is that of a declaration, or an argument. -/
def Instr.IsFor (o : Origin) : Instr ν σ → Prop
  | .line _ | .file _ => False
  | .discard | .continueLoop | .breakLoop | .giveBack => o = .work
  | .pushNull => ∃ loc, o = .node (.null loc)
  | .pushInt n => ∃ loc, o = .node (.int loc n)
  | .pushFloat bits => ∃ loc x, o = .node (.float loc x) ∧ bits = x.toBits
  | .pushText _ => ∃ loc s, o = .node (.text loc s)
  | .makeTuple n => ∃ loc items, o = .node (.tuple loc items) ∧ n = UInt32.ofNat items.length
  | .makeObject _ => ∃ loc members, o = .node (.object loc members)
  | .makeArray n => ∃ loc items, o = .node (.array loc items) ∧ n = UInt32.ofNat items.length
  | .tupleMember i => ∃ loc base, o = .node (.tupleMember loc base i)
  | .objectMember _ => ∃ loc base member, o = .node (.objectMember loc base member)
  | .element => ∃ loc base index, o = .node (.element loc base index)
  | .loadGlobal _ | .loadLocal _ => ∃ loc s, o = .node (.name loc s)
  | .unary op => (∃ loc operand, o = .node (.unary loc op operand)) ∨ o = .work
  | .binary op => ∃ loc left right, o = .node (.binary loc op left right)
  | .storeGlobal _ | .storeLocal _ | .storeMember _ | .storeElement => ∃ loc value, o = .store loc value
  | .pushLocal => (∃ loc value, o = .store loc value) ∨ o = .work
  | .branch _ _ => ∃ yes no, o = .branch yes no
  | .loop _ | .tick _ => ∃ body, o = .loop body
  | .call _ | .callBuiltin _ => ∃ loc callee args, o = .node (.call loc callee args)

/-- Whether an instruction calls a function by its name, where the numbers of the script's functions
stand for names. -/
def Instr.CallsBy (calls : UInt32 → String → Prop) (callee : String) : Instr ν σ → Prop
  | .call id => calls id callee
  | .callBuiltin _ => True
  | _ => False

/-- A call is not a plain instruction. -/
theorem Instr.CallsBy.isPlain_eq_false {calls : UInt32 → String → Prop} {callee : String}
    {i : Instr ν σ} (h : i.CallsBy calls callee) : i.isPlain = false := by
  cases i <;> first | rfl | exact h.elim

/-- A call stands for the call expression that it came from. -/
theorem Instr.CallsBy.isFor {calls : UInt32 → String → Prop} {callee : String} {i : Instr ν σ}
    (h : i.CallsBy calls callee) (loc : Location) (args : List Expr) :
    i.IsFor (.node (.call loc callee args)) := by
  cases i <;> first | exact ⟨loc, callee, args, rfl⟩ | exact h.elim

/-- How code is read: the texts that it mentions, the names of the functions that it numbers, and
whether files count. -/
structure Reading (ν : Type) where
  text? : ν → Option String
  calls : UInt32 → String → Prop
  filed : Bool

/-- The code was made for the origins, one for each instruction that is no place, and each is run where
its origin says. The marks are what is known before and after. Inside a body the file may be pinned:
then the body says nothing about files, and the file is the same on every pass and after it. -/
inductive Located (r : Reading ν) :
    Option String → Marks → List (Instr ν σ) → List Origin → Marks → Prop
  | nil {pin : Option String} {k : Marks} : Located r pin k [] [] k
  | line {pin : Option String} {k k' : Marks} {n : UInt32} {is : List (Instr ν σ)} {os : List Origin}
      (h : Located r pin { k with line := some n } is os k') : Located r pin k (.line n :: is) os k'
  | file {k k' : Marks} {s : ν} {text : String} {is : List (Instr ν σ)} {os : List Origin}
      (told : r.text? s = some text)
      (h : Located r none { k with file := if r.filed then some text else none } is os k') :
      Located r none k (.file s :: is) os k'
  | plain {pin : Option String} {k k' : Marks} {i : Instr ν σ} {o : Origin} {is : List (Instr ν σ)}
      {os : List Origin} (isPlain : i.isPlain) (isFor : i.IsFor o)
      (shown : ∀ p, o.place? = some p → k.Tell r.filed p) (h : Located r pin k is os k') :
      Located r pin k (i :: is) (o :: os) k'
  | call {pin : Option String} {k k' : Marks} {i : Instr ν σ} {loc : Location} {callee : String}
      {args : List Expr} {is : List (Instr ν σ)} {os : List Origin} (callsBy : i.CallsBy r.calls callee)
      (shown : k.Tell r.filed (Expr.call loc callee args).ends) (h : Located r pin k is os k') :
      Located r pin k (i :: is) (.node (.call loc callee args) :: os) k'
  | branch {pin : Option String} {k k' k₁ k₂ : Marks} {yes no is : List (Instr ν σ)}
      {yes' no' os : List Origin} (hyes : Located r k.file k.forgetLine yes yes' k₁)
      (hno : Located r k.file k.forgetLine no no' k₂) (h : Located r pin k.forgetLine is os k') :
      Located r pin k (.branch yes no :: is) (.branch yes' no' :: os) k'
  | loop {pin : Option String} {k k' k₁ : Marks} {body is : List (Instr ν σ)} {body' os : List Origin}
      (hbody : Located r k.file k.forgetLine body body' k₁) (h : Located r pin k.forgetLine is os k') :
      Located r pin k (.loop body :: is) (.loop body' :: os) k'
  | tick {pin : Option String} {k k' k₁ : Marks} {body is : List (Instr ν σ)} {body' os : List Origin}
      (hbody : Located r k.file k.forgetLine body body' k₁) (h : Located r pin k.forgetLine is os k') :
      Located r pin k (.tick body :: is) (.loop body' :: os) k'

namespace Located

variable {r : Reading ν} {pin : Option String} {k k' k'' : Marks} {is js : List (Instr ν σ)}
  {os ps : List Origin}

/-- Located code may be put together. -/
theorem append (h : Located r pin k is os k') (h' : Located r pin k' js ps k'') :
    Located r pin k (is ++ js) (os ++ ps) k'' := by
  induction h with
  | nil => exact h'
  | line _ ih => exact .line (ih h')
  | file told _ ih => exact .file told (ih h')
  | plain isPlain isFor shown _ ih => exact .plain isPlain isFor shown (ih h')
  | call callsBy shown _ ih => exact .call callsBy shown (ih h')
  | branch hyes hno _ _ _ ih => exact .branch hyes hno (ih h')
  | loop hbody _ _ ih => exact .loop hbody (ih h')
  | tick hbody _ _ ih => exact .tick hbody (ih h')

/-- There is an origin more for a work instruction more. -/
theorem length_cons_eq {i : Instr ν σ} {o : Origin} (hw : i.isWork)
    (h : os.length = is.countP Instr.isWork) : (o :: os).length = (i :: is).countP Instr.isWork := by
  rw [List.length_cons, List.countP_cons_of_pos hw, h]

/-- There is one origin for each instruction that is no place. -/
theorem length_eq (h : Located r pin k is os k') : os.length = is.countP Instr.isWork := by
  induction h with
  | nil => rfl
  | line _ ih => exact ih
  | file _ _ ih => exact ih
  | @plain _ _ _ i _ _ _ isPlain _ _ _ ih =>
    refine length_cons_eq ?_ ih
    cases i <;> first | rfl | exact nomatch isPlain
  | @call _ _ _ i _ _ _ _ _ callsBy _ _ ih =>
    refine length_cons_eq ?_ ih
    cases i <;> first | rfl | exact callsBy.elim
  | branch _ _ _ _ _ ih => exact length_cons_eq rfl ih
  | loop _ _ _ ih => exact length_cons_eq rfl ih
  | tick _ _ _ ih => exact length_cons_eq rfl ih

/-- What the first instruction was made for, if it is no place, is known to stand there. -/
theorem head {i : Instr ν σ} (h : Located r pin k (i :: is) os k') (hw : i.isWork) :
    ∃ o os', os = o :: os' ∧ i.IsFor o ∧ ∀ p, o.place? = some p → k.Tell r.filed p := by
  cases h with
  | line => exact nomatch hw
  | file => exact nomatch hw
  | plain _ isFor shown => exact ⟨_, _, rfl, isFor, shown⟩
  | call callsBy shown =>
    refine ⟨_, _, rfl, callsBy.isFor _ _, ?_⟩
    rintro p ⟨⟩
    exact shown
  | branch => exact ⟨_, _, rfl, ⟨_, _, rfl⟩, fun _ hp => nomatch hp⟩
  | loop => exact ⟨_, _, rfl, ⟨_, rfl⟩, fun _ hp => nomatch hp⟩
  | tick => exact ⟨_, _, rfl, ⟨_, rfl⟩, fun _ hp => nomatch hp⟩

/-- A body whose file is pinned leaves the file as it is. -/
theorem file_eq (h : Located r pin k is os k') (hp : pin ≠ none) : k'.file = k.file := by
  induction h with
  | nil => rfl
  | file => exact absurd rfl hp
  | line _ ih => exact ih hp
  | plain _ _ _ _ ih => exact ih hp
  | call _ _ _ ih => exact ih hp
  | branch _ _ _ _ _ ih => exact ih hp
  | loop _ _ _ ih => exact ih hp
  | tick _ _ _ ih => exact ih hp

end Located

/-! ## Linking -/

section Linking

variable {ν' σ' : Type} {f : ν → Option ν'} {g : σ → Option σ'}

/-- What an instruction becomes when the texts and shapes it mentions are mapped. Plain instructions are not
looked into. -/
inductive Instr.Mapped (f : ν → Option ν') (g : σ → Option σ') : Instr ν σ → Instr ν' σ' → Prop
  | line (n : UInt32) : Mapped f g (.line n) (.line n)
  | file {s : ν} {s' : ν'} (h : f s = some s') : Mapped f g (.file s) (.file s')
  | call (id : UInt32) : Mapped f g (.call id) (.call id)
  | callBuiltin (id : UInt32) : Mapped f g (.callBuiltin id) (.callBuiltin id)
  | branch {yes no : List (Instr ν σ)} {yes' no' : List (Instr ν' σ')}
      (hyes : mapInstrsM f g yes = some yes') (hno : mapInstrsM f g no = some no') :
      Mapped f g (.branch yes no) (.branch yes' no')
  | loop {body : List (Instr ν σ)} {body' : List (Instr ν' σ')}
      (h : mapInstrsM f g body = some body') : Mapped f g (.loop body) (.loop body')
  | tick {body : List (Instr ν σ)} {body' : List (Instr ν' σ')}
      (h : mapInstrsM f g body = some body') : Mapped f g (.tick body) (.tick body')
  | plain {i : Instr ν σ} {i' : Instr ν' σ'} (h : i.isPlain) (h' : i'.isPlain)
      (isFor : ∀ o, i'.IsFor o → i.IsFor o) : Mapped f g i i'

/-- Numbering keeps an instruction what it is. -/
theorem Instr.mapped_of_mapM {i : Instr ν σ} {i' : Instr ν' σ'} (h : i.mapM f g = some i') :
    i.Mapped f g i' := by
  cases i with
  | file _ =>
    rw [Instr.mapM] at h
    obtain ⟨_, hs, rfl⟩ := Option.map_eq_some_iff.1 h
    exact .file hs
  | pushText _ | makeObject _ | objectMember _ | storeMember _ =>
    rw [Instr.mapM] at h
    obtain ⟨_, -, rfl⟩ := Option.map_eq_some_iff.1 h
    exact .plain rfl rfl fun _ ho => ho
  | branch _ _ =>
    rw [Instr.mapM] at h
    obtain ⟨_, hyes, h⟩ := Option.bind_eq_some_iff.1 h
    obtain ⟨_, hno, h⟩ := Option.bind_eq_some_iff.1 h
    cases h
    exact .branch hyes hno
  | loop _ =>
    rw [Instr.mapM] at h
    obtain ⟨_, hbody, rfl⟩ := Option.map_eq_some_iff.1 h
    exact .loop hbody
  | tick _ =>
    rw [Instr.mapM] at h
    obtain ⟨_, hbody, rfl⟩ := Option.map_eq_some_iff.1 h
    exact .tick hbody
  | line n =>
    cases h
    exact .line n
  | call id =>
    cases h
    exact .call id
  | callBuiltin id =>
    cases h
    exact .callBuiltin id
  | _ =>
    cases h
    exact .plain rfl rfl fun _ ho => ho

/-- The first numbered instruction comes from the first instruction. -/
theorem mapInstrsM_eq_cons {is : List (Instr ν σ)} {i' : Instr ν' σ'} {is' : List (Instr ν' σ')}
    (h : mapInstrsM f g is = some (i' :: is')) :
    ∃ i rest, is = i :: rest ∧ i.Mapped f g i' ∧ mapInstrsM f g rest = some is' := by
  cases is with
  | nil => exact nomatch h
  | cons i rest =>
    rw [mapInstrsM] at h
    obtain ⟨j, hi, h⟩ := Option.bind_eq_some_iff.1 h
    obtain ⟨js, hrest, h⟩ := Option.bind_eq_some_iff.1 h
    cases h
    exact ⟨i, rest, rfl, i.mapped_of_mapM hi, hrest⟩

end Linking

/-- Linked code stands where the code it was linked from stands. -/
theorem Located.of_mapInstrsM {σ' : Type} {f : ν → Option String} {g : σ → Option σ'}
    {calls : UInt32 → String → Prop} {filed : Bool} {pin : Option String} {k k' : Marks}
    {is : List (Instr ν σ)} {is' : List (Instr String σ')} {os : List Origin}
    (h : Located ⟨some, calls, filed⟩ pin k is' os k') (hm : mapInstrsM f g is = some is') :
    Located ⟨f, calls, filed⟩ pin k is os k' := by
  -- Numbering goes through the code as the location does, so the induction is on the latter.
  induction h generalizing is with
  | nil =>
    cases is with
    | nil => exact .nil
    | cons i rest =>
      rw [mapInstrsM] at hm
      obtain ⟨_, -, hm⟩ := Option.bind_eq_some_iff.1 hm
      obtain ⟨_, -, hm⟩ := Option.bind_eq_some_iff.1 hm
      cases hm
  | line _ ih =>
    obtain ⟨i, rest, rfl, hi, hrest⟩ := mapInstrsM_eq_cons hm
    cases hi with
    | line => exact .line (ih hrest)
    | plain _ h => exact nomatch h
  | file told _ ih =>
    obtain ⟨i, rest, rfl, hi, hrest⟩ := mapInstrsM_eq_cons hm
    cases told
    cases hi with
    | file hs => exact .file hs (ih hrest)
    | plain _ h => exact nomatch h
  | plain isPlain isFor shown _ ih =>
    obtain ⟨i, rest, rfl, hi, hrest⟩ := mapInstrsM_eq_cons hm
    cases hi with
    | plain h _ hfor => exact .plain h (hfor _ isFor) shown (ih hrest)
    | _ => exact nomatch isPlain
  | call callsBy shown _ ih =>
    obtain ⟨i, rest, rfl, hi, hrest⟩ := mapInstrsM_eq_cons hm
    cases hi with
    | call id => exact .call callsBy shown (ih hrest)
    | callBuiltin id => exact .call trivial shown (ih hrest)
    | plain _ h => exact absurd h (by rw [callsBy.isPlain_eq_false]; decide)
    | _ => exact callsBy.elim
  | branch _ _ _ ihyes ihno ih =>
    obtain ⟨i, rest, rfl, hi, hrest⟩ := mapInstrsM_eq_cons hm
    cases hi with
    | branch hyes hno => exact .branch (ihyes hyes) (ihno hno) (ih hrest)
    | plain _ h => exact nomatch h
  | loop _ _ ihbody ih =>
    obtain ⟨i, rest, rfl, hi, hrest⟩ := mapInstrsM_eq_cons hm
    cases hi with
    | loop hbody => exact .loop (ihbody hbody) (ih hrest)
    | plain _ h => exact nomatch h
  | tick _ _ ihbody ih =>
    obtain ⟨i, rest, rfl, hi, hrest⟩ := mapInstrsM_eq_cons hm
    cases hi with
    | tick hbody => exact .tick (ihbody hbody) (ih hrest)
    | plain _ h => exact nomatch h

end TickScript
