import TickScript.Proofs.Machine.Control
import TickScript.Proofs.Meaning.Scripts
import TickScript.Proofs.Program.Places

/-!
# Where a machine says it stands

A frame of a machine that runs a compiled script runs a body that was made for parts of the script, and
what is left of its pass was made for the last of them (`Follows`). The machine carries its place along as
it runs, and goes back to the place of a call when the call returns. What lowering knows of the place is
what the machine has there, on every pass of a loop, in every branch and after every return (`Tracks`), so
a fault names the place where the node ends that raised it, and so does each call that it lists.
-/

namespace TickScript

/-- What the instructions of a program were made for: those of its body, and those of its functions by
name. -/
structure Sheet where
  body : List Origin
  function? : String → Option (List Origin)

/-- The origins of a script's instructions. -/
def Sheet.ofScript (script : List Stmt) : Sheet where
  body := originsOfStmts (script.filter (! ·.isFunction))
  function? s :=
    ((script.filterMap Stmt.declaration?).find? fun d => d.name == s).map Declaration.origins

/-- A place is shown: its line is, and its file if files count. -/
structure Location.ShownAs (p : Location) (filed : Bool) (here : Location) : Prop where
  line : here.line = p.line
  file : filed = true → here.file = p.file

/-- What is told of a place and known of it is shown. -/
theorem Marks.Knows.shownAs {k : Marks} {filed : Bool} {p here : Location} (h : k.Knows here)
    (ht : k.Tell filed p) : p.ShownAs filed here :=
  ⟨h.line _ ht.line, fun hf => h.file _ (ht.file hf)⟩

/-- What is known stays so when the line is forgotten. -/
theorem Marks.Knows.forgetLine {k : Marks} {here : Location} (h : k.Knows here) :
    k.forgetLine.Knows here :=
  ⟨fun _ hn => (nomatch hn), h.file⟩

/-! ## What the frames of a machine were made for -/

/-- The origins are those of a body of the branch or loop, which runs in a frame of that kind. -/
def Origin.IsBody (kind : FrameKind) (whole : List Origin) : Origin → Prop
  | .branch yes no => kind = .branch ∧ (whole = yes ∨ whole = no)
  | .loop body => (kind = .loop ∨ kind = .tick) ∧ whole = body
  | _ => False

/-- Bodies inside others are those of branches and loops. -/
theorem Origin.IsBody.kind {kind : FrameKind} {whole : List Origin} {o : Origin}
    (h : o.IsBody kind whole) : kind = .branch ∨ kind = .loop ∨ kind = .tick := by
  cases o with
  | branch => exact .inl h.1
  | loop => exact .inr h.1
  | _ => exact h.elim

/-- A frame runs a body that was made for some origins. What is left of its pass was made for the last of
them, one for each instruction that is no place. -/
structure Frame.Reads (f : Frame) (whole left : List Origin) : Prop where
  suffix : left <:+ whole
  aligned : left.length = f.rest.countP Instr.isWork

/-- What the frames of a machine were made for, down to the body of the program: the calls that functions
wait for, latest first, and the origins of the body on top, and of what is left of it. -/
inductive Follows (sheet : Sheet) : List Frame → List Expr → List Origin → List Origin → Prop
  | bottom {f : Frame} {left : List Origin} (kind : f.kind = .top) (reads : f.Reads sheet.body left) :
      Follows sheet [f] [] sheet.body left
  | block {f : Frame} {frames : List Frame} {callers : List Expr} {o : Origin}
      {whole left whole' left' : List Origin} (reads : f.Reads whole left)
      (owned : o.IsBody f.kind whole) (passed : o :: left' <:+ whole')
      (below : Follows sheet frames callers whole' left') : Follows sheet (f :: frames) callers whole left
  | called {f : Frame} {frames : List Frame} {callers : List Expr} {loc : Location} {callee : String}
      {args : List Expr} {whole left whole' left' : List Origin} (kind : f.kind = .function)
      (reads : f.Reads whole left) (found : sheet.function? callee = some whole)
      (passed : .node (.call loc callee args) :: left' <:+ whole')
      (below : Follows sheet frames callers whole' left') :
      Follows sheet (f :: frames) (.call loc callee args :: callers) whole left

/-! ## The places along with them -/

/-- A sheet, with the names of the functions by number, and whether files count. -/
structure Guide extends Sheet where
  calls : UInt32 → String → Prop
  filed : Bool

/-- How a guide reads the code of an image. -/
def Guide.reading (g : Guide) (image : Image) : Reading UInt32 := ⟨image.text?, g.calls, g.filed⟩

/-- The bodies of an image stand where the guide says. -/
structure Guide.Fits (g : Guide) (image : Image) : Prop where
  body : ∃ k, Located (g.reading image) none .none image.program.body g.body k
  functions : ∀ (id : UInt32) (s : String) (f : Function UInt32 UInt32), g.calls id s →
    image.program.functions[id.toNat]? = some f → image.text? f.name = some s ∧
      ∃ os k, g.function? s = some os ∧ Located (g.reading image) none .none f.body os k

/-- How far a frame has come: the file that its body keeps to, the origins of the body and of what is left
of it, and what is known of the place when the frame goes on. -/
structure Spot where
  pin : Option String
  whole : List Origin
  left : List Origin
  known : Marks

/-- The frame stands at the spot, and may start its body again. -/
structure Frame.Stands (f : Frame) (r : Reading UInt32) (s : Spot) : Prop where
  left : ∃ k, Located r s.pin s.known f.rest s.left k
  again : ∃ k, Located r s.pin ⟨none, s.pin⟩ f.body s.whole k
  suffix : s.left <:+ s.whole
  pinned : ∀ file, s.pin = some file → s.known.file = some file

/-- The frames stand on each other, each at the spot where it goes on when those above it are left. Below a
block nothing is known but the file that the block keeps to, and below a function what the place of its
call says. -/
inductive Tracks (r : Reading UInt32) (sheet : Sheet) :
    List Frame → List CallSite → List Expr → Spot → Prop
  | bottom {f : Frame} {s : Spot} (kind : f.kind = .top) (body : s.whole = sheet.body)
      (stands : f.Stands r s) : Tracks r sheet [f] [] [] s
  | block {f : Frame} {frames : List Frame} {calls : List CallSite} {callers : List Expr} {o : Origin}
      {s t : Spot} (stands : f.Stands r s) (owned : o.IsBody f.kind s.whole)
      (passed : o :: t.left <:+ t.whole) (known : t.known = ⟨none, s.pin⟩)
      (below : Tracks r sheet frames calls callers t) : Tracks r sheet (f :: frames) calls callers s
  | called {f : Frame} {frames : List Frame} {c : CallSite} {calls : List CallSite} {callers : List Expr}
      {loc : Location} {callee : String} {args : List Expr} {s t : Spot} (kind : f.kind = .function)
      (stands : f.Stands r s) (found : sheet.function? callee = some s.whole)
      (passed : .node (.call loc callee args) :: t.left <:+ t.whole) (called : c.name = callee)
      (shown : (Expr.call loc callee args).ends.ShownAs r.filed c.location)
      (known : t.known.Knows c.location) (below : Tracks r sheet frames calls callers t) :
      Tracks r sheet (f :: frames) (c :: calls) (.call loc callee args :: callers) s

/-- A frame at a spot runs what the spot is about. -/
theorem Frame.Stands.reads {f : Frame} {r : Reading UInt32} {s : Spot} (h : f.Stands r s) :
    f.Reads s.whole s.left := by
  obtain ⟨k, hk⟩ := h.left
  exact ⟨h.suffix, hk.length_eq⟩

namespace Tracks

variable {r : Reading UInt32} {sheet : Sheet} {f : Frame} {frames : List Frame} {calls : List CallSite}
  {callers : List Expr} {s : Spot}

/-- Frames that are tracked were made for the calls and the origins. -/
theorem follows (h : Tracks r sheet frames calls callers s) :
    Follows sheet frames callers s.whole s.left := by
  induction h with
  | bottom kind body stands =>
    have hreads := stands.reads
    rw [body] at hreads ⊢
    exact .bottom kind hreads
  | block stands owned passed _ _ ih => exact .block stands.reads owned passed ih
  | called kind stands found passed _ _ _ _ ih => exact .called kind stands.reads found passed ih

/-- The frame on top stands at the spot. -/
theorem stands (h : Tracks r sheet (f :: frames) calls callers s) : f.Stands r s := by
  cases h with
  | bottom _ _ stands => exact stands
  | block stands => exact stands
  | called _ stands => exact stands

/-- A frame goes on to another spot of its body. -/
theorem move (h : Tracks r sheet (f :: frames) calls callers s) {rest : List Op} {left : List Origin}
    {known : Marks} (hs : Frame.Stands { f with rest } r { s with left, known }) :
    Tracks r sheet ({ f with rest } :: frames) calls callers { s with left, known } := by
  cases h with
  | bottom kind body => exact .bottom kind body hs
  | block _ owned passed known below => exact .block hs owned passed known below
  | called kind _ found passed called shown known below =>
    exact .called kind hs found passed called shown known below

end Tracks

/-- The frame has just passed a call, and the place where it ends is shown. -/
def Spot.CallsAt (s : Spot) (filed : Bool) (here : Location) : Prop :=
  ∃ loc callee args, .node (.call loc callee args) :: s.left <:+ s.whole ∧
    (Expr.call loc callee args).ends.ShownAs filed here

namespace Machine

/-- The machine stands where the guide says: its frames are tracked, what is known where it goes on is so,
and while it waits for its host the call that it made is shown. -/
structure Guided (g : Guide) (m : Machine) (callers : List Expr) (s : Spot) : Prop where
  fits : g.Fits m.image
  tracks : Tracks (g.reading m.image) g.toSheet m.frames m.calls callers s
  known : s.known.Knows m.location
  awaits : m.phase = .awaiting → s.CallsAt g.filed m.location

/-- A machine that has not failed stands where the guide says. -/
def Told (g : Guide) (m : Machine) : Prop := m.fault? = none → ∃ callers s, m.Guided g callers s

variable {g : Guide} {m m' : Machine} {callers : List Expr} {s : Spot} {f : Frame}
  {frames : List Frame}

/-- Nothing is told of a machine that has failed. -/
theorem told_stop (m : Machine) (cause : Cause) : (m.stop cause).1.Told g := fun h => nomatch h

namespace Guided

/-- A machine that stands where the guide says does so whatever its frames are. -/
theorem told (h : m.Guided g callers s) : m.Told g := fun _ => ⟨callers, s, h⟩

/-- Nothing changes when frames, calls and place stay. -/
theorem steady (h : m.Guided g callers s) (hi : m'.image = m.image) (hf : m'.frames = m.frames)
    (hc : m'.calls = m.calls) (hl : m'.location = m.location) (hw : m'.phase ≠ .awaiting) :
    m'.Guided g callers s where
  fits := hi ▸ h.fits
  tracks := by rw [hi, hf, hc]; exact h.tracks
  known := hl ▸ h.known
  awaits := fun hp => absurd hp hw

/-- The file that a body keeps to is the file of the machine. -/
theorem knows_pin (h : m.Guided g callers s) {r : Reading UInt32} (hs : f.Stands r s) :
    Marks.Knows ⟨none, s.pin⟩ m.location :=
  ⟨fun _ hn => (nomatch hn), fun file hfile => h.known.file file (hs.pinned file hfile)⟩

/-- A block on top can be left: the file is the one that the block kept to. -/
theorem pop_block (h : m.Guided g callers s) (hw : m.phase ≠ .awaiting) (hm : m.frames = f :: frames)
    (ht : f.kind ≠ .top) (hf : f.kind ≠ .function) :
    ∃ t, Guided g { m.truncate f.base with frames } callers t := by
  have htracks := h.tracks
  rw [hm] at htracks
  generalize hc : m.calls = calls at htracks
  cases htracks with
  | bottom kind => exact absurd kind ht
  | called kind => exact absurd kind hf
  | @block _ _ _ _ _ _ t stands _ _ known below =>
    -- whatever lines the block has been to, the frame below says its line again before it needs one
    refine ⟨t, h.fits, hc ▸ below, ?_, fun hp => absurd hp hw⟩
    rw [known]
    exact h.knows_pin stands

/-- A function on top can be left, and goes back to the place of its call. -/
theorem pop_function (h : m.Guided g callers s) (hw : m.phase ≠ .awaiting)
    (hm : m.frames = f :: frames) (hk : f.kind = .function) :
    ∃ callers' t, Guided g ({ m.truncate f.base with frames } : Machine).returnToCaller callers' t := by
  have htracks := h.tracks
  rw [hm] at htracks
  generalize hc : m.calls = calls at htracks
  cases htracks with
  | bottom kind => exact nomatch hk.symm.trans kind
  | block _ owned => rcases owned.kind with h | h | h <;> exact nomatch hk.symm.trans h
  | @called _ _ c calls callers' _ _ _ _ t _ _ _ _ _ _ known below =>
    have hreturn : ({ m.truncate f.base with frames } : Machine).returnToCaller =
        { m.truncate f.base with frames, calls, location := c.location } := by
      have hcalls : ({ m.truncate f.base with frames } : Machine).calls = c :: calls := hc
      rw [returnToCaller, hcalls]
    rw [hreturn]
    exact ⟨callers', t, h.fits, below, known, fun hp => absurd hp hw⟩

/-- A loop on top can start again, where nothing but its file is known. -/
theorem restart (h : m.Guided g callers s) (hw : m.phase ≠ .awaiting) (hm : m.frames = f :: frames) :
    Guided g { m.truncate f.base with frames := { f with rest := f.body } :: frames } callers
      { s with left := s.whole, known := ⟨none, s.pin⟩ } := by
  have htracks := h.tracks
  rw [hm] at htracks
  have hstands := htracks.stands
  have hagain : Frame.Stands { f with rest := f.body } (g.reading m.image)
      { s with left := s.whole, known := ⟨none, s.pin⟩ } :=
    ⟨hstands.again, hstands.again, List.suffix_rfl, fun _ hp => hp⟩
  exact ⟨h.fits, htracks.move hagain, h.knows_pin hstands, fun hp => absurd hp hw⟩

/-- Branches can be left. -/
theorem leaveBranches (h : Guided g { m with frames } callers s) (hw : m.phase ≠ .awaiting) :
    ∃ t, (m.leaveBranches frames).Guided g callers t := by
  induction frames generalizing m s with
  | nil => exact nomatch h.tracks
  | cons f frames ih =>
    rw [Machine.leaveBranches]
    split
    · next hk =>
      obtain ⟨t, ht⟩ := h.pop_block (f := f) hw rfl (by rw [hk]; decide) (by rw [hk]; decide)
      exact ih (m := m.truncate f.base) ht hw
    · exact ⟨s, h⟩

/-- A function can be left from wherever it stands. -/
theorem leaveFunction (h : Guided g { m with frames } callers s) (hw : m.phase ≠ .awaiting)
    (hf : (m.leaveFunction frames).2 = true) :
    ∃ callers' t, (m.leaveFunction frames).1.returnToCaller.Guided g callers' t := by
  induction frames generalizing m s with
  | nil => cases hf
  | cons f frames ih =>
    rw [Machine.leaveFunction] at hf ⊢
    cases hk : f.kind with
    | function => exact h.pop_function (f := f) hw rfl hk
    | top =>
      rw [hk] at hf
      cases hf
    | branch | loop | tick =>
      rw [hk] at hf
      obtain ⟨t, ht⟩ := h.pop_block (f := f) hw rfl (by rw [hk]; decide) (by rw [hk]; decide)
      exact ih (m := m.truncate f.base) ht hw hf

/-- A value on top of the operands changes nothing about the place. -/
theorem push (h : m.Guided g callers s) (hw : m.phase ≠ .awaiting) (v : Value) :
    (m.push v).Guided g callers s :=
  h.steady rfl rfl rfl rfl hw

/-- A block is entered where nothing but the file is known. -/
theorem enter (h : m.Guided g callers s) (hw : m.phase ≠ .awaiting) {kind : FrameKind}
    {body : List Op} {o : Origin} {whole : List Origin} {pin : Option String} {k : Marks}
    (hbody : Located (g.reading m.image) pin ⟨none, pin⟩ body whole k) (hk : s.known = ⟨none, pin⟩)
    (owned : o.IsBody kind whole) (passed : o :: s.left <:+ s.whole) :
    (m.enter kind body).Guided g callers ⟨pin, whole, whole, ⟨none, pin⟩⟩ where
  fits := h.fits
  tracks := .block ⟨⟨k, hbody⟩, ⟨k, hbody⟩, List.suffix_rfl, fun _ hp => hp⟩ owned passed hk h.tracks
  known := hk ▸ h.known
  awaits := fun hp => absurd hp hw

/-- The frame on top goes on to what is left of its body. -/
theorem pass (h : m.Guided g callers s) (hm : m.frames = f :: frames) {rest : List Op}
    {left : List Origin} {known k : Marks} (hl : Located (g.reading m.image) s.pin known rest left k)
    (hs : left <:+ s.whole) (hp : ∀ file, s.pin = some file → known.file = some file) :
    Tracks (g.reading m.image) g.toSheet ({ f with rest } :: frames) m.calls callers
      { s with left, known } := by
  have htracks := h.tracks
  rw [hm] at htracks
  exact htracks.move ⟨⟨k, hl⟩, htracks.stands.again, hs, hp⟩

end Guided

/-! ## What every step keeps -/

/-- Where a frame ends, the one below goes on where it stood. -/
theorem told_endFrame (h : m.Guided g callers s) (hw : m.phase ≠ .awaiting) : m.endFrame.1.Told g := by
  unfold endFrame
  split
  · exact told_stop m _
  · next f frames hm =>
    split
    · exact fun _ => ⟨callers, s, h.fits, h.tracks, h.known, fun hp => nomatch hp⟩
    · exact (h.restart hw hm).told
    · exact (h.restart hw hm).told
    · next hk =>
      obtain ⟨t, ht⟩ := h.pop_block hw hm (by rw [hk]; decide) (by rw [hk]; decide)
      exact ht.told
    · next hk =>
      obtain ⟨callers', t, ht⟩ := h.pop_function hw hm hk
      refine (ht.push ?_ .null).told
      rw [phase_returnToCaller]
      exact hw

/-- The next pass starts where the first one did. -/
theorem told_continueLoop (h : m.Guided g callers s) (hw : m.phase ≠ .awaiting) :
    m.continueLoop.1.Told g := by
  obtain ⟨t, ht⟩ := Guided.leaveBranches (m := m) h hw
  unfold continueLoop
  dsimp only
  split
  · exact told_endFrame ht (by rw [phase_leaveBranches]; exact hw)
  · exact told_stop _ _

/-- A loop that is left leads to what comes behind it. -/
theorem told_breakLoop (h : m.Guided g callers s) (hw : m.phase ≠ .awaiting) :
    m.breakLoop.1.Told g := by
  obtain ⟨t, ht⟩ := Guided.leaveBranches (m := m) h hw
  have hw' : (m.leaveBranches m.frames).phase ≠ .awaiting := by rw [phase_leaveBranches]; exact hw
  unfold breakLoop
  dsimp only
  generalize m.leaveBranches m.frames = m' at ht hw' ⊢
  cases hm : m'.frames with
  | nil => exact told_stop m' _
  | cons f frames =>
    dsimp only
    split
    · next hat =>
      have hk := kind_of_atLoop hat hm
      obtain ⟨t', ht'⟩ := ht.pop_block hw' hm (by rcases hk with hk | hk <;> rw [hk] <;> decide)
        (by rcases hk with hk | hk <;> rw [hk] <;> decide)
      exact ht'.told
    · exact told_stop m' _

/-- A function that is left leads back to the place of its call. -/
theorem told_giveBack (h : m.Guided g callers s) (hw : m.phase ≠ .awaiting) :
    m.giveBack.1.Told g := by
  unfold giveBack
  split
  · exact told_stop m _
  · next v rest _ =>
    have hrest : Guided g { m with operands := rest } callers s := h.steady rfl rfl rfl rfl hw
    have hphase := phase_leaveFunction { m with operands := rest } m.frames
    split
    · next m' hm =>
      rw [hm] at hphase
      obtain ⟨callers', t, ht⟩ :=
        Guided.leaveFunction (m := { m with operands := rest }) hrest hw (by rw [hm])
      rw [hm] at ht
      refine (ht.push ?_ v).told
      rw [phase_returnToCaller, hphase]
      exact hw
    · exact told_stop _ _

/-- A function starts where nothing is known, and its call is listed with the place where it ends. -/
theorem told_call (h : m.Guided g callers s) (hw : m.phase ≠ .awaiting) {id : UInt32} {loc : Location}
    {callee : String} {args : List Expr} (hid : g.calls id callee)
    (passed : .node (.call loc callee args) :: s.left <:+ s.whole)
    (shown : (Expr.call loc callee args).ends.ShownAs g.filed m.location) : (m.call id).1.Told g := by
  unfold call
  split
  · exact told_stop m _
  · next function hfunction =>
    obtain ⟨hname, os, k, hfound, hbody⟩ := h.fits.functions id callee function hid hfunction
    split
    · exact told_stop m _
    · next called hcalled =>
      cases hcalled.symm.trans hname
      split
      · exact told_stop m _
      · refine fun _ => ⟨.call loc callee args :: callers, ⟨none, os, os, .none⟩, h.fits, ?_,
          ⟨fun _ hn => (nomatch hn), fun _ hf => (nomatch hf)⟩, fun hp => absurd hp hw⟩
        have hstands : Frame.Stands ⟨.function, function.body, function.body, m.locals.length⟩
            (g.reading m.image) ⟨none, os, os, .none⟩ :=
          ⟨⟨k, hbody⟩, ⟨k, hbody⟩, List.suffix_rfl, fun _ hp => nomatch hp⟩
        exact .called rfl hstands hfound passed rfl shown h.known h.tracks

/-- A block starts without a line, in the file that it keeps to. -/
theorem told_branch (h : m.Guided g callers s) (hw : m.phase ≠ .awaiting) {yes no : List Op}
    {yes' no' : List Origin} {pin : Option String} {k₁ k₂ : Marks}
    (hyes : Located (g.reading m.image) pin ⟨none, pin⟩ yes yes' k₁)
    (hno : Located (g.reading m.image) pin ⟨none, pin⟩ no no' k₂) (hk : s.known = ⟨none, pin⟩)
    (passed : .branch yes' no' :: s.left <:+ s.whole) : (m.branch yes no).1.Told g := by
  unfold branch
  split
  · exact told_stop m _
  · next v rest _ =>
    have hdropped : (m.dropped rest [v]).Guided g callers s := h.steady rfl rfl rfl rfl hw
    have hchosen : ∃ whole k, Located (g.reading m.image) pin ⟨none, pin⟩
        (if v.isTruthy then yes else no) whole k ∧ (Origin.branch yes' no').IsBody .branch whole := by
      cases v.isTruthy with
      | true => exact ⟨yes', k₁, hyes, rfl, .inl rfl⟩
      | false => exact ⟨no', k₂, hno, rfl, .inr rfl⟩
    dsimp only
    generalize (if v.isTruthy then yes else no) = body at hchosen ⊢
    obtain ⟨whole, k, hbody, howned⟩ := hchosen
    split
    · exact hdropped.told
    · exact (hdropped.enter hw hbody hk howned passed).told

/-- What works on values leaves the place as it is. -/
theorem Works.told {result : Machine × Status} (hx : Works m result) (h : m.Guided g callers s)
    (hw : m.phase ≠ .awaiting) : result.1.Told g := by
  cases hx with
  | stops => exact told_stop _ _
  | goes hx => cases hx <;> exact fun _ => ⟨callers, s, h.steady rfl rfl rfl rfl hw⟩

/-- So the guide is right behind an instruction that is no place and no block. -/
theorem told_exec_plain (h : m.Guided g callers s) (hw : m.phase ≠ .awaiting) {op : Op}
    (hop : op.isPlain) : (m.exec op).1.Told g := by
  cases op with
  | line | file | branch | loop | tick | call | callBuiltin => exact nomatch hop
  | continueLoop => exact told_continueLoop h hw
  | breakLoop => exact told_breakLoop h hw
  | giveBack => exact told_giveBack h hw
  | _ => exact (works_exec m rfl).told h hw

/-- While the host is called, the machine stands where the call ends. -/
theorem told_callBuiltin (h : m.Guided g callers s) (hs : s.CallsAt g.filed m.location) (id : UInt32) :
    (m.callBuiltin id).1.Told g := by
  unfold callBuiltin
  split
  · exact told_stop m _
  · split
    · exact told_stop m _
    · exact fun _ => ⟨callers, s, h.fits, h.tracks, h.known, fun _ => hs⟩

/-- Whatever runs next leads to where the guide says. -/
theorem told_execNext (h : m.Guided g callers s) (hw : m.phase ≠ .awaiting) :
    m.execNext.1.Told g := by
  unfold execNext
  cases hm : m.frames with
  | nil => exact told_stop m _
  | cons f frames =>
    obtain ⟨pin, whole, left, known⟩ := s
    have hstands : f.Stands (g.reading m.image) ⟨pin, whole, left, known⟩ := Tracks.stands (hm ▸ h.tracks)
    obtain ⟨k, hk⟩ := hstands.left
    dsimp only at hk ⊢
    cases hr : f.rest with
    | nil => exact told_endFrame h hw
    | cons op rest =>
      rw [hr] at hk
      -- what the machine comes to when the frame on top has passed an instruction that is no place
      have hnext {o : Origin} {left' : List Origin} {known' k' : Marks}
          (hl : Located (g.reading m.image) pin known' rest left' k') (hs : o :: left' <:+ whole)
          (hfile : known'.file = known.file) (hknown : known'.Knows m.location) :
          Guided g { m with frames := { f with rest } :: frames } callers ⟨pin, whole, left', known'⟩ := by
        refine ⟨h.fits, h.pass hm hl ((List.suffix_cons o left').trans hs) ?_, hknown,
          fun hp => absurd hp hw⟩
        intro file hp
        rw [hfile]
        exact hstands.pinned file hp
      cases hk with
      | line hl =>
        refine fun _ => ⟨callers, _, h.fits, h.pass hm hl hstands.suffix hstands.pinned, ?_,
          fun hp => absurd hp hw⟩
        exact ⟨fun n hn => Option.some.inj hn, h.known.file⟩
      | @file _ _ id text _ _ told hl =>
        have htext : m.image.text? id = some text := told
        simp only [exec, htext]
        refine fun _ => ⟨callers, _, h.fits, h.pass hm hl hstands.suffix (fun _ hp => nomatch hp), ?_,
          fun hp => absurd hp hw⟩
        refine ⟨h.known.line, fun file hfile => ?_⟩
        dsimp only at hfile
        split at hfile
        · exact Option.some.inj hfile
        · cases hfile
      | plain isPlain _ _ hl =>
        exact told_exec_plain (hnext hl hstands.suffix rfl h.known) hw isPlain
      | call callsBy shown hl =>
        have hguided := hnext hl hstands.suffix rfl h.known
        have hshown := h.known.shownAs shown
        cases op with
        | call id => exact told_call hguided hw callsBy hstands.suffix hshown
        | callBuiltin id => exact told_callBuiltin hguided ⟨_, _, _, hstands.suffix, hshown⟩ id
        | _ => exact callsBy.elim
      | branch hyes hno hl =>
        exact told_branch (hnext hl hstands.suffix rfl h.known.forgetLine) hw hyes hno rfl hstands.suffix
      | @loop _ _ _ _ _ _ body' _ hbody hl =>
        have howned : (Origin.loop body').IsBody .loop body' := ⟨.inl rfl, rfl⟩
        exact ((hnext hl hstands.suffix rfl h.known.forgetLine).enter hw hbody rfl howned
          hstands.suffix).told
      | @tick _ _ _ _ _ _ body' _ hbody hl =>
        have howned : (Origin.loop body').IsBody .tick body' := ⟨.inr rfl, rfl⟩
        exact ((hnext hl hstands.suffix rfl h.known.forgetLine).enter hw hbody rfl howned
          hstands.suffix).told

/-- **A step keeps the machine where the guide says**, unless it fails. -/
theorem told_step (h : m.Told g) : m.step.1.Told g := by
  cases m.stepCase with
  | complete _ hs | faulted _ _ hs | unpaid _ _ hs => exact hs ▸ h
  | unanswered _ hs | overfull _ _ _ hs => exact hs ▸ told_stop m _
  | made hp _ _ hs =>
    obtain ⟨callers, s, hg⟩ := h (by unfold fault?; rw [hp])
    have hw : m.phase ≠ .awaiting := by rw [hp]; decide
    rw [hs]
    exact told_execNext (m := { m with spent := m.spent + 1 }) (hg.steady rfl rfl rfl rfl hw) hw

/-- Whatever a host does keeps the machine where the guide says, unless it fails. -/
theorem told_perform (h : m.Told g) (d : Deed) : (m.perform d).Told g := by
  cases d with
  | startTick | touch _ _ =>
    intro hf
    obtain ⟨callers, s, hg⟩ := h hf
    exact ⟨callers, s, hg.fits, hg.tracks, hg.known, hg.awaits⟩
  | step => exact told_step h
  | stepBatch => exact stepBatch_induction (fun _ => told_step) h
  | pushResult v =>
    obtain ⟨hp, hanswer⟩ | ⟨-, hanswer⟩ := m.pushResult_cases v <;> rw [perform, hanswer]
    · obtain ⟨callers, s, hg⟩ := h (by unfold fault?; rw [hp])
      exact fun _ => ⟨callers, s, hg.fits, hg.tracks, hg.known, by rintro ⟨⟩⟩
    · rintro ⟨⟩

end Machine

end TickScript
