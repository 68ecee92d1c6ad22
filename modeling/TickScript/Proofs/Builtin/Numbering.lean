import Mathlib.Data.List.Nodup
import Mathlib.Logic.Function.Basic
import TickScript.Proofs.Builtin.Conduct
import TickScript.Proofs.Program.Resolution

/-!
# The numbers of the host's functions

A registry is a list, and the number of a function is its place in the list. Registering a function either
replaces the one of its name or adds a new name at the end (`names_insert`). So no name is there twice, a
name that has a number keeps it, and the function of a name is the one that was registered last.

A host may instead write the number of each name down when the name is first registered, and find functions
by what it has written (`Ledger`). Both ways find the same functions as long as there are no more names than
numbers (`Ledger.records_ofModules`), and so does a compiler, which searches its copy of the list
(`entryWhere?_signatures`).
-/

namespace TickScript

variable {κ : Type}

namespace Registry

/-- The functions that modules register, one after the other, with those that are replaced later. -/
def registered (modules : List (Module κ)) : List (Builtin κ) := modules.flatMap (·.builtins)

/-- Registering modules is registering their functions in order. -/
theorem foldl_addModule_eq (modules : List (Module κ)) (r : Registry κ) :
    modules.foldl addModule r = (registered modules).foldl insert r := by
  induction modules generalizing r with
  | nil => rfl
  | cons m modules ih =>
    rw [List.foldl_cons, ih, registered, registered, List.flatMap_cons, List.foldl_append]
    rfl

/-- A registry of modules is made of their functions in order. -/
theorem ofModules_eq (modules : List (Module κ)) :
    ofModules modules = (registered modules).foldl insert empty :=
  foldl_addModule_eq modules empty

/-- Further modules are registered on top. -/
theorem ofModules_append (modules more : List (Module κ)) :
    ofModules (modules ++ more) = (registered more).foldl insert (ofModules modules) := by
  unfold ofModules
  rw [List.foldl_append, foldl_addModule_eq more]

/-! ## Names and their places -/

/-- The names of the functions, by number. -/
def names (r : Registry κ) : List String := r.builtins.map Builtin.name

/-- The number of a name is the place of the name among the names. -/
theorem id?_eq (r : Registry κ) (s : String) : r.id? s = r.names.findIdx? fun t => t == s := by
  rw [names, List.findIdx?_map]
  rfl

/-- The function of a name stands at the number of the name. -/
theorem get?_eq (r : Registry κ) (s : String) :
    r.get? s = (r.id? s).bind fun i => r.builtins[i]? :=
  List.find?_eq_bind_findIdx?_getElem?

/-- What has no number is not registered. -/
theorem id?_eq_none {r : Registry κ} {s : String} : r.id? s = none ↔ s ∉ r.names := by
  rw [id?_eq, List.findIdx?_eq_none_iff]
  constructor
  · intro h hs
    have hne := h s hs
    rw [beq_self_eq_true] at hne
    exact nomatch hne
  · intro h t ht
    exact beq_false_of_ne fun he => h (he ▸ ht)

/-- The function at the number of a name has this name. -/
theorem names_of_id? {r : Registry κ} {s : String} {i : Nat} (h : r.id? s = some i) :
    r.names[i]? = some s := by
  rw [id?_eq] at h
  obtain ⟨hlt, hp, -⟩ := List.findIdx?_eq_some_iff_getElem.1 h
  rw [List.getElem?_eq_getElem hlt, LawfulBEq.eq_of_beq hp]

/-- A number is below the number of functions. -/
theorem lt_of_id? {r : Registry κ} {s : String} {i : Nat} (h : r.id? s = some i) :
    i < r.builtins.length := by
  have hlt := (List.getElem?_eq_some_iff.1 (names_of_id? h)).1
  rwa [names, List.length_map] at hlt

/-- Where a name stands is its number, as long as no name is there twice. -/
theorem id?_of_names {r : Registry κ} (hr : r.names.Nodup) {s : String} {i : Nat}
    (h : r.names[i]? = some s) : r.id? s = some i := by
  cases hj : r.id? s with
  | none => exact absurd (List.mem_of_getElem? h) (id?_eq_none.1 hj)
  | some j =>
    have hlt : i < r.names.length := (List.getElem?_eq_some_iff.1 h).1
    rw [(List.getElem?_inj hlt hr).1 (h.trans (names_of_id? hj).symm)]

/-! ## Registering a function -/

/-- A name that is registered again stays where it is, and a new one goes to the end. -/
theorem names_insert (r : Registry κ) (b : Builtin κ) :
    (r.insert b).names = if b.name ∈ r.names then r.names else r.names ++ [b.name] := by
  unfold insert
  split
  · next i hi =>
    obtain ⟨hlt, hname⟩ := List.getElem?_eq_some_iff.1 (names_of_id? hi)
    rw [if_pos (List.mem_of_getElem? (names_of_id? hi)), names, List.map_set, ← hname]
    exact List.set_getElem_self hlt
  · next hi =>
    rw [if_neg (id?_eq_none.1 hi), names, List.map_append]
    rfl

/-- Registering a function never gives a name to two functions. -/
theorem nodup_insert {r : Registry κ} (hr : r.names.Nodup) (b : Builtin κ) :
    (r.insert b).names.Nodup := by
  rw [names_insert]
  split
  · exact hr
  · next hb => exact List.nodup_append.2 ⟨hr, List.nodup_singleton _, by
      rintro s hs t ht rfl
      exact hb (List.mem_singleton.1 ht ▸ hs)⟩

/-- Registering a function keeps the names in their order, and may add one. -/
theorem names_insert_extends (r : Registry κ) (b : Builtin κ) : r.names <+: (r.insert b).names := by
  rw [names_insert]
  split
  · exact List.prefix_rfl
  · exact List.prefix_append _ _

/-- Replacing a function leaves all numbers as they are. -/
theorem id?_insert_of_some {r : Registry κ} {b : Builtin κ} {i : Nat} (h : r.id? b.name = some i)
    (s : String) : (r.insert b).id? s = r.id? s := by
  rw [id?_eq, id?_eq, names_insert, if_pos (List.mem_of_getElem? (names_of_id? h))]

/-- A new name gets the next number, and the other numbers stay. -/
theorem id?_insert_of_none {r : Registry κ} {b : Builtin κ} (h : r.id? b.name = none) (s : String) :
    (r.insert b).id? s = if b.name = s then some r.builtins.length else r.id? s := by
  rw [id?_eq (r.insert b), names_insert, if_neg (id?_eq_none.1 h), List.findIdx?_append, ← id?_eq,
    List.findIdx?_singleton]
  by_cases hs : b.name = s
  · rw [if_pos hs, ← hs, h, beq_self_eq_true]
    simp [names]
  · rw [if_neg hs, beq_false_of_ne hs]
    exact Option.or_none

/-- The function of a name is the one that has just been registered, if it has this name. -/
theorem get?_insert (r : Registry κ) (b : Builtin κ) (s : String) :
    (r.insert b).get? s = if b.name = s then some b else r.get? s := by
  cases hi : r.id? b.name with
  | none =>
    have hinsert : (r.insert b).get? s = (r.get? s).or ([b].find? fun b => b.name == s) := by
      rw [insert, hi]
      exact List.find?_append
    rw [hinsert]
    split
    · next hs =>
      have hnone : r.get? s = none := by
        rw [get?_eq, ← hs, hi]
        rfl
      rw [hnone, List.find?_cons_of_pos (by rw [hs, beq_self_eq_true])]
      rfl
    · next hs => rw [List.find?_cons_of_neg (by simpa using hs), List.find?_nil, Option.or_none]
  | some i =>
    have hinsert : r.insert b = ⟨r.builtins.set i b⟩ := by rw [insert, hi]
    rw [get?_eq, id?_insert_of_some hi, hinsert]
    split
    · next hs =>
      rw [← hs, hi]
      exact List.getElem?_set_self (lt_of_id? hi)
    · next hs =>
      rw [get?_eq]
      refine Option.bind_congr fun j hj => List.getElem?_set_ne fun hij => hs ?_
      exact Option.some.inj ((names_of_id? (hij ▸ hi)).symm.trans (names_of_id? hj))

/-! ## Registering modules -/

/-- What a registering keeps, a row of them keeps. -/
theorem foldl_insert_induction {P : Registry κ → Prop} (h : ∀ r b, P r → P (r.insert b))
    (bs : List (Builtin κ)) {r : Registry κ} (hr : P r) : P (bs.foldl insert r) := by
  induction bs generalizing r with
  | nil => exact hr
  | cons b bs ih => exact ih (h r b hr)

/-- No name has two functions, however modules were registered. -/
theorem nodup_ofModules (modules : List (Module κ)) : (ofModules modules).names.Nodup := by
  rw [ofModules_eq]
  exact foldl_insert_induction (P := fun r => r.names.Nodup) (fun _ b hr => nodup_insert hr b) _
    List.nodup_nil

/-- Registering functions keeps the names in their order, and may add some. -/
theorem names_extend (bs : List (Builtin κ)) (r : Registry κ) : r.names <+: (bs.foldl insert r).names :=
  foldl_insert_induction (P := fun r' => r.names <+: r'.names)
    (fun r' b h => h.trans (names_insert_extends r' b)) bs List.prefix_rfl

/-- Registering functions never makes a registry smaller. -/
theorem length_le_foldl_insert (bs : List (Builtin κ)) (r : Registry κ) :
    r.builtins.length ≤ (bs.foldl insert r).builtins.length := by
  have h := (names_extend bs r).length_le
  rwa [names, names, List.length_map, List.length_map] at h

/-- A name that has a number keeps it. -/
theorem id?_ofModules_append {modules : List (Module κ)} {s : String} {i : Nat}
    (h : (ofModules modules).id? s = some i) (more : List (Module κ)) :
    (ofModules (modules ++ more)).id? s = some i := by
  rw [id?_eq] at h ⊢
  rw [ofModules_append]
  exact (names_extend (registered more) _).findIdx?_eq_some h

/-- The function of a name is the one registered last, or else the one that was there. -/
theorem get?_foldl_insert (bs : List (Builtin κ)) (r : Registry κ) (s : String) :
    (bs.foldl insert r).get? s = (bs.reverse.find? fun b => b.name == s).or (r.get? s) := by
  induction bs generalizing r with
  | nil => rfl
  | cons b bs ih =>
    rw [List.foldl_cons, ih, get?_insert, List.reverse_cons, List.find?_append, Option.or_assoc]
    by_cases hs : b.name = s <;> simp [hs]

/-- The function of a name is the last one that was registered by this name. -/
theorem get?_ofModules (modules : List (Module κ)) (s : String) :
    (ofModules modules).get? s = (registered modules).reverse.find? fun b => b.name == s := by
  rw [ofModules_eq, get?_foldl_insert]
  exact Option.or_none

/-! ## The compiler's copy -/

/-- A search of the signatures finds the function of a name under the number of the name. -/
theorem entryWhere?_signatures {r : Registry κ} (hn : r.builtins.length ≤ UInt32.size) {s : String}
    {b : Builtin κ} (h : r.get? s = some b) :
    ∃ id, Names.entryWhere? (fun sig => sig.name == s) r.signatures = some (b.signature, id) ∧
      r.id? s = some id.toNat ∧ r.builtins[id.toNat]? = some b := by
  have hlength : r.signatures.length ≤ UInt32.size := by rwa [signatures, List.length_map]
  cases he : Names.entryWhere? (fun sig => sig.name == s) r.signatures with
  | none =>
    have hnone := Names.entryWhere?_eq_none he
    rw [signatures, List.find?_map, Option.map_eq_none_iff] at hnone
    exact nomatch hnone.symm.trans h
  | some entry =>
    obtain ⟨sig, id⟩ := entry
    obtain ⟨hget, -, hfirst⟩ := Names.entryWhere?_eq_some hlength he
    rw [signatures, List.findIdx?_map] at hfirst
    have hid : r.id? s = some id.toNat := hfirst
    have hb : r.builtins[id.toNat]? = some b := by
      rwa [get?_eq, hid] at h
    rw [signatures, List.getElem?_map, hb] at hget
    cases hget
    exact ⟨id, rfl, hid, hb⟩

end Registry

/-! ## Numbers that are written down -/

/-- The functions that a host offers, with the number of each name as it was written down when the name was
first registered. -/
structure Ledger (κ : Type) where
  builtins : List (Builtin κ)
  ids : String → Option UInt32

namespace Ledger

/-- The ledger without functions. -/
def empty : Ledger κ := ⟨[], fun _ => none⟩

/-- Registers a function. -/
def insert (l : Ledger κ) (b : Builtin κ) : Ledger κ :=
  match l.ids b.name with
  | some id => { l with builtins := l.builtins.set id.toNat b }
  | none =>
    ⟨l.builtins ++ [b], Function.update l.ids b.name (some (UInt32.ofNat l.builtins.length))⟩

/-- Registers the functions of modules, one after the other. -/
def ofModules (modules : List (Module κ)) : Ledger κ :=
  modules.foldl (fun l m => m.builtins.foldl insert l) empty

/-- The function with a name. -/
def get? (l : Ledger κ) (s : String) : Option (Builtin κ) :=
  (l.ids s).bind fun id => l.builtins[id.toNat]?

/-- The ledger has the functions of a registry, and has written their numbers down. -/
structure Records (l : Ledger κ) (r : Registry κ) : Prop where
  builtins : l.builtins = r.builtins
  ids : ∀ s, l.ids s = (r.id? s).map UInt32.ofNat

/-- What is written down stays right when a function is registered. -/
theorem records_insert {l : Ledger κ} {r : Registry κ} (h : l.Records r)
    (hn : r.builtins.length ≤ UInt32.size) (b : Builtin κ) : (l.insert b).Records (r.insert b) := by
  cases hi : r.id? b.name with
  | some i =>
    have hid : l.ids b.name = some (UInt32.ofNat i) := by rw [h.ids, hi]; rfl
    have hinsert : r.insert b = ⟨r.builtins.set i b⟩ := by rw [Registry.insert, hi]
    rw [insert, hid]
    dsimp only
    refine ⟨?_, fun s => ?_⟩
    · rw [hinsert, h.builtins,
        UInt32.toNat_ofNat_of_lt' (Nat.lt_of_lt_of_le (Registry.lt_of_id? hi) hn)]
    · rw [Registry.id?_insert_of_some hi]
      exact h.ids s
  | none =>
    have hid : l.ids b.name = none := by rw [h.ids, hi]; rfl
    have hinsert : r.insert b = ⟨r.builtins ++ [b]⟩ := by rw [Registry.insert, hi]
    rw [insert, hid]
    dsimp only
    refine ⟨?_, fun s => ?_⟩
    · rw [hinsert, h.builtins]
    · change Function.update l.ids b.name (some (UInt32.ofNat l.builtins.length)) s = _
      rw [Registry.id?_insert_of_none hi]
      by_cases hs : b.name = s
      · rw [if_pos hs, ← hs, Function.update_self, h.builtins]
        rfl
      · rw [if_neg hs, Function.update_of_ne (Ne.symm hs)]
        exact h.ids s

/-- What is written down stays right when several functions are registered. -/
theorem records_foldl_insert (bs : List (Builtin κ)) {l : Ledger κ} {r : Registry κ} (h : l.Records r)
    (hn : (bs.foldl Registry.insert r).builtins.length ≤ UInt32.size) :
    (bs.foldl insert l).Records (bs.foldl Registry.insert r) := by
  induction bs generalizing l r with
  | nil => exact h
  | cons b bs ih =>
    have hr := Nat.le_trans (Registry.length_le_foldl_insert (b :: bs) r) hn
    exact ih (records_insert h hr b) hn

/-- The ledger that modules make records the registry that they make, as long as there are no more names
than numbers. -/
theorem records_ofModules {modules : List (Module κ)}
    (hn : (Registry.ofModules modules).builtins.length ≤ UInt32.size) :
    (ofModules modules).Records (.ofModules modules) := by
  have hfold (modules : List (Module κ)) (l : Ledger κ) :
      modules.foldl (fun l m => m.builtins.foldl insert l) l =
        (Registry.registered modules).foldl insert l := by
    induction modules generalizing l with
    | nil => rfl
    | cons m modules ih =>
      rw [List.foldl_cons, ih, Registry.registered, Registry.registered, List.flatMap_cons,
        List.foldl_append]
  rw [ofModules, hfold]
  rw [Registry.ofModules_eq] at hn ⊢
  exact records_foldl_insert _ ⟨rfl, fun _ => rfl⟩ hn

/-- A host that writes numbers down finds the functions that the registry has. -/
theorem Records.get?_eq {l : Ledger κ} {r : Registry κ} (h : l.Records r)
    (hn : r.builtins.length ≤ UInt32.size) (s : String) : l.get? s = r.get? s := by
  rw [get?, Registry.get?_eq, h.ids, h.builtins, Option.bind_map]
  refine Option.bind_congr fun i hi => ?_
  rw [Function.comp_apply, UInt32.toNat_ofNat_of_lt' (Nat.lt_of_lt_of_le (Registry.lt_of_id? hi) hn)]

end Ledger

end TickScript
