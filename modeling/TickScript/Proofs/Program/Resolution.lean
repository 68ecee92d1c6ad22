import TickScript.Program.Lowering
import TickScript.Proofs.Success

/-!
# What names are resolved to

A variable becomes the number of a slot, a called function the number of an entry in a table. These
are the facts about the numbers that everything else rests on: a slot is in its table, and the entry
with the number of a callee is the first with its name, as long as a word can number the table.
-/

namespace TickScript

theorem orUnknown_eq_ok {loc : Location} {found : Option Code} {i : Code} :
    orUnknown loc found = .ok i ↔ found = some i := by
  cases found with
  | none =>
    constructor
    · exact fun h => nomatch h
    · exact fun h => nomatch h
  | some j =>
    constructor
    · intro h
      rw [Except.ok.inj h]
    · intro h
      rw [Option.some.inj h]
      rfl

namespace Names

/-- A slot is in the table, and the first of its name there if the table can be numbered. -/
theorem slot?_eq_some {table : List String} {s : String} {slot : UInt32}
    (h : slot? table s = some slot) :
    ∃ i, slot = UInt32.ofNat i ∧ i < table.length ∧ table.findIdx? (fun t => t == s) = some i := by
  obtain ⟨i, hi, rfl⟩ := Option.map_eq_some_iff.1 h
  exact ⟨i, rfl, (List.findIdx?_eq_some_iff_findIdx_eq.1 hi).1, hi⟩

/-- A slot is a place in the table. -/
theorem slot?_lt {table : List String} {s : String} {slot : UInt32} (h : slot? table s = some slot) :
    slot.toNat < table.length := by
  obtain ⟨i, rfl, hi, -⟩ := slot?_eq_some h
  rw [UInt32.toNat_ofNat']
  exact Nat.lt_of_le_of_lt (Nat.mod_le i _) hi

/-- Looking for an entry with its place finds the entry. -/
theorem find?_eq_map_find?_zipIdx {α : Type} (p : α → Bool) (table : List α) :
    table.find? p = (table.zipIdx.find? fun x => p x.1).map Prod.fst := by
  have h : table.zipIdx.map Prod.fst = table := by simp
  calc table.find? p = (table.zipIdx.map Prod.fst).find? p := by rw [h]
    _ = (table.zipIdx.find? fun x => p x.1).map Prod.fst := List.find?_map ..

/-- The entry that a number was given for is the first that passes the test. -/
theorem entryWhere?_eq_some {α : Type} {p : α → Bool} {table : List α} {a : α} {id : UInt32}
    (hn : table.length ≤ UInt32.size) (h : entryWhere? p table = some (a, id)) :
    table[id.toNat]? = some a ∧ table.find? p = some a ∧ table.findIdx? p = some id.toNat := by
  obtain ⟨⟨a', i⟩, hi, he⟩ := Option.map_eq_some_iff.1 h
  cases he
  have hm : table[i]? = some a := by
    have := List.mem_of_find?_eq_some hi
    rwa [List.mem_zipIdx_iff_getElem?] at this
  have hlt : i < table.length := (List.getElem?_eq_some_iff.1 hm).1
  rw [UInt32.toNat_ofNat_of_lt' (Nat.lt_of_lt_of_le hlt hn)]
  refine ⟨hm, ?_, ?_⟩
  · rw [find?_eq_map_find?_zipIdx, hi]
    rfl
  · rw [List.findIdx?_eq_fst_find?_zipIdx, hi]
    rfl

/-- Where no numbered entry is found there is no entry. -/
theorem entryWhere?_eq_none {α : Type} {p : α → Bool} {table : List α}
    (h : entryWhere? p table = none) : table.find? p = none := by
  rw [find?_eq_map_find?_zipIdx, Option.map_eq_none_iff.1 h]
  rfl

/-- The functions of the script and of the host can be numbered. -/
structure Numbered (ns : Names) : Prop where
  functions : ns.functions.length ≤ UInt32.size
  builtins : ns.builtins.length ≤ UInt32.size

/-- What an accepted call is a call of, with as many arguments as the callee takes: a function of the
script, or else one of the host. -/
theorem resolveCall_eq_ok {ns : Names} (hn : ns.Numbered) {loc : Location} {s : String} {given : Nat}
    {i : Code} (h : ns.resolveCall loc s given = .ok i) :
    (∃ id d, i = .call id ∧ ns.functions.find? (fun d => d.name == s) = some d ∧
        ns.functions[id.toNat]? = some d ∧ UInt32.ofNat d.params.length = UInt32.ofNat given) ∨
      (∃ id b, i = .callBuiltin id ∧ ns.functions.find? (fun d => d.name == s) = none ∧
        ns.builtins.findIdx? (fun b => b.name == s) = some id.toNat ∧
        ns.builtins[id.toNat]? = some b ∧ b.arity = UInt32.ofNat given) := by
  unfold resolveCall at h
  split at h
  · cases h
  · next instr arity hc =>
    -- Neither too few nor too many arguments.
    have harity : arity = UInt32.ofNat given ∧ instr = i := by
      split at h
      · cases h
      · next hfew =>
        split at h
        · cases h
        · next hmany => exact ⟨UInt32.le_antisymm (UInt32.not_lt.1 hfew) (UInt32.not_lt.1 hmany),
            Except.ok.inj h⟩
    obtain ⟨harity, rfl⟩ := harity
    unfold callee? at hc
    split at hc
    · next d id hd =>
      cases hc
      obtain ⟨hget, hfind, -⟩ := entryWhere?_eq_some hn.functions hd
      exact .inl ⟨id, d, rfl, hfind, hget, harity⟩
    · next hd =>
      obtain ⟨⟨b, id⟩, hb, he⟩ := Option.map_eq_some_iff.1 hc
      cases he
      obtain ⟨hget, -, hfirst⟩ := entryWhere?_eq_some hn.builtins hb
      exact .inr ⟨id, b, rfl, entryWhere?_eq_none hd, hfirst, hget, harity⟩

end Names

end TickScript
