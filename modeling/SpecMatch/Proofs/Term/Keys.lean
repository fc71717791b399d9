import SpecMatch.Proofs.Term.Sameness
import SpecMatch.Term.Container

/-!
# The keys of a container

`Term.entries` lists the children of a container under their keys and `Term.lookup?` finds a child
by a key. The two agree: what is found under a key stands in an entry under the same key
(`mem_entries_of_lookup?`), an entry whose key is the same as the one asked for holds what is found
(`eq_of_lookup?`), and every entry is found under its own key (`WellKeyed.lookup?_eq`). All but the
first need what the makers of maps and field bags guarantee, keys that can be hashed and differ from
one another (`Term.WellKeyed`).
-/

namespace SpecMatch

/-- The unit of the finite doubles tells any two integers apart. -/
theorem Number.ofInt_inj {i j : Int} : Number.ofInt i = Number.ofInt j ↔ i = j := by
  have positive : 0 < Double.unitsPerOne := by
    unfold Double.unitsPerOne
    generalize 1074 = n
    exact Nat.two_pow_pos n
  have units : (Double.unitsPerOne : Int) ≠ 0 := Int.natCast_ne_zero.2 (Nat.ne_of_gt positive)
  constructor
  · intro h
    exact Int.eq_of_mul_eq_mul_right units (Number.units.inj h)
  · rintro rfl
    rfl

namespace Term

theorem sameKey_int {i j : Int} : (Term.int i).sameKey (.int j) ↔ i = j := by
  rw [sameKey, same, beq_iff_eq, number?, Option.some.injEq, Number.ofInt_inj, eq_comm]

theorem sameKey_str {s t : String} : (Term.str s).sameKey (.str t) ↔ s = t := by
  rw [sameKey, same, beq_iff_eq]

/-- What holds of the keys of every container that can be made: they can be hashed, and no two of
them are the same. -/
structure WellKeyed (x : Term) : Prop where
  hashable : ∀ e ∈ x.entries, e.1.hashable
  distinct : x.entries.Pairwise fun a b => ¬ a.1.sameKey b.1

instance (x : Term) : Decidable x.WellKeyed :=
  decidable_of_iff ((∀ e ∈ x.entries, e.1.hashable) ∧
    x.entries.Pairwise fun a b => ¬ a.1.sameKey b.1)
    ⟨fun h => ⟨h.1, h.2⟩, fun h => ⟨h.hashable, h.distinct⟩⟩

/-! ## Positions -/

/-- The entries of an array are its items under their positions. -/
theorem mem_positions {items : List Term} {start : Nat} {e : Term × Term} :
    e ∈ positions start items ↔ ∃ i : Nat, items[i]? = some e.2 ∧ e.1 = .int (start + i : Nat) := by
  induction items generalizing start with
  | nil => simp [positions]
  | cons x xs ih =>
    rw [positions, List.mem_cons, ih]
    constructor
    · rintro (rfl | ⟨i, hi, hk⟩)
      · exact ⟨0, rfl, rfl⟩
      · exact ⟨i + 1, hi, by rw [hk]; congr 2; omega⟩
    · rintro ⟨_ | i, hi, hk⟩
      · exact .inl (Prod.ext hk (Option.some.inj hi).symm)
      · exact .inr ⟨i, hi, by rw [hk]; congr 2; omega⟩

theorem map_snd_positions (items : List Term) (start : Nat) :
    (positions start items).map (·.2) = items := by
  induction items generalizing start with
  | nil => rfl
  | cons x xs ih => rw [positions, List.map_cons, ih]

/-- An array keys its items by their positions, so its keys are as they must be. -/
theorem WellKeyed.array {x : Term} (array : x.form? = some .array) : x.WellKeyed := by
  have entries : ∃ items, x.entries = positions 0 items := by
    cases x with
    | list items | tuple items => exact ⟨items, rfl⟩
    | _ => cases array
  obtain ⟨items, entries⟩ := entries
  refine ⟨fun e mem => ?_, ?_⟩
  · rw [entries] at mem
    obtain ⟨i, -, key⟩ := mem_positions.1 mem
    rw [key]
    rfl
  · rw [entries]
    clear entries
    generalize 0 = start
    induction items generalizing start with
    | nil => exact .nil
    | cons x xs ih =>
      refine .cons (fun e mem same => ?_) (ih (start + 1))
      obtain ⟨i, -, key⟩ := mem_positions.1 mem
      rw [key] at same
      have eq := sameKey_int.1 same
      omega

theorem entries_scalar {x : Term} (scalar : x.isContainer = false) : x.entries = [] := by
  cases x <;> first | rfl | cases scalar

/-- A scalar has no keys. -/
theorem WellKeyed.scalar {x : Term} (scalar : x.isContainer = false) : x.WellKeyed :=
  ⟨entries_scalar scalar ▸ nofun, entries_scalar scalar ▸ .nil⟩

/-! ## Lookup and entries -/

/-- A field bag hands out the attribute that it lists. -/
theorem mem_of_attributes_get? {attributes : Attributes} {name : String} {v : Term}
    (h : attributes.get? name = some v) : (name, v) ∈ attributes := by
  obtain ⟨a, ha, rfl⟩ := Option.map_eq_some_iff.1 h
  have hn : a.1 = name := by simpa using List.find?_some ha
  exact hn ▸ List.mem_of_find?_eq_some ha

/-- What is found under a key stands in an entry under the same key. -/
theorem mem_entries_of_lookup? {x key v : Term} (h : x.lookup? key = some v) :
    ∃ e ∈ x.entries, e.2 = v ∧ key.sameKey e.1 := by
  unfold lookup? at h
  split at h
  case h_1 items i | h_2 items i =>
    split at h
    · refine ⟨(.int i, v), mem_positions.2 ⟨i.toNat, h, ?_⟩, rfl, sameKey_int.2 rfl⟩
      rw [Nat.zero_add, Int.toNat_of_nonneg ‹_›]
    · cases h
  case h_3 kind entries =>
    split at h
    next hashable =>
      obtain ⟨e, found, rfl⟩ := Option.map_eq_some_iff.1 h
      have alike := List.find?_some found
      exact ⟨e, List.mem_of_find?_eq_some found, rfl,
        same_symm ((hashable_eq_of_same alike).trans hashable) alike⟩
    next => cases h
  case h_4 attributes name =>
    refine ⟨(.str name, v), ?_, rfl, sameKey_str.2 rfl⟩
    exact List.mem_map.2 ⟨(name, v), mem_of_attributes_get? h, rfl⟩
  case h_5 => cases h

/-- Two entries of a well-keyed container whose keys are the same are one. -/
theorem WellKeyed.eq_of_sameKey_key {x : Term} (hx : x.WellKeyed) {d e : Term × Term}
    (hd : d ∈ x.entries) (he : e ∈ x.entries) (hde : d.1.sameKey e.1) : d = e := by
  have hed : e.1.sameKey d.1 := same_symm (hx.hashable d hd) hde
  have distinct := hx.distinct
  generalize x.entries = l at hd he distinct
  induction distinct with
  | nil => cases hd
  | cons first _ ih =>
    rcases List.mem_cons.1 hd with rfl | hd'
    · rcases List.mem_cons.1 he with rfl | he'
      · rfl
      · exact absurd hde (first e he')
    · rcases List.mem_cons.1 he with rfl | he'
      · exact absurd hed (first d hd')
      · exact ih hd' he'

/-- Of the entries of a well-keyed container, at most one has a key that is the same as a given
one. -/
theorem WellKeyed.eq_of_sameKey {x key : Term} (hx : x.WellKeyed) {d e : Term × Term}
    (hd : d ∈ x.entries) (he : e ∈ x.entries) (hdk : d.1.sameKey key) (hek : e.1.sameKey key) :
    d = e :=
  hx.eq_of_sameKey_key hd he
    (same_trans (hx.hashable d hd) hdk (same_symm (hx.hashable e he) hek))

/-- What a well-keyed container answers to a key is the child of the entry under that key. -/
theorem eq_of_lookup? {x key v : Term} (hx : x.WellKeyed) {e : Term × Term} (he : e ∈ x.entries)
    (h : x.lookup? key = some v) (hk : key.sameKey e.1) : e.2 = v := by
  obtain ⟨d, hd, rfl, hkd⟩ := mem_entries_of_lookup? h
  have hashable : key.hashable := (hashable_eq_of_same hkd).trans (hx.hashable d hd)
  rw [hx.eq_of_sameKey hd he (same_symm hashable hkd) (same_symm hashable hk)]

/-- Every entry of a well-keyed container is found under its own key. -/
theorem WellKeyed.lookup?_eq {x : Term} (hx : x.WellKeyed) {e : Term × Term}
    (mem : e ∈ x.entries) : x.lookup? e.1 = some e.2 := by
  have hashable := hx.hashable e mem
  have same : e.1.sameKey e.1 := same_refl hashable
  have found : (x.lookup? e.1).isSome := by
    cases x with
    | list items | tuple items =>
      obtain ⟨i, stands, key⟩ := mem_positions.1 mem
      rw [key, Nat.zero_add, lookup?, if_pos (Int.natCast_nonneg i), Int.toNat_natCast, stands]
      rfl
    | map kind entries =>
      rw [lookup?, if_pos hashable, Entries.get?, Option.isSome_map, List.find?_isSome]
      exact ⟨e, mem, same⟩
    | fields attributes =>
      obtain ⟨a, ha, rfl⟩ := List.mem_map.1 mem
      rw [lookup?, Attributes.get?, Option.isSome_map, List.find?_isSome]
      exact ⟨a, ha, beq_self_eq_true _⟩
    | _ => cases mem
  obtain ⟨child, found⟩ := Option.isSome_iff_exists.1 found
  rw [found, eq_of_lookup? hx mem found same]

end Term

end SpecMatch
