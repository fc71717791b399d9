import SpecMatch.Proofs.Term.Nesting
import SpecMatch.Proofs.Term.Rebuild

/-!
# Containers with an entry more

`Term.Gains` relates a container that lacks a key to the one with an entry under this key at its
end: an array grows by the item at the index that is its length, a map by an entry and a field bag
by an attribute. Both answer alike to every other key (`Term.Gains.lookup?_other`), and if the
children of both are replaced, the results are related in the same way (`Term.Gains.withChildren`).
-/

namespace SpecMatch.Term

/-- A container lacks a key, and another one is the same with an entry under this key at its end. -/
inductive Gains (child : Term) : (key x y : Term) → Prop
  | list {items : List Term} :
      Gains child (.int items.length) (.list items) (.list (items ++ [child]))
  | tuple {items : List Term} :
      Gains child (.int items.length) (.tuple items) (.tuple (items ++ [child]))
  | map {key : Term} {kind : MapKind} {entries : Entries} : key.hashable →
      (∀ e ∈ entries, ¬ e.1.sameKey key) →
      Gains child key (.map kind entries) (.map kind (entries ++ [(key, child)]))
  | fields {name : String} {attributes : Attributes} : (∀ a ∈ attributes, a.1 ≠ name) →
      Gains child (.str name) (.fields attributes) (.fields (attributes ++ [(name, child)]))

theorem positions_append (xs ys : List Term) (start : Nat) :
    positions start (xs ++ ys) = positions start xs ++ positions (start + xs.length) ys := by
  induction xs generalizing start with
  | nil => rfl
  | cons x xs ih =>
    rw [List.cons_append, positions, ih, positions, List.length_cons, Nat.add_assoc,
      Nat.add_comm 1, List.cons_append]

/-- The keys that a container keeps when its children are replaced. -/
theorem exists_key_of_mem_zipWith {α : Type} {slots : List (α × Term)} {children : List Term}
    {slot : α × Term} (mem : slot ∈ slots.zipWith (fun e v => (e.1, v)) children) :
    ∃ e ∈ slots, e.1 = slot.1 := by
  rw [← List.map_uncurry_zip_eq_zipWith] at mem
  obtain ⟨⟨e, v⟩, pair, rfl⟩ := List.mem_map.1 mem
  exact ⟨e, (List.of_mem_zip pair).1, rfl⟩

namespace Gains

variable {child key x y : Term} (gains : Gains child key x y)
include gains

theorem containers : x.isContainer ∧ y.isContainer := by
  cases gains <;> exact ⟨rfl, rfl⟩

theorem hashable : key.hashable := by
  cases gains with
  | map hashable _ => exact hashable
  | _ => rfl

theorem entries_eq : y.entries = x.entries ++ [(key, child)] := by
  cases gains with
  | list | tuple =>
    rw [entries, positions_append, Nat.zero_add]
    rfl
  | map => rfl
  | fields => exact List.map_append

/-- No entry that was there has the key. -/
theorem fresh : ∀ e ∈ x.entries, ¬ key.sameKey e.1 := by
  intro e mem same
  have same' : e.1.sameKey key := same_symm gains.hashable same
  cases gains with
  | list | tuple =>
    obtain ⟨i, found, at_i⟩ := mem_positions.1 mem
    obtain ⟨inside, -⟩ := List.getElem?_eq_some_iff.1 found
    rw [at_i, sameKey_int] at same
    omega
  | map _ fresh => exact fresh e mem same'
  | fields fresh =>
    obtain ⟨a, ha, rfl⟩ := List.mem_map.1 mem
    exact fresh a ha (sameKey_str.1 same')

theorem lookup?_lacks : x.lookup? key = none := by
  cases found : x.lookup? key with
  | none => rfl
  | some v =>
    obtain ⟨e, mem, -, same⟩ := mem_entries_of_lookup? found
    exact absurd same (gains.fresh e mem)

theorem lookup?_key : y.lookup? key = some child := by
  cases gains with
  | list | tuple => simp [lookup?]
  | map hashable fresh =>
    have absent := List.find?_eq_none.2 fresh
    have same : key.sameKey key := same_refl hashable
    simp [lookup?, hashable, Entries.get?, List.find?_append, absent, same]
  | @fields name attributes fresh =>
    have absent : attributes.find? (fun a => a.1 == name) = none :=
      List.find?_eq_none.2 fun a mem => by simpa using fresh a mem
    simp [lookup?, Attributes.get?, List.find?_append, absent]

/-- Another key finds what it found before. -/
theorem lookup?_other {other : Term} (different : ¬ key.sameKey other) :
    y.lookup? other = x.lookup? other := by
  cases gains with
  | @list items | @tuple items =>
    cases other with
    | int i =>
      rw [sameKey_int] at different
      simp only [lookup?]
      split
      · next inside =>
        have apart : i.toNat ≠ items.length := by omega
        rcases Nat.lt_or_gt_of_ne apart with before | behind
        · exact List.getElem?_append_left before
        · rw [List.getElem?_eq_none (by simp; omega), List.getElem?_eq_none (by omega)]
      · rfl
    | _ => rfl
  | map =>
    simp [lookup?, Entries.get?, List.find?_append, different]
  | @fields name attributes =>
    cases other with
    | str s =>
      rw [sameKey_str] at different
      simp [lookup?, Attributes.get?, List.find?_append, different]
    | _ => rfl

/-- Other children under the keys of both. -/
theorem withChildren {children : List Term} (length : children.length = x.entries.length)
    (last : Term) :
    Gains last key (x.withChildren children) (y.withChildren (children ++ [last])) := by
  cases gains with
  | @list items | @tuple items =>
    rw [entries, length_positions] at length
    rw [← length]
    constructor
  | @map key kind entries hashable fresh =>
    have length : entries.length = children.length := length.symm
    rw [Term.withChildren, Term.withChildren, List.zipWith_append length]
    refine .map hashable fun slot mem => ?_
    obtain ⟨e, he, same⟩ := exists_key_of_mem_zipWith mem
    exact same ▸ fresh e he
  | @fields name attributes fresh =>
    have length : attributes.length = children.length :=
      (length.trans (List.length_map _)).symm
    rw [Term.withChildren, Term.withChildren, List.zipWith_append length]
    refine .fields fun slot mem => ?_
    obtain ⟨a, ha, same⟩ := exists_key_of_mem_zipWith mem
    exact same ▸ fresh a ha

/-- A container is nested at least as deeply with an entry more. -/
theorem nesting_le : x.nesting ≤ y.nesting := by
  cases gains with
  | list | tuple =>
    simp only [nesting, nestingOfItems_append]
    omega
  | map =>
    simp only [nesting, nestingOfPairs_append]
    omega
  | fields =>
    simp only [nesting, nestingOfAttributes_append]
    omega

end Gains

end SpecMatch.Term
