import Mathlib.Data.List.Forall2
import SpecMatch.Proofs.Term.Rebuild
import SpecMatch.Proofs.Term.Memory

/-!
# Comparing containers child by child

A container with other children under its own keys is the same as the container itself if and only
if every child is the same as the one that it replaces (`same_withChildren_iff`). Arrays are
compared item by item. The entries of a map and the attributes of a field bag are looked up instead,
and as the keys differ from one another, each entry finds its own counterpart.
-/

namespace SpecMatch.Term

variable {alike : String → String → Bool}

theorem sameItems_iff {as bs : List Term} :
    sameItems alike as bs ↔ as.Forall₂ (fun a b => same alike a b) bs := by
  induction as generalizing bs with
  | nil => cases bs <;> simp [sameItems]
  | cons a as ih => cases bs <;> simp [sameItems, ih]

/-- A plain map is compared with any map entry by entry. -/
theorem same_plain_map (as bs : Entries) (kind : MapKind) :
    same alike (.map .plain as) (.map kind bs) =
      (as.length == bs.length && sameEntries alike as bs) := rfl

/-- What is the only one of its kind is found. -/
theorem find?_of_unique {β : Type} {l : List β} {p : β → Bool} {b : β} (mem : b ∈ l) (holds : p b)
    (unique : ∀ c ∈ l, p c → c = b) : l.find? p = some b := by
  cases found : l.find? p with
  | none => exact absurd holds (List.find?_eq_none.1 found b mem)
  | some c => rw [unique c (List.mem_of_find?_eq_some found) (List.find?_some found)]

/-- Each key of a map finds its own entry, whatever has been recorded. -/
theorem find?_same_key {x : Term} (keyed : x.WellKeyed) {e : Term × Term} (mem : e ∈ x.entries) :
    x.entries.find? (fun b => same alike e.1 b.1) = some e := by
  have hashable := keyed.hashable e mem
  refine find?_of_unique mem (same_refl hashable) fun b hb alike_keys => ?_
  have free : e.1.memoryless || b.1.memoryless :=
    Bool.or_eq_true_iff.2 (.inl (memoryless_of_hashable hashable))
  exact (keyed.eq_of_sameKey_key mem hb (same_of_memoryless free alike_keys)).symm

/-- Each name of a field bag finds its own attribute. -/
theorem find?_same_name {attributes : Attributes} (keyed : (Term.fields attributes).WellKeyed)
    {a : String × Term} (mem : a ∈ attributes) :
    attributes.find? (fun b => a.1 == b.1) = some a := by
  refine find?_of_unique mem (beq_self_eq_true _) fun b hb names => ?_
  have entry {c : String × Term} (hc : c ∈ attributes) :
      (.str c.1, c.2) ∈ (Term.fields attributes).entries := List.mem_map.2 ⟨c, hc, rfl⟩
  have one := keyed.eq_of_sameKey_key (entry hb) (entry mem)
    (sameKey_str.2 (beq_iff_eq.1 names).symm)
  rw [Prod.mk.injEq, Term.str.injEq] at one
  exact Prod.ext one.1 one.2

/-- Entries with other values are found among the entries themselves if each finds its own. -/
theorem sameEntries_zipWith_iff {all entries : Entries} {children : List Term}
    (own : ∀ e ∈ entries, all.find? (fun b => same alike e.1 b.1) = some e)
    (length : children.length = entries.length) :
    sameEntries alike (entries.zipWith (fun e v => (e.1, v)) children) all ↔
      children.Forall₂ (fun c d => same alike c d) (entries.map (·.2)) := by
  induction entries generalizing children with
  | nil =>
    obtain rfl := List.length_eq_zero_iff.1 length
    simp [sameEntries]
  | cons e rest ih =>
    cases children with
    | nil => cases length
    | cons c cs =>
      obtain ⟨first, own⟩ := List.forall_mem_cons.1 own
      rw [List.zipWith_cons_cons, sameEntries, first, Bool.and_eq_true,
        ih own (Nat.succ.inj length), List.map_cons, List.forall₂_cons]

/-- Attributes with other values are found among the attributes themselves if each finds its own. -/
theorem sameAttributes_zipWith_iff {all attributes : Attributes} {children : List Term}
    (own : ∀ a ∈ attributes, all.find? (fun b => a.1 == b.1) = some a)
    (length : children.length = attributes.length) :
    sameAttributes alike (attributes.zipWith (fun a v => (a.1, v)) children) all ↔
      children.Forall₂ (fun c d => same alike c d) (attributes.map (·.2)) := by
  induction attributes generalizing children with
  | nil =>
    obtain rfl := List.length_eq_zero_iff.1 length
    simp [sameAttributes]
  | cons a rest ih =>
    cases children with
    | nil => cases length
    | cons c cs =>
      obtain ⟨first, own⟩ := List.forall_mem_cons.1 own
      rw [List.zipWith_cons_cons, sameAttributes, first, Bool.and_eq_true,
        ih own (Nat.succ.inj length), List.map_cons, List.forall₂_cons]

/-- A container with other children is the same as before if and only if each child is. -/
theorem same_withChildren_iff {x : Term} (container : x.isContainer) (keyed : x.WellKeyed)
    {children : List Term} (length : children.length = x.children.length) :
    same alike (x.withChildren children) x ↔
      children.Forall₂ (fun c d => same alike c d) x.children := by
  cases x with
  | list items =>
    rw [children_list]
    exact sameItems_iff
  | tuple items =>
    rw [children_tuple]
    exact sameItems_iff
  | map kind entries =>
    have length : children.length = entries.length := length.trans (List.length_map _)
    have size : (entries.zipWith (fun e v => (e.1, v)) children).length = entries.length := by
      rw [List.length_zipWith, length, Nat.min_self]
    rw [withChildren, same_plain_map, size, beq_self_eq_true, Bool.true_and]
    exact sameEntries_zipWith_iff (fun e mem => find?_same_key keyed mem) length
  | fields attributes =>
    rw [children_fields] at length ⊢
    have length : children.length = attributes.length := length.trans (List.length_map _)
    have size : (attributes.zipWith (fun a v => (a.1, v)) children).length = attributes.length := by
      rw [List.length_zipWith, length, Nat.min_self]
    rw [withChildren, same, size, beq_self_eq_true, Bool.true_and]
    exact sameAttributes_zipWith_iff (fun a mem => find?_same_name keyed mem) length
  | _ => cases container

end SpecMatch.Term
