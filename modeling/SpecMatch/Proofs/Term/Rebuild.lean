import SpecMatch.Proofs.Term.Shape
import SpecMatch.Proofs.Term.Slots

/-!
# Rebuilding a container under its own keys

`Term.rebuild` puts a container together from pairs and may fail: the keys have to be hashable, and
nothing can be put together like a scalar. Under the keys of a container that is there already it
never fails, and it does what `Term.withChildren` does (`rebuild_rekeyed`): such keys are hashable
and differ from one another, so no pair replaces another one, and the positions of an array leave no
gap.

A container with other children has the same keys, and a key finds there what has replaced the child
that it finds in the container itself (`lookup?_withChildren_map`).
-/

namespace SpecMatch

namespace Entries

/-- A new key is put at the end. -/
theorem insert_of_fresh {entries : Entries} {key : Term}
    (fresh : ∀ e ∈ entries, ¬ e.1.sameKey key) (value : Term) :
    entries.insert key value = entries ++ [(key, value)] := by
  induction entries with
  | nil => rfl
  | cons e rest ih =>
    obtain ⟨other, fresh⟩ := List.forall_mem_cons.1 fresh
    rw [insert, if_neg other, ih fresh, List.cons_append]

theorem get?_cons (e : Term × Term) (rest : Entries) (asked : Term) :
    get? (e :: rest) asked = if e.1.sameKey asked then some e.2 else get? rest asked := by
  rw [get?, List.find?_cons]
  cases e.1.sameKey asked <;> rfl

/-- What is put under a key is found under the keys that are the same, and nothing else changes. -/
theorem get?_insert {entries : Entries} (hashable : ∀ e ∈ entries, e.1.hashable)
    (key value asked : Term) :
    (entries.insert key value).get? asked =
      if key.sameKey asked then some value else entries.get? asked := by
  induction entries with
  | nil => exact get?_cons (key, value) [] asked
  | cons e rest ih =>
    obtain ⟨here, hashable⟩ := List.forall_mem_cons.1 hashable
    rw [insert, get?_cons]
    by_cases same : e.1.sameKey key
    · have asked_alike : e.1.sameKey asked ↔ key.sameKey asked :=
        ⟨fun h => Term.same_trans ((Term.hashable_eq_of_same same).symm.trans here)
          (Term.same_symm here same) h, fun h => Term.same_trans here same h⟩
      rw [if_pos same, get?_cons]
      simp only [asked_alike]
      split <;> rfl
    · rw [if_neg same, get?_cons, ih hashable]
      by_cases first : e.1.sameKey asked
      · have other : ¬ key.sameKey asked := fun h => by
          have hashable_key : key.hashable := by
            rw [Term.hashable_eq_of_same h, ← Term.hashable_eq_of_same first, here]
          exact same (Term.same_trans here first (Term.same_symm hashable_key h))
        rw [if_pos first, if_neg other, if_pos first]
      · rw [if_neg first, if_neg first]

/-- A key that is there already stays the only one of its kind. -/
theorem map_fst_insert_of_mem {entries : Entries} {key : Term}
    (there : ∃ e ∈ entries, e.1.sameKey key) (value : Term) :
    (entries.insert key value).map (·.1) = entries.map (·.1) := by
  induction entries with
  | nil =>
    obtain ⟨e, mem, -⟩ := there
    cases mem
  | cons e rest ih =>
    rw [insert]
    split
    · rfl
    next other =>
      obtain ⟨d, mem, same⟩ := there
      rcases List.mem_cons.1 mem with rfl | mem
      · exact absurd same other
      · rw [List.map_cons, List.map_cons, ih ⟨d, mem, same⟩]

/-- Pairs with different keys are kept as they are. -/
theorem ofPairs_of_distinct {pairs : Entries}
    (distinct : pairs.Pairwise fun a b => ¬ a.1.sameKey b.1) : ofPairs pairs = pairs := by
  -- What has been inserted so far stands in front of what is still to come.
  have onto : ∀ (later before : Entries),
      (before ++ later).Pairwise (fun a b => ¬ a.1.sameKey b.1) →
        later.foldl (fun entries p => entries.insert p.1 p.2) before = before ++ later := by
    intro later
    induction later with
    | nil => simp
    | cons p later ih =>
      intro before distinct
      have fresh : ∀ e ∈ before, ¬ e.1.sameKey p.1 := fun e mem =>
        (List.pairwise_append.1 distinct).2.2 e mem p List.mem_cons_self
      rw [List.append_cons] at distinct
      rw [List.foldl_cons, insert_of_fresh fresh, ih _ distinct, ← List.append_cons]
  exact onto pairs [] distinct

end Entries

namespace Attributes

/-- A new attribute is put at the end. -/
theorem insert_of_fresh {attributes : Attributes} {name : String}
    (fresh : ∀ a ∈ attributes, a.1 ≠ name) (value : Term) :
    attributes.insert name value = attributes ++ [(name, value)] := by
  induction attributes with
  | nil => rfl
  | cons a rest ih =>
    obtain ⟨other, fresh⟩ := List.forall_mem_cons.1 fresh
    rw [insert, if_neg (by simpa using other), ih fresh, List.cons_append]

/-- Attributes with different names are kept as they are. -/
theorem ofPairs_of_distinct {pairs : Attributes}
    (distinct : pairs.Pairwise fun a b => a.1 ≠ b.1) : ofPairs pairs = pairs := by
  have onto : ∀ (later before : Attributes),
      (before ++ later).Pairwise (fun a b => a.1 ≠ b.1) →
        later.foldl (fun attributes p => attributes.insert p.1 p.2) before = before ++ later := by
    intro later
    induction later with
    | nil => simp
    | cons p later ih =>
      intro before distinct
      have fresh : ∀ a ∈ before, a.1 ≠ p.1 := fun a mem =>
        (List.pairwise_append.1 distinct).2.2 a mem p List.mem_cons_self
      rw [List.append_cons] at distinct
      rw [List.foldl_cons, insert_of_fresh fresh, ih _ distinct, ← List.append_cons]
  exact onto pairs [] distinct

end Attributes

namespace Term

/-! ## Positions -/

theorem length_positions (items : List Term) (start : Nat) :
    (positions start items).length = items.length := by
  rw [← List.length_map (·.2), map_snd_positions]

/-- Other items under the same positions. -/
theorem zipWith_positions {items results : List Term} (length : results.length = items.length)
    (start : Nat) :
    (positions start items).zipWith (fun e r => (e.1, r)) results = positions start results := by
  induction items generalizing results start with
  | nil =>
    cases results with
    | nil => rfl
    | cons _ _ => cases length
  | cons x xs ih =>
    cases results with
    | nil => cases length
    | cons r rs => rw [positions, positions, List.zipWith_cons_cons, ih (Nat.succ.inj length)]

/-- The positions of items, as they are read from the keys. -/
def indices (start : Nat) (items : List Term) : List (Nat × Term) :=
  (List.range' start items.length).zip items

theorem indices_cons (start : Nat) (x : Term) (xs : List Term) :
    indices start (x :: xs) = (start, x) :: indices (start + 1) xs := rfl

theorem positions_eq_numbered (items : List Term) (start : Nat) :
    positions start items = numbered (indices start items) := by
  induction items generalizing start with
  | nil => rfl
  | cons x xs ih => rw [positions, ih, indices_cons, numbered_cons]

theorem lookup_indices (items : List Term) (start i : Nat) :
    (indices start items).lookup (start + i) = items[i]? := by
  induction items generalizing start i with
  | nil => rfl
  | cons x xs ih =>
    rw [indices_cons, List.lookup_cons]
    cases i with
    | zero => simp
    | succ i =>
      have other : (start + (i + 1) == start) = false := by simp
      have later := ih (start + 1) i
      rw [Nat.add_right_comm] at later
      rw [other]
      exact later

/-- Items under all positions from the first leave no gap. -/
theorem spread_indices (items : List Term) (fill : Term) :
    spread (indices 0 items) fill = items := by
  have found : (fun i => (indices 0 items).lookup i) = fun i => items[i]? := by
    funext i
    rw [← lookup_indices items 0 i, Nat.zero_add]
  have slotted := spread_slotted (indices 0 items) fill
  rw [found] at slotted
  refine slotted.unique ⟨fun i => ?_, fun i below => ?_⟩
  · simp only [isSome_getElem?]
    exact ⟨fun below => ⟨i, Nat.le_refl i, below⟩, fun ⟨_, le, below⟩ => Nat.lt_of_le_of_lt le below⟩
  · rw [List.getElem?_eq_getElem below, Option.getD_some]

/-! ## Rebuilding -/

/-- Other children under the keys of a container. -/
def rekeyed (x : Term) (results : List Term) : Entries :=
  x.entries.zipWith (fun e r => (e.1, r)) results

section

variable {x : Term} {results : List Term}

theorem map_fst_rekeyed (length : results.length = x.entries.length) :
    (x.rekeyed results).map (·.1) = x.entries.map (·.1) := by
  unfold rekeyed
  generalize x.entries = entries at length ⊢
  induction entries generalizing results with
  | nil => rfl
  | cons e rest ih =>
    cases results with
    | nil => cases length
    | cons r rs => simp [ih (Nat.succ.inj length)]

/-- The keys stay as they must be. -/
theorem WellKeyed.rekeyed (keyed : x.WellKeyed) (length : results.length = x.entries.length) :
    (∀ p ∈ x.rekeyed results, p.1.hashable) ∧
      (x.rekeyed results).Pairwise fun a b => ¬ a.1.sameKey b.1 := by
  have keys := map_fst_rekeyed length
  constructor
  · intro p mem
    have mem := List.mem_map_of_mem (f := (·.1)) mem
    rw [keys] at mem
    obtain ⟨e, he, same⟩ := List.mem_map.1 mem
    exact same ▸ keyed.hashable e he
  · have distinct : (x.entries.map (·.1)).Pairwise fun a b => ¬ sameKey a b :=
      List.pairwise_map.2 keyed.distinct
    rw [← keys] at distinct
    exact List.pairwise_map.1 distinct

/-- Rebuilding a container under its own keys always succeeds and replaces its children. -/
theorem rebuild_rekeyed (container : x.isContainer) (keyed : x.WellKeyed)
    (length : results.length = x.entries.length) (spell : Term → String) (fill : Term) :
    rebuild spell x (x.rekeyed results) fill = .ok (x.withChildren results) := by
  obtain ⟨hashable, distinct⟩ := keyed.rekeyed length
  unfold rebuild
  rw [if_pos (List.all_eq_true.2 hashable), Entries.ofPairs_of_distinct distinct]
  dsimp only
  cases x with
  | list items | tuple items =>
    have slots : (positions 0 items).zipWith (fun e r => (e.1, r)) results = positions 0 results :=
      zipWith_positions (length.trans (length_positions items 0)) 0
    rw [rekeyed, entries, slots, positions_eq_numbered, indexed?_numbered]
    dsimp only
    rw [spread_indices]
    rfl
  | map kind entries => rfl
  | fields attributes =>
    have texts : (Term.fields attributes).rekeyed results =
        (attributes.zipWith (fun a r => (a.1, r)) results).map fun a => (.str a.1, a.2) := by
      rw [rekeyed, entries, List.zipWith_map_left, List.map_zipWith]
    rw [texts] at distinct ⊢
    have names : (attributes.zipWith (fun a r => (a.1, r)) results).Pairwise
        fun a b => a.1 ≠ b.1 :=
      (List.pairwise_map.1 distinct).imp fun other same => other (sameKey_str.2 same)
    have kept := Attributes.ofPairs_of_distinct names
    rw [List.map_map]
    show Except.ok (Term.fields (Attributes.ofPairs (List.map id _))) = _
    rw [List.map_id, kept]
    rfl
  | _ => cases container

end

/-! ## Other children under the same keys -/

section

variable {x : Term}

theorem entries_withChildren (container : x.isContainer) {children : List Term}
    (length : children.length = x.entries.length) :
    (x.withChildren children).entries = x.rekeyed children := by
  cases x with
  | list items | tuple items =>
    exact (zipWith_positions (length.trans (length_positions items 0)) 0).symm
  | map kind entries => rfl
  | fields attributes =>
    rw [withChildren, rekeyed, entries, entries, List.zipWith_map_left, List.map_zipWith]
  | _ => cases container

/-- Replacing the children keeps the keys as they must be. -/
theorem WellKeyed.withChildren (keyed : x.WellKeyed) (container : x.isContainer)
    {children : List Term} (length : children.length = x.entries.length) :
    (x.withChildren children).WellKeyed where
  hashable := by
    rw [entries_withChildren container length]
    exact (keyed.rekeyed length).1
  distinct := by
    rw [entries_withChildren container length]
    exact (keyed.rekeyed length).2

/-- What stands under the keys of a container if every child is replaced. -/
theorem entries_withChildren_map (container : x.isContainer) (f : Term × Term → Term) :
    (x.withChildren (x.entries.map f)).entries = x.entries.map fun e => (e.1, f e) := by
  rw [entries_withChildren container (List.length_map f), rekeyed, List.zipWith_map_right,
    List.zipWith_self]

theorem getElem?_positions (items : List Term) (start i : Nat) :
    (positions start items)[i]? = items[i]?.map fun v => (.int (start + i : Nat), v) := by
  induction items generalizing start i with
  | nil => rfl
  | cons v rest ih =>
    cases i with
    | zero => rfl
    | succ i =>
      rw [positions, List.getElem?_cons_succ, List.getElem?_cons_succ, ih,
        Nat.add_right_comm start 1 i, Nat.add_assoc]

/-- A key that finds a child finds what has replaced it. -/
theorem lookup?_withChildren_map {key child : Term} (found : x.lookup? key = some child)
    (f : Term × Term → Term) :
    ∃ e ∈ x.entries, e.2 = child ∧ key.sameKey e.1 ∧
      (x.withChildren (x.entries.map f)).lookup? key = some (f e) := by
  unfold lookup? at found
  split at found
  case h_1 items i | h_2 items i =>
    split at found
    next inside =>
      have stands : (positions 0 items)[i.toNat]? = some (.int i, child) := by
        rw [getElem?_positions, found, Nat.zero_add, Int.toNat_of_nonneg inside]
        rfl
      refine ⟨_, List.mem_of_getElem? stands, rfl, sameKey_int.2 rfl, (if_pos inside).trans ?_⟩
      rw [entries, List.getElem?_map, stands]
      rfl
    next => cases found
  case h_3 kind entries =>
    split at found
    next hashable =>
      obtain ⟨e, first, rfl⟩ := Option.map_eq_some_iff.1 found
      have alike := List.find?_some first
      have same : key.sameKey e.1 := same_symm ((hashable_eq_of_same alike).trans hashable) alike
      refine ⟨e, List.mem_of_find?_eq_some first, rfl, same, (if_pos hashable).trans ?_⟩
      rw [Term.entries, List.zipWith_map_right, List.zipWith_self, Entries.get?, List.find?_map]
      exact Option.map_eq_some_iff.2 ⟨_, Option.map_eq_some_iff.2 ⟨e, first, rfl⟩, rfl⟩
    next => cases found
  case h_4 attributes name =>
    obtain ⟨a, first, rfl⟩ := Option.map_eq_some_iff.1 found
    have named : a.1 = name := by simpa using List.find?_some first
    refine ⟨(.str a.1, a.2), List.mem_map_of_mem (List.mem_of_find?_eq_some first), rfl,
      sameKey_str.2 named.symm, ?_⟩
    rw [entries, List.map_map, withChildren, List.zipWith_map_right, List.zipWith_self, lookup?,
      Attributes.get?, List.find?_map]
    exact Option.map_eq_some_iff.2 ⟨_, Option.map_eq_some_iff.2 ⟨a, first, rfl⟩, rfl⟩
  case h_5 => cases found

/-- A container of the same kind with the same keys in the same order, maps read as plain ones. -/
structure SameKeys (x y : Term) : Prop where
  kind : y.classOf = x.asDict.classOf
  keys : y.entries.map (·.1) = x.entries.map (·.1)

theorem SameKeys.withChildren (container : x.isContainer) {children : List Term}
    (length : children.length = x.entries.length) : x.SameKeys (x.withChildren children) where
  kind := by cases x <;> rfl
  keys := by rw [entries_withChildren container length, map_fst_rekeyed length]

end

end Term

end SpecMatch
