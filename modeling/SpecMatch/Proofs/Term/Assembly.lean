import Mathlib.Data.List.Induction
import SpecMatch.Proofs.Term.Rebuild

/-!
# Arrays from arbitrary pairs

`Term.rebuild` takes pairs in any order and with repetitions. They make up a map first: of the keys
that are the same the first one stays (`Entries.map_fst_ofPairs`), and the last value counts
(`Entries.get?_ofPairs`). Where an array is wanted, what follows depends on the keys that stay. If
all of them are natural numbers, the values are spread out to an array (`rebuild_natural_keys`); a
single other key makes the result the map itself (`rebuild_other_key`).

Pairs under natural numbers are the first case (`rebuild_numbered`). The array depends on the last
value under each number alone (`Slotted.unique`), so pairs with different numbers may change places.
-/

namespace SpecMatch

/-! ## The last of several pairs -/

/-- The value of the last pair whose key meets a condition. -/
def lastUnder {Key : Type} (meets : Key → Bool) (pairs : List (Key × Term)) : Option Term :=
  (pairs.filter fun p => meets p.1).getLast?.map (·.2)

theorem lastUnder_concat {Key : Type} (meets : Key → Bool) (pairs : List (Key × Term))
    (p : Key × Term) :
    lastUnder meets (pairs ++ [p]) = if meets p.1 then some p.2 else lastUnder meets pairs := by
  rw [lastUnder, List.filter_append]
  cases here : meets p.1 <;> simp [lastUnder, here]

theorem lastUnder_isSome_iff {Key : Type} {meets : Key → Bool} {pairs : List (Key × Term)} :
    (lastUnder meets pairs).isSome ↔ ∃ p ∈ pairs, meets p.1 := by
  rw [lastUnder, Option.isSome_map, List.getLast?_filter, List.find?_isSome]
  simp only [List.mem_reverse]

namespace Entries

/-- The keys that stay when pairs make up a map: of those that are the same, the first. -/
def firstKeys (pairs : Entries) : List Term :=
  (pairs.map (·.1)).eraseDupsBy fun key earlier => earlier.sameKey key

theorem ofPairs_concat (pairs : Entries) (p : Term × Term) :
    ofPairs (pairs ++ [p]) = (ofPairs pairs).insert p.1 p.2 :=
  List.foldl_concat ..

theorem forall_mem_insert {entries : Entries} {P : Term → Prop} (all : ∀ e ∈ entries, P e.1)
    {key : Term} (new : P key) (value : Term) : ∀ e ∈ entries.insert key value, P e.1 := by
  induction entries with
  | nil => simpa [insert] using new
  | cons e rest ih =>
    obtain ⟨here, all⟩ := List.forall_mem_cons.1 all
    rw [insert]
    split
    · exact List.forall_mem_cons.2 ⟨here, all⟩
    · exact List.forall_mem_cons.2 ⟨here, ih all⟩

/-- What holds of the keys of all pairs holds of the keys that stay. -/
theorem forall_mem_ofPairs {pairs : Entries} {P : Term → Prop} (all : ∀ p ∈ pairs, P p.1) :
    ∀ e ∈ ofPairs pairs, P e.1 := by
  induction pairs using List.reverseRecOn with
  | nil => exact nofun
  | append_singleton pairs p ih =>
    rw [ofPairs_concat]
    exact forall_mem_insert (ih fun q mem => all q (List.mem_append_left _ mem))
      (all p (List.mem_append_right _ List.mem_cons_self)) p.2

/-- Of the pairs with the same key the value of the last is found. -/
theorem get?_ofPairs {pairs : Entries} (hashable : ∀ p ∈ pairs, p.1.hashable) (key : Term) :
    (ofPairs pairs).get? key = lastUnder (·.sameKey key) pairs := by
  induction pairs using List.reverseRecOn with
  | nil => rfl
  | append_singleton pairs p ih =>
    have earlier : ∀ q ∈ pairs, q.1.hashable := fun q mem =>
      hashable q (List.mem_append_left _ mem)
    rw [ofPairs_concat, get?_insert (forall_mem_ofPairs (P := (·.hashable)) earlier), ih earlier,
      lastUnder_concat]

/-- Pairs that are inserted one by one add the first of the keys that are not there yet. -/
theorem map_fst_insertAll (pairs entries : Entries) :
    (pairs.foldl (fun es p => es.insert p.1 p.2) entries).map (·.1) =
      entries.map (·.1) ++ ((pairs.map (·.1)).filter fun key =>
        !(entries.map (·.1)).any (·.sameKey key)).eraseDupsBy
          fun key earlier => earlier.sameKey key := by
  -- What is there already stands for the pairs before; only its keys count, and they never change.
  induction pairs generalizing entries with
  | nil => simp
  | cons p rest ih =>
    rw [List.foldl_cons, ih, List.map_cons]
    by_cases there : ∃ e ∈ entries, e.1.sameKey p.1
    · have known : (entries.map (·.1)).any (·.sameKey p.1) := by simpa using there
      rw [map_fst_insert_of_mem there, List.filter_cons_of_neg (by simp [known])]
    · have fresh : ∀ e ∈ entries, ¬ e.1.sameKey p.1 := fun e mem same => there ⟨e, mem, same⟩
      have unknown : (entries.map (·.1)).any (·.sameKey p.1) = false := by simpa using fresh
      rw [insert_of_fresh fresh, List.filter_cons_of_pos (by simp [unknown]),
        List.eraseDupsBy_cons, List.filter_filter, List.map_append, List.append_assoc]
      simp [Bool.and_comm]

theorem map_fst_ofPairs (pairs : Entries) : (ofPairs pairs).map (·.1) = pairs.firstKeys := by
  rw [ofPairs, map_fst_insertAll]
  simp [firstKeys]

end Entries

namespace Term

/-! ## Natural numbers as keys -/

theorem sameKey_natural (n i : Nat) : (Term.int n).sameKey (.int i) = (n == i) := by
  rw [Bool.eq_iff_iff, sameKey_int, beq_iff_eq, Int.natCast_inj]

theorem get?_numbered (slots : List (Nat × Term)) (i : Nat) :
    (numbered slots).get? (.int i) = slots.lookup i := by
  induction slots with
  | nil => rfl
  | cons s rest ih =>
    rw [numbered_cons, Entries.get?_cons, List.lookup_cons, ih, sameKey_natural, Bool.beq_comm]
    cases i == s.1 <;> rfl

theorem lastUnder_numbered (slots : List (Nat × Term)) (i : Nat) :
    lastUnder (·.sameKey (.int i)) (numbered slots) = lastUnder (· == i) slots := by
  rw [lastUnder, numbered, List.filter_map, List.getLast?_map, Option.map_map, lastUnder]
  simp only [Function.comp_def, sameKey_natural]

/-- The largest number under which there is a value is the last position. -/
theorem Slotted.length_eq {slots : List (Nat × Term)} {fill : Term} {items : List Term}
    (h : Slotted (fun i => lastUnder (· == i) slots) fill items) :
    items.length = ((slots.map (·.1)).max?.map (· + 1)).getD 0 := by
  have inside : ∀ i, i < items.length ↔ ∃ n ∈ slots.map (·.1), i ≤ n := fun i => by
    rw [h.lt_length_iff]
    simp only [lastUnder_isSome_iff, beq_iff_eq, List.mem_map]
    constructor
    · rintro ⟨n, le, s, mem, same⟩
      exact ⟨n, ⟨s, mem, same⟩, le⟩
    · rintro ⟨n, ⟨s, mem, same⟩, le⟩
      exact ⟨n, le, s, mem, same⟩
  cases largest : (slots.map (·.1)).max? with
  | none =>
    refine Nat.eq_zero_of_not_pos fun first => ?_
    obtain ⟨n, mem, -⟩ := (inside 0).1 first
    rw [List.max?_eq_none_iff.1 largest] at mem
    cases mem
  | some n =>
    obtain ⟨mem, all⟩ := List.max?_eq_some_iff.1 largest
    have last : n < items.length := (inside n).2 ⟨n, mem, Nat.le_refl n⟩
    have beyond : ¬ n + 1 < items.length := fun next => by
      obtain ⟨m, mem, le⟩ := (inside (n + 1)).1 next
      exact absurd (all m mem) (Nat.not_le_of_lt le)
    exact Nat.le_antisymm (Nat.le_of_not_lt beyond) last

/-! ## Rebuilding an array -/

section

variable {like : Term} {pairs : Entries}

/-- An array is made of the map that the pairs make up, if numbers can be read from its keys. -/
theorem rebuild_array (array : like.form? = some .array)
    (hashable : ∀ p ∈ pairs, p.1.hashable) (spell : Term → String) (fill : Term) :
    rebuild spell like pairs fill = .ok (match indexed? (Entries.ofPairs pairs) with
      | some slots => like.withChildren (spread slots fill)
      | none => .map .plain (Entries.ofPairs pairs)) := by
  rw [rebuild, if_pos (List.all_eq_true.2 hashable)]
  cases like with
  | list | tuple => rfl
  | _ => cases array

/-- If all keys that stay are natural numbers, the last values under them are spread out. The pairs
may have other keys as well: a truth value after the integer that it equals does not stay. -/
theorem rebuild_natural_keys (array : like.form? = some .array)
    (hashable : ∀ p ∈ pairs, p.1.hashable)
    (natural : ∀ key ∈ pairs.firstKeys, ∃ n : Nat, key = .int n) (spell : Term → String)
    (fill : Term) :
    ∃ items, rebuild spell like pairs fill = .ok (like.withChildren items) ∧
      Slotted (fun i => lastUnder (·.sameKey (.int i)) pairs) fill items := by
  have natural : ∀ e ∈ Entries.ofPairs pairs, ∃ n : Nat, e.1 = .int n := fun e mem =>
    natural e.1 (Entries.map_fst_ofPairs pairs ▸ List.mem_map_of_mem mem)
  obtain ⟨slots, kept⟩ := exists_numbered natural
  have values : (fun i : Nat => lastUnder (·.sameKey (.int i)) pairs) =
      fun i => slots.lookup i := by
    funext i
    rw [← Entries.get?_ofPairs hashable, kept, get?_numbered]
  refine ⟨spread slots fill, ?_, values ▸ spread_slotted slots fill⟩
  rw [rebuild_array array hashable, kept, indexed?_numbered]

/-- A single key that stays and is no natural number leaves the map as it is. -/
theorem rebuild_other_key (array : like.form? = some .array)
    (hashable : ∀ p ∈ pairs, p.1.hashable)
    (other : ∃ key ∈ pairs.firstKeys, ∀ n : Nat, key ≠ .int n) (spell : Term → String)
    (fill : Term) :
    rebuild spell like pairs fill = .ok (.map .plain (Entries.ofPairs pairs)) := by
  have unread : indexed? (Entries.ofPairs pairs) = none := by
    obtain ⟨key, stays, other⟩ := other
    refine Option.eq_none_iff_forall_ne_some.2 fun slots read => ?_
    rw [← Entries.map_fst_ofPairs, indexed?_eq_some_iff.1 read] at stays
    obtain ⟨e, mem, rfl⟩ := List.mem_map.1 stays
    obtain ⟨s, -, rfl⟩ := List.mem_map.1 mem
    exact other s.1 rfl
  rw [rebuild_array array hashable, unread]

/-- Pairs under natural numbers always make up an array. -/
theorem rebuild_numbered (array : like.form? = some .array) (slots : List (Nat × Term))
    (spell : Term → String) (fill : Term) :
    ∃ items, rebuild spell like (numbered slots) fill = .ok (like.withChildren items) ∧
      Slotted (fun i => lastUnder (· == i) slots) fill items := by
  have natural : ∀ p ∈ numbered slots, ∃ n : Nat, p.1 = .int n := fun p mem => by
    obtain ⟨s, -, rfl⟩ := List.mem_map.1 mem
    exact ⟨s.1, rfl⟩
  have hashable : ∀ p ∈ numbered slots, p.1.hashable := fun p mem => by
    obtain ⟨n, key⟩ := natural p mem
    rw [key]
    rfl
  have stay : ∀ key ∈ (numbered slots).firstKeys, ∃ n : Nat, key = .int n := fun key stays => by
    rw [← Entries.map_fst_ofPairs] at stays
    obtain ⟨e, mem, rfl⟩ := List.mem_map.1 stays
    exact Entries.forall_mem_ofPairs (P := fun key => ∃ n : Nat, key = .int n) natural e mem
  obtain ⟨items, rebuilt, slotted⟩ := rebuild_natural_keys array hashable stay spell fill
  simp only [lastUnder_numbered] at slotted
  exact ⟨items, rebuilt, slotted⟩

/-- What a map that is made up of pairs finds is the last value under a key that is the same. -/
theorem lookup?_ofPairs (hashable : ∀ p ∈ pairs, p.1.hashable) (key : Term) :
    (Term.map .plain (Entries.ofPairs pairs)).lookup? key = lastUnder (·.sameKey key) pairs := by
  rw [lookup?, Entries.get?_ofPairs hashable]
  split
  · rfl
  next unhashable =>
    refine (Option.not_isSome_iff_eq_none.1 fun found => unhashable ?_).symm
    obtain ⟨p, mem, same⟩ := lastUnder_isSome_iff.1 found
    rw [← hashable_eq_of_same same, hashable p mem]

/-- From pairs under natural numbers an array is rebuilt to an array of its kind. Without pairs it is
empty, else its length is one more than the largest number. It has the last value under each number
and the fill where there is none, and it stays the same if the pairs are listed in another order in
which those with equal numbers follow one another as before.

If a key that stays is no natural number, the result is the map that the pairs make up: it keeps the
first of the keys that are the same, and every key finds the last value under it. -/
theorem rebuild_array_from_pairs (array : like.form? = some .array) (spell : Term → String)
    (fill : Term) :
    (∀ slots : List (Nat × Term), ∃ items,
      rebuild spell like (numbered slots) fill = .ok (like.withChildren items) ∧
      items.length = ((slots.map (·.1)).max?.map (· + 1)).getD 0 ∧
      (∀ i < items.length, items[i]? = some ((lastUnder (· == i) slots).getD fill)) ∧
      ∀ reordered : List (Nat × Term),
        (∀ i, reordered.filter (·.1 == i) = slots.filter (·.1 == i)) →
          rebuild spell like (numbered reordered) fill = .ok (like.withChildren items)) ∧
    ∀ pairs : Entries, (∀ p ∈ pairs, p.1.hashable) →
      (∃ key ∈ pairs.firstKeys, ∀ n : Nat, key ≠ .int n) →
        ∃ entries, rebuild spell like pairs fill = .ok (.map .plain entries) ∧
          entries.map (·.1) = pairs.firstKeys ∧
          ∀ key, (Term.map .plain entries).lookup? key = lastUnder (·.sameKey key) pairs := by
  refine ⟨fun slots => ?_, fun pairs hashable other => ?_⟩
  · obtain ⟨items, rebuilt, slotted⟩ := rebuild_numbered array slots spell fill
    refine ⟨items, rebuilt, slotted.length_eq, slotted.item, fun reordered alike => ?_⟩
    obtain ⟨others, rebuilt', slotted'⟩ := rebuild_numbered array reordered spell fill
    have values : (fun i => lastUnder (· == i) reordered) = fun i => lastUnder (· == i) slots := by
      funext i
      rw [lastUnder, alike, lastUnder]
    rw [rebuilt', slotted.unique (values ▸ slotted')]
  · exact ⟨_, rebuild_other_key array hashable other spell fill, Entries.map_fst_ofPairs pairs,
      lookup?_ofPairs hashable⟩

end

/-- A number that comes twice counts once, with its last value, and a gap is filled. A truth value
that comes before the integer it equals stays as the key, so no array can be made. -/
theorem sparse_and_mixed_pairs_rebuilt :
    let rebuilt (pairs : Entries) := rebuild (fun _ => "") (.tuple [.null]) pairs (.str "-")
    let slots : List (Nat × Term) := [(2, .str "c"), (0, .str "a"), (2, .str "d")]
    let sorted : List (Nat × Term) := [(0, .str "a"), (2, .str "c"), (2, .str "d")]
    let mixed : Entries := [(.bool true, .str "x"), (.int 0, .str "z"), (.int 1, .str "y")]
    ((Term.tuple [.null]).form? = some .array ∧ (∀ p ∈ mixed, p.1.hashable) ∧
      ∃ key ∈ mixed.firstKeys, ∀ n : Nat, key ≠ .int n) ∧
    (∃ items, rebuilt (numbered slots) = .ok (.tuple items) ∧ items.length = 3 ∧
      items[0]? = some (.str "a") ∧ items[1]? = some (.str "-") ∧ items[2]? = some (.str "d") ∧
      rebuilt (numbered sorted) = .ok (.tuple items)) ∧
    ∃ entries, rebuilt mixed = .ok (.map .plain entries) ∧
      entries.map (·.1) = [.bool true, .int 0] ∧
      (Term.map .plain entries).lookup? (.int 1) = some (.str "y") := by
  intro rebuilt slots sorted mixed
  have array : (Term.tuple [.null]).form? = some .array := rfl
  obtain ⟨numbers, any⟩ := rebuild_array_from_pairs array (fun _ => "") (.str "-")
  have hashable : ∀ p ∈ mixed, p.1.hashable := by decide
  have one : (Term.bool true).sameKey (.int 1) := by decide +kernel
  have zero : (Term.bool true).sameKey (.int 0) = false := by decide +kernel
  have other : (Term.int 0).sameKey (.int 1) = false := by decide +kernel
  have own : (Term.int 1).sameKey (.int 1) := by decide +kernel
  have keys : mixed.firstKeys = [.bool true, .int 0] := by
    simp [mixed, Entries.firstKeys, List.eraseDupsBy_cons, one, zero]
  have stays : ∃ key ∈ mixed.firstKeys, ∀ n : Nat, key ≠ .int n :=
    ⟨.bool true, keys ▸ List.mem_cons_self, fun n same => by cases same⟩
  refine ⟨⟨array, hashable, stays⟩, ?_, ?_⟩
  · obtain ⟨items, rebuilt, length, values, reordered⟩ := numbers slots
    have long : items.length = 3 := length
    refine ⟨items, rebuilt, long, values 0 (by omega), values 1 (by omega), values 2 (by omega),
      reordered sorted fun i => ?_⟩
    by_cases first : i = 0
    · rw [first]
      rfl
    · simp [slots, sorted, List.filter_cons, Ne.symm first]
  · obtain ⟨entries, map, first, last⟩ := any mixed hashable stays
    refine ⟨entries, map, first.trans keys, (last (.int 1)).trans ?_⟩
    simp [lastUnder, mixed, one, other, own]

end Term

end SpecMatch
