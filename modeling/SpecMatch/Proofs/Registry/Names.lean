import Mathlib.Data.List.Nodup
import SpecMatch.Proofs.Term.Rebuild
import SpecMatch.Registry.Config

/-!
# The names in a registry

A registry is filled with one target after the other. As long as the names are texts of a length
that is allowed this cannot fail (`addAll_valid`), the last target under a name is the one that
counts (`Extends`), and no name is there twice (`NamedBy`). So the names can be sorted, and they
come out in strictly increasing order (`NamedBy.sorted`).
-/

namespace SpecMatch

/-! ## Sorting texts -/

namespace Term

variable {alike : String → String → Bool} {name : String}

/-- Texts are ordered by their characters. -/
theorem orders?_less_text (a b : String) :
    orders? alike .less (.str a) (.str b) = some (decide (a < b)) := by
  have holds : (compare a b == .lt) = decide (a < b) := by
    rw [Bool.eq_iff_iff, beq_iff_eq, decide_eq_true_iff]
    exact compareOfLessAndEq_eq_lt
  exact congrArg some holds

/-- A text that is not there yet is inserted where it belongs. -/
theorem insertSorted?_texts {texts : List String} (sorted : texts.Pairwise (· < ·))
    (fresh : name ∉ texts) :
    ∃ longer : List String,
      insertSorted? alike (.str name) (texts.map .str) = some (longer.map .str) ∧
      longer.Pairwise (· < ·) ∧ longer.Perm (name :: texts) := by
  induction texts with
  | nil => exact ⟨[name], rfl, List.pairwise_singleton _ _, .refl _⟩
  | cons text rest ih =>
    obtain ⟨first, later⟩ := List.pairwise_cons.1 sorted
    obtain ⟨other, fresh⟩ := not_or.1 (mt List.mem_cons.2 fresh)
    by_cases less : name < text
    · refine ⟨name :: text :: rest, ?_, List.pairwise_cons.2 ⟨?_, sorted⟩, .refl _⟩
      · simp [insertSorted?, orders?_less_text, less]
      · exact List.forall_mem_cons.2 ⟨less, fun t mem => String.lt_trans less (first t mem)⟩
    · obtain ⟨longer, inserted, increasing, perm⟩ := ih later fresh
      refine ⟨text :: longer, ?_, List.pairwise_cons.2 ⟨?_, increasing⟩, ?_⟩
      · simp [insertSorted?, orders?_less_text, less, inserted]
      · intro t mem
        rcases List.mem_cons.1 (perm.subset mem) with rfl | mem
        · exact Std.lt_of_le_of_ne (String.not_lt.1 less) (Ne.symm other)
        · exact first t mem
      · exact (perm.cons text).trans (.swap name text rest)

/-- Texts that differ from one another are sorted without fail. -/
theorem sort?_texts {texts : List String} (nodup : texts.Nodup) :
    ∃ sorted : List String, sort? alike (texts.map .str) = some (sorted.map .str) ∧
      sorted.Pairwise (· < ·) ∧ sorted.Perm texts := by
  -- What is sorted already is joined by the other texts one after the other.
  have onto : ∀ (later done : List String), done.Pairwise (· < ·) → (done ++ later).Nodup →
      ∃ sorted : List String,
        (later.map Term.str).foldlM (fun sorted x => insertSorted? alike x sorted)
          (done.map .str) = some (sorted.map .str) ∧
        sorted.Pairwise (· < ·) ∧ sorted.Perm (done ++ later) := by
    intro later
    induction later with
    | nil => exact fun done sorted _ => ⟨done, rfl, sorted, by rw [List.append_nil]⟩
    | cons text later ih =>
      intro done sorted nodup
      have moved : (done ++ text :: later).Perm ((text :: done) ++ later) := List.perm_middle
      have fresh : text ∉ done := fun mem =>
        (List.nodup_append.1 nodup).2.2 text mem text List.mem_cons_self rfl
      obtain ⟨longer, inserted, increasing, perm⟩ := insertSorted?_texts sorted fresh
      have onward : (done ++ text :: later).Perm (longer ++ later) :=
        moved.trans (perm.symm.append_right later)
      obtain ⟨all, run, result⟩ := ih longer increasing (onward.nodup_iff.1 nodup)
      refine ⟨all, ?_, result.1, result.2.trans onward.symm⟩
      rw [List.map_cons, List.foldlM_cons, inserted]
      exact run
  exact onto texts [] .nil nodup

end Term

namespace Registry

/-! ## Names -/

/-- A name under which something may be registered. -/
def ValidName (name : String) : Prop := name ≠ "" ∧ name.length ≤ nameLimit

instance (name : String) : Decidable (ValidName name) := by
  unfold ValidName
  infer_instance

/-- The registered names, in the order in which they came. -/
structure NamedBy (r : Registry) (names : List String) : Prop where
  keys : r.targets.map (·.1) = names.map Term.str
  nodup : names.Nodup

section

variable {r : Registry} {names : List String}

theorem NamedBy.hashable (named : r.NamedBy names) : ∀ e ∈ r.targets, e.1.hashable := by
  intro e mem
  have key := List.mem_map_of_mem (f := (·.1)) mem
  rw [named.keys] at key
  obtain ⟨name, -, same⟩ := List.mem_map.1 key
  exact same ▸ rfl

/-- A text is the same key as itself alone. -/
theorem sameKey_text_iff {key : Term} {name : String} :
    key.sameKey (.str name) ↔ key = .str name := by
  constructor
  · intro same
    cases key with
    | str s => rw [Term.sameKey_str.1 same]
    | map kind entries => cases kind <;> cases same
    | _ => cases same
  · rintro rfl
    exact Term.sameKey_str.2 rfl

theorem contains_iff_mem (r : Registry) (name : String) :
    r.contains name ↔ .str name ∈ r.targets.map (·.1) := by
  rw [contains, Entries.get?, Option.isSome_map, List.find?_isSome, List.mem_map]
  simp only [sameKey_text_iff]

theorem NamedBy.contains_iff (named : r.NamedBy names) (name : String) :
    r.contains name ↔ name ∈ names := by
  rw [contains_iff_mem, named.keys]
  simp

/-- Putting a target under a name adds the name at the end unless it is there. -/
theorem NamedBy.insert (named : r.NamedBy names) (name : String) (target : Term) :
    ∃ names', NamedBy ⟨r.targets.insert (.str name) target⟩ names' := by
  by_cases there : ∃ e ∈ r.targets, e.1.sameKey (.str name)
  · exact ⟨names, (Entries.map_fst_insert_of_mem there target).trans named.keys, named.nodup⟩
  · have fresh : name ∉ names := fun mem => by
      rw [← named.contains_iff, contains, Entries.get?, Option.isSome_map, List.find?_isSome] at mem
      exact there mem
    refine ⟨names ++ [name], ?_, ?_⟩
    · rw [Entries.insert_of_fresh fun e mem same => there ⟨e, mem, same⟩, List.map_append,
        named.keys, List.map_append]
      rfl
    · exact List.concat_eq_append ▸ named.nodup.concat fresh

/-- The names come out sorted, each of them once. -/
theorem NamedBy.sorted (named : r.NamedBy names) :
    ∃ sorted : List String, r.names = .ok (sorted.map .str) ∧ sorted.Pairwise (· < ·) ∧
      ∀ name, name ∈ sorted ↔ r.contains name := by
  obtain ⟨sorted, run, increasing, perm⟩ := Term.sort?_texts named.nodup
  refine ⟨sorted, ?_, increasing, fun name => ?_⟩
  · rw [Registry.names, named.keys, run]
  · rw [named.contains_iff, perm.mem_iff]

/-- A registry is finished if its names can be listed, and it says which they are. -/
theorem build_apply {listed : List Term} (names : r.names = .ok listed) (w : World) :
    r.build w = .ok r { w with log := w.log.push ⟨.built listed, w.store⟩ } := by
  rw [build, names]
  rfl

end

/-! ## Adding targets -/

section

variable {r : Registry} {name : String}

theorem truthy_text (name : String) : (Term.str name).truthy = decide (name ≠ "") := by
  rw [Term.truthy, Bool.eq_iff_iff, decide_eq_true_iff, Bool.not_eq_true', Ne,
    ← String.isEmpty_iff, Bool.not_eq_true]

theorem add_valid (valid : ValidName name) (target : Term) :
    r.add (.str name) target = .ok ⟨r.targets.insert (.str name) target⟩ := by
  obtain ⟨named, short⟩ := valid
  simp [add, truthy_text, named, Term.length?, Term.hashable, Nat.not_lt.2 short]

theorem add_invalid (invalid : ¬ ValidName name) (target : Term) :
    ∃ flaw, r.add (.str name) target = .error (.invalidName flaw) := by
  by_cases empty : name = ""
  · exact ⟨.empty, by simp [add, truthy_text, empty]⟩
  · have long : nameLimit < name.length := Nat.lt_of_not_le fun short => invalid ⟨empty, short⟩
    exact ⟨.tooLong name.length nameLimit, by
      simp [add, truthy_text, empty, Term.length?, long]⟩

/-- A registry with more targets, each under its name: these are found under their names, and what
was found under other names is still found there. -/
structure Extends (r r' : Registry) (targets : List (String × String)) : Prop where
  named : ∃ names, r'.NamedBy names
  given : ∀ t ∈ targets, r'.targets.get? (.str t.1) = some (.str t.2)
  kept : ∀ name, name ∉ targets.map (·.1) →
    r'.targets.get? (.str name) = r.targets.get? (.str name)

/-- Targets under different valid names are all added. -/
theorem addAll_valid {names : List String} (named : r.NamedBy names)
    {targets : List (String × String)} (distinct : (targets.map (·.1)).Nodup)
    (valid : ∀ t ∈ targets, ValidName t.1) :
    ∃ r', r.addAll targets = .ok r' ∧ r.Extends r' targets := by
  induction targets generalizing r names with
  | nil => exact ⟨r, rfl, ⟨names, named⟩, List.forall_mem_nil _, fun _ _ => rfl⟩
  | cons t rest ih =>
    obtain ⟨first, valid⟩ := List.forall_mem_cons.1 valid
    obtain ⟨fresh, distinct⟩ := List.nodup_cons.1 distinct
    obtain ⟨names', named'⟩ := named.insert t.1 (.str t.2)
    obtain ⟨r', run, later⟩ := ih named' distinct valid
    have added (name : String) :=
      Entries.get?_insert named.hashable (.str t.1) (.str t.2) (.str name)
    refine ⟨r', ?_, later.named, ?_, ?_⟩
    · rw [addAll, List.foldlM_cons, add_valid first]
      exact run
    · refine List.forall_mem_cons.2 ⟨?_, later.given⟩
      rw [later.kept t.1 fresh, added, if_pos (Term.sameKey_str.2 rfl)]
    · intro name absent
      rw [List.map_cons, List.mem_cons, not_or] at absent
      rw [later.kept name absent.2, added, if_neg (mt Term.sameKey_str.1 (Ne.symm absent.1))]

theorem Extends.contains_iff {r' : Registry} {targets : List (String × String)}
    (extended : r.Extends r' targets) (name : String) :
    r'.contains name ↔ name ∈ targets.map (·.1) ∨ r.contains name := by
  by_cases added : name ∈ targets.map (·.1)
  · obtain ⟨t, mem, rfl⟩ := List.mem_map.1 added
    rw [contains, extended.given t mem]
    simp [added]
  · rw [contains, extended.kept name added, or_iff_right added]
    rfl

/-- One name that is not valid is enough to fail. -/
theorem addAll_invalid {targets : List (String × String)}
    (invalid : ∃ t ∈ targets, ¬ ValidName t.1) :
    ∃ flaw, r.addAll targets = .error (.invalidName flaw) := by
  induction targets generalizing r with
  | nil =>
    obtain ⟨t, mem, -⟩ := invalid
    cases mem
  | cons t rest ih =>
    rw [addAll, List.foldlM_cons]
    by_cases first : ValidName t.1
    · obtain ⟨u, mem, other⟩ := invalid
      rcases List.mem_cons.1 mem with rfl | mem
      · exact absurd first other
      · rw [add_valid first]
        exact ih ⟨u, mem, other⟩
    · obtain ⟨flaw, run⟩ := add_invalid (r := r) first (.str t.2)
      rw [run]
      exact ⟨flaw, rfl⟩

end

end Registry

end SpecMatch
