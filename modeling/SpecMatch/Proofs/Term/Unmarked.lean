import SpecMatch.Matcher.Create
import SpecMatch.Proofs.Term.Keys

/-!
# Terms without the missing mark

`Term.parts` lists what a term is put together from, whatever role it has there: items, keys, specs,
handlers, results. A term is unmarked if the missing mark is nowhere in it (`Term.Unmarked`). Taking
an unmarked term apart, putting unmarked terms together and going down a key path never brings the
mark in; only the lookup of a child that is absent does.
-/

namespace SpecMatch

namespace Term

/-- The terms that a term is put together from. -/
def parts : Term → List Term
  | .list items | .tuple items | .oneOf items _ | .allOf items | .anyOf items | .fanout items =>
    items
  | .map _ entries | .dispatcher entries => entries.flatMap fun e => [e.1, e.2]
  | .fields attributes => attributes.map (·.2)
  | .circle part | .square part | .left part | .right part | .comparison _ part | .negation part
  | .maybe part | .strict part | .everyItem part | .someItem part | .keyed part _ _ | .action part
  | .recorder _ part => [part]
  | _ => []

/-- The missing mark is nowhere in a term. -/
inductive Unmarked : Term → Prop
  | intro {x : Term} (present : x ≠ .missing) (below : ∀ y ∈ x.parts, Unmarked y) : Unmarked x

section

variable {x y : Term}

theorem unmarked_iff : x.Unmarked ↔ x ≠ .missing ∧ ∀ y ∈ x.parts, y.Unmarked :=
  ⟨fun ⟨present, below⟩ => ⟨present, below⟩, fun ⟨present, below⟩ => ⟨present, below⟩⟩

theorem Unmarked.present (unmarked : x.Unmarked) : x ≠ .missing := (unmarked_iff.1 unmarked).1

theorem Unmarked.part (unmarked : x.Unmarked) (mem : y ∈ x.parts) : y.Unmarked :=
  (unmarked_iff.1 unmarked).2 y mem

end

/-! ## Forms -/

/-- A term without parts is unmarked unless it is the mark itself. -/
theorem Unmarked.atom {x : Term} (present : x ≠ .missing) (atom : x.parts = []) : x.Unmarked :=
  .intro present (atom ▸ List.forall_mem_nil _)

@[simp] theorem unmarked_null : Unmarked .null := .atom (by simp) rfl

@[simp] theorem unmarked_bool (b : Bool) : (bool b).Unmarked := .atom (by simp) rfl

@[simp] theorem unmarked_int (i : Int) : (int i).Unmarked := .atom (by simp) rfl

@[simp] theorem unmarked_str (s : String) : (str s).Unmarked := .atom (by simp) rfl

@[simp] theorem unmarked_builtin (f : Builtin) : (builtin f).Unmarked := .atom (by simp) rfl

@[simp] theorem unmarked_cls (c : Class) : (cls c).Unmarked := .atom (by simp) rfl

@[simp] theorem unmarked_var (id : Nat) : (var id).Unmarked := .atom (by simp) rfl

@[simp] theorem unmarked_object (handle : Handle) : (object handle).Unmarked := .atom (by simp) rfl

@[simp] theorem unmarked_list {items : List Term} :
    (list items).Unmarked ↔ ∀ x ∈ items, x.Unmarked := by
  simp [unmarked_iff (x := list items), parts]

@[simp] theorem unmarked_tuple {items : List Term} :
    (tuple items).Unmarked ↔ ∀ x ∈ items, x.Unmarked := by
  simp [unmarked_iff (x := tuple items), parts]

/-- The parts of pairs are their two sides. -/
theorem forall_mem_sides {p : Term → Prop} {pairs : List (Term × Term)} :
    (∀ y ∈ pairs.flatMap (fun e => [e.1, e.2]), p y) ↔ ∀ e ∈ pairs, p e.1 ∧ p e.2 := by
  induction pairs with
  | nil => simp
  | cons e rest ih => rw [List.flatMap_cons, List.forall_mem_append, ih]; simp [and_assoc]

@[simp] theorem unmarked_map {kind : MapKind} {entries : Entries} :
    (map kind entries).Unmarked ↔ ∀ e ∈ entries, e.1.Unmarked ∧ e.2.Unmarked := by
  rw [unmarked_iff (x := map kind entries), ← forall_mem_sides]
  exact and_iff_right (by simp)

@[simp] theorem unmarked_dispatcher {cases : List (Term × Term)} :
    (dispatcher cases).Unmarked ↔ ∀ c ∈ cases, c.1.Unmarked ∧ c.2.Unmarked := by
  rw [unmarked_iff (x := dispatcher cases), ← forall_mem_sides]
  exact and_iff_right (by simp)

@[simp] theorem unmarked_fields {attributes : Attributes} :
    (fields attributes).Unmarked ↔ ∀ a ∈ attributes, a.2.Unmarked := by
  simp only [unmarked_iff (x := fields attributes), parts, List.forall_mem_map, ne_eq, reduceCtorEq,
    not_false_eq_true, true_and]

@[simp] theorem unmarked_left {payload : Term} : (left payload).Unmarked ↔ payload.Unmarked := by
  simp [unmarked_iff (x := left payload), parts]

@[simp] theorem unmarked_right {payload : Term} : (right payload).Unmarked ↔ payload.Unmarked := by
  simp [unmarked_iff (x := right payload), parts]

/-! ## Containers -/

section

variable {x : Term}

/-- What stands in an unmarked container is unmarked, and so are the keys. -/
theorem Unmarked.entry (unmarked : x.Unmarked) {e : Term × Term} (mem : e ∈ x.entries) :
    e.1.Unmarked ∧ e.2.Unmarked := by
  cases x with
  | list items | tuple items =>
    obtain ⟨i, found, key⟩ := mem_positions.1 mem
    rw [key]
    exact ⟨unmarked_int _, unmarked.part (List.mem_of_getElem? found)⟩
  | map kind entries => exact unmarked_map.1 unmarked e mem
  | fields attributes =>
    obtain ⟨a, ha, rfl⟩ := List.mem_map.1 mem
    exact ⟨unmarked_str _, unmarked_fields.1 unmarked a ha⟩
  | _ => cases mem

/-- A child that is there is unmarked. -/
theorem Unmarked.lookup (unmarked : x.Unmarked) {key : Term} (found : x.lookup key ≠ .missing) :
    (x.lookup key).Unmarked := by
  unfold Term.lookup at found ⊢
  cases child : x.lookup? key with
  | none =>
    rw [child] at found
    exact absurd rfl found
  | some v =>
    obtain ⟨e, mem, rfl, -⟩ := mem_entries_of_lookup? child
    exact (unmarked.entry mem).2

theorem Unmarked.ability? {attributes : Attributes} (unmarked : (fields attributes).Unmarked)
    {name : String} {function : Term} (found : ability? attributes name = some function) :
    function.Unmarked := by
  unfold Term.ability? at found
  split at found
  · cases found
  · exact unmarked_fields.1 unmarked _ (mem_of_attributes_get? found)

/-- A function that a field bag is read by is one of its attributes. -/
theorem Unmarked.attribute (unmarked : x.Unmarked) {value function : Term}
    (read : x.reading value = .bindAttribute function ∨
      x.reading value = .acceptAttribute function) : function.Unmarked := by
  cases x with
  | fields attributes =>
    have bag : Term.ability? attributes "bind" = some function ∨
        Term.ability? attributes "accepts" = some function := by
      grind [reading]
    exact bag.elim unmarked.ability? unmarked.ability?
  | _ => grind [reading]

/-- Pairs with other second parts have their first part from the one and their second part from the
other sequence. -/
theorem mem_zipWith_snd {κ : Type} {pairs : List (κ × Term)} {children : List Term} {e : κ × Term}
    (mem : e ∈ pairs.zipWith (fun p v => (p.1, v)) children) :
    (∃ p ∈ pairs, p.1 = e.1) ∧ e.2 ∈ children := by
  induction pairs generalizing children with
  | nil => cases mem
  | cons p rest ih =>
    cases children with
    | nil => cases mem
    | cons v children =>
      rcases List.mem_cons.1 mem with rfl | mem
      · exact ⟨⟨p, List.mem_cons_self, rfl⟩, List.mem_cons_self⟩
      · obtain ⟨⟨q, hq, key⟩, child⟩ := ih mem
        exact ⟨⟨q, List.mem_cons_of_mem p hq, key⟩, List.mem_cons_of_mem v child⟩

theorem Unmarked.withChildren (unmarked : x.Unmarked) {children : List Term}
    (each : ∀ y ∈ children, y.Unmarked) : (x.withChildren children).Unmarked := by
  cases x with
  | list items => exact unmarked_list.2 each
  | tuple items => exact unmarked_tuple.2 each
  | map kind entries =>
    refine unmarked_map.2 fun e mem => ?_
    obtain ⟨⟨d, there, key⟩, child⟩ := mem_zipWith_snd mem
    exact ⟨key ▸ (unmarked_map.1 unmarked d there).1, each e.2 child⟩
  | fields attributes =>
    exact unmarked_fields.2 fun a mem => each a.2 (mem_zipWith_snd mem).2
  | _ => exact unmarked

end

/-! ## Key paths -/

section

variable {key : Term} (unmarked : key.Unmarked)
include unmarked

theorem Unmarked.keyPath : ∀ k ∈ key.keyPath, k.Unmarked := by
  unfold Term.keyPath
  split
  · exact List.forall_mem_nil _
  · exact unmarked_tuple.1 unmarked
  · exact List.forall_mem_singleton.2 unmarked

theorem Unmarked.childKey {k : Term} (last : k.Unmarked) : (key.childKey k).Unmarked := by
  unfold Term.childKey
  split
  · exact last
  · exact unmarked_tuple.2
      (List.forall_mem_append.2 ⟨unmarked.keyPath, List.forall_mem_singleton.2 last⟩)

theorem Unmarked.segment (start : Int) (length : Option Int) :
    ∀ k ∈ segment key.keyPath start length, k.Unmarked :=
  fun k mem => unmarked.keyPath k (List.mem_of_mem_take (List.mem_of_mem_drop mem))

theorem Unmarked.cutKey (start : Int) (length : Option Int) :
    (key.cutKey start length).Unmarked := by
  unfold Term.cutKey
  split
  · exact unmarked
  · split
    · exact unmarked_str _
    · exact unmarked_tuple.2 (unmarked.segment start length)
    · exact unmarked_null

end

end Term

/-! ## Verdicts -/

/-- The missing mark is nowhere in a verdict. -/
def Verdict.Unmarked (verdict : Verdict) : Prop := verdict.toTerm.Unmarked

namespace Verdict

theorem unmarked_when {value : Term} (unmarked : value.Unmarked) (accepted : Bool) :
    (when accepted value).Unmarked := by
  cases accepted
  · exact Term.unmarked_left.2 unmarked
  · exact Term.unmarked_right.2 unmarked

theorem unmarked_ofOutcome {outcome value : Term} (result : outcome.Unmarked)
    (unmarked : value.Unmarked) : (ofOutcome outcome value).Unmarked := by
  unfold ofOutcome
  split
  · exact result
  · exact result
  · exact Term.unmarked_left.2 unmarked
  · exact Term.unmarked_right.2 unmarked

end Verdict

end SpecMatch
