import SpecMatch.Proofs.Term.Likeness

/-!
# Null shapes and null values

`Term.nullShape` keeps the containers of a value and puts `null` in the place of every leaf, and
`Term.isNull` asks whether there is nothing but `null` in these places. They are two recursions that
know nothing of one another, and they agree: a value is null exactly if it equals its own null shape
(`isNull_iff_equal_nullShape`). A null shape has the containers of the value it is taken of, of the
same kinds and under the same keys, and nothing else (`HollowedTo`).
-/

namespace SpecMatch.Term

variable {x : Term}

/-! ## Null values -/

theorem areNull_eq_all (items : List Term) : areNull items = items.all isNull := by
  induction items with
  | nil => rfl
  | cons x xs ih => rw [areNull, ih, List.all_cons]

theorem entriesNull_eq_all (entries : Entries) :
    entriesNull entries = (entries.map (·.2)).all isNull := by
  induction entries with
  | nil => rfl
  | cons e rest ih => rw [entriesNull, ih, List.map_cons, List.all_cons]

theorem attributesNull_eq_all (attributes : Attributes) :
    attributesNull attributes = (attributes.map (·.2)).all isNull := by
  induction attributes with
  | nil => rfl
  | cons a rest ih => rw [attributesNull, ih, List.map_cons, List.all_cons]

/-- A container is null if all of its children are; an empty one has none. -/
theorem isNull_container (container : x.isContainer) : x.isNull = x.children.all isNull := by
  cases x with
  | list items => rw [children_list, isNull, areNull_eq_all]
  | tuple items => rw [children_tuple, isNull, areNull_eq_all]
  | map kind entries => exact entriesNull_eq_all entries
  | fields attributes => rw [children_fields, isNull, attributesNull_eq_all]
  | _ => cases container

/-- Of the scalars, `null` alone is null: the false, zero and empty ones are not. -/
theorem isNull_scalar (scalar : x.isContainer = false) : x.isNull ↔ x = .null := by
  cases x with
  | list _ | tuple _ | map _ _ | fields _ => cases scalar
  | _ => simp [isNull]

theorem isNull_nullShape (x : Term) : x.nullShape.isNull := by
  induction x using container_induction with
  | scalar x scalar =>
    rw [nullShape_scalar scalar]
    rfl
  | container x container ih =>
    rw [nullShape_container container, isNull_container (by rwa [isContainer_withChildren]),
      children_withChildren container (List.length_map _), List.all_map]
    exact List.all_eq_true.2 (List.forall_mem_map.2 ih)

/-! ## Shapes -/

/-- The second value has the containers of the first one in the same places, of the same kinds and
under the same keys, and `null` in the place of every leaf. -/
inductive HollowedTo : Term → Term → Prop
  | leaf {x : Term} : x.isContainer = false → HollowedTo x .null
  | container {x y : Term} : x.isContainer → x.SameKeys y →
      x.children.Forall₂ HollowedTo y.children → HollowedTo x y

theorem hollowedTo_nullShape (x : Term) : x.HollowedTo x.nullShape := by
  induction x using container_induction with
  | scalar x scalar =>
    rw [nullShape_scalar scalar]
    exact .leaf scalar
  | container x container ih =>
    have length : (x.children.map nullShape).length = x.children.length := List.length_map _
    rw [nullShape_container container]
    refine .container container
      (.withChildren container (length.trans (List.length_map _))) ?_
    rw [children_withChildren container length, List.forall₂_map_right_iff, List.forall₂_same]
    exact List.forall_mem_map.2 ih

/-- The null shape of a container has the null shape of each child under the key of that child. -/
theorem nullShape_entries (container : x.isContainer) :
    x.nullShape = x.withChildren (x.entries.map fun e => e.2.nullShape) := by
  rw [nullShape_container container, children, List.map_map]
  rfl

/-- Null shapes are keyed as values are. -/
theorem wellKeyed_nullShape (keyed : x.Everywhere WellKeyed) :
    x.nullShape.Everywhere WellKeyed := by
  induction keyed with
  | @intro x here _ ih =>
    cases container : x.isContainer with
    | false =>
      rw [nullShape_scalar container]
      exact .scalar rfl (.scalar rfl)
    | true =>
      rw [nullShape_entries container]
      refine .intro (here.withChildren container (List.length_map _)) ?_
      rw [entries_withChildren_map container]
      exact List.forall_mem_map.2 ih

/-! ## What equals its null shape -/

section

variable {alike : String → String → Bool}

/-- No null shape is a NaN, so it equals what it is the same as. -/
theorem equal_nullShape (x y : Term) : equal alike x.nullShape y = same alike x.nullShape y := by
  cases x <;> rfl

theorem isNull_iff_same_nullShape (keyed : x.Everywhere WellKeyed) :
    x.isNull ↔ same alike x.nullShape x := by
  induction keyed with
  | @intro x here _ ih =>
    cases container : x.isContainer with
    | false =>
      rw [isNull_scalar container, nullShape_scalar container]
      cases x <;> simp [same]
    | true =>
      rw [isNull_container container, nullShape_container container,
        same_withChildren_iff container here (List.length_map _), List.forall₂_map_left_iff,
        List.forall₂_same, List.all_eq_true, children, List.forall_mem_map, List.forall_mem_map]
      exact forall₂_congr ih

/-- A value is null exactly if it equals its null shape. A null shape is null and equals its own
null shape, and it is the value with all leaves hollowed out. -/
theorem isNull_iff_equal_nullShape (x : Term) (keyed : x.Everywhere WellKeyed)
    (alike : String → String → Bool) :
    (x.isNull ↔ equal alike x.nullShape x) ∧
      equal alike x.nullShape.nullShape x.nullShape ∧ x.nullShape.isNull ∧
      x.HollowedTo x.nullShape := by
  refine ⟨?_, ?_, isNull_nullShape x, hollowedTo_nullShape x⟩
  · rw [equal_nullShape]
    exact isNull_iff_same_nullShape keyed
  · rw [equal_nullShape]
    exact (isNull_iff_same_nullShape (wellKeyed_nullShape keyed)).1 (isNull_nullShape x)

/-- A record of nulls in an ordered map, a proxy and a field bag equals its null shape although maps
of other kinds stand there. With a zero among its leaves it does not. -/
theorem nulls_in_mixed_containers :
    let record (leaf : Term) : Term := .map .ordered [(.int 1, .list [.null, .tuple []]),
      (.str "p", .map .proxy [(.bool false, leaf)]),
      (.tuple [.str "k"], .fields [("f", .null)])]
    (∀ leaf, leaf.isContainer = false → (record leaf).Everywhere WellKeyed) ∧
      (record (.int 0)).nullShape = .map .plain [(.int 1, .list [.null, .tuple []]),
        (.str "p", .map .plain [(.bool false, .null)]),
        (.tuple [.str "k"], .fields [("f", .null)])] ∧
      equal (· == ·) (record .null).nullShape (record .null) ∧
      ¬ equal (· == ·) (record (.int 0)).nullShape (record (.int 0)) := by
  intro record
  have keyed (leaf : Term) (scalar : leaf.isContainer = false) :
      (record leaf).Everywhere WellKeyed := by
    refine .intro (of_decide_eq_true rfl) ?_
    simp only [record, entries, List.forall_mem_cons]
    refine ⟨.intro (.array rfl) ?_, .intro (of_decide_eq_true rfl) ?_,
      .intro (of_decide_eq_true rfl) ?_, List.forall_mem_nil _⟩
    · simp only [entries, positions, List.forall_mem_cons]
      exact ⟨.scalar rfl (.scalar rfl), .intro (.array rfl) (List.forall_mem_nil _),
        List.forall_mem_nil _⟩
    · simp only [entries, List.forall_mem_cons]
      exact ⟨.scalar scalar (.scalar scalar), List.forall_mem_nil _⟩
    · simp only [entries, List.map_cons, List.map_nil, List.forall_mem_cons]
      exact ⟨.scalar rfl (.scalar rfl), List.forall_mem_nil _⟩
  exact ⟨keyed, rfl, (isNull_iff_equal_nullShape (record .null) (keyed _ rfl) _).1.1 rfl,
    mt (isNull_iff_equal_nullShape (record (.int 0)) (keyed _ rfl) _).1.2 (by decide)⟩

end

end SpecMatch.Term
