import Mathlib.Algebra.Order.BigOperators.Group.Finset
import Mathlib.Data.Finset.Card
import SpecMatch.Matcher.Create
import SpecMatch.Proofs.Term.Nesting

/-!
# Depth follows constraints to their end

`Store.depth?` follows constraints only as often as there are variables. That is often enough:
whatever more links would measure is measured already, because each further link must bring in a
variable that was not measured before (`Store.stable_or_card`). So the depth of a spec satisfies
the equation that one expects of it (`Store.depth?_eq`): a variable is one level above its
constraint.

No chain of constraints goes through a variable twice, so the depth of a spec is bounded by its
nesting and that of all constraints together (`Store.depth?_le`).
-/

namespace SpecMatch

/-- One measure of variables extends another. -/
def Extends (measure measure' : Nat → Option Nat) : Prop :=
  ∀ id depth, measure id = some depth → measure' id = some depth

namespace Term

section

variable {measure measure' : Nat → Option Nat}

theorem deepestEntry_eq (entries : List (Term × Term)) :
    deepestEntry measure entries = deepest measure (entries.map (·.2)) := by
  induction entries with
  | nil => rfl
  | cons e rest ih =>
    rw [deepestEntry, ih]
    rfl

theorem deepestAttribute_eq (attributes : List (String × Term)) :
    deepestAttribute measure attributes = deepest measure (attributes.map (·.2)) := by
  induction attributes with
  | nil => rfl
  | cons a rest ih =>
    rw [deepestAttribute, ih]
    rfl

/-- A container is one level above its deepest child. -/
theorem depthWith_container {x : Term} (container : x.isContainer) :
    depthWith measure x = (deepest measure x.children).map (1 + ·) := by
  cases x with
  | list items | tuple items =>
    rw [children, entries, map_snd_positions]
    rfl
  | map kind entries =>
    rw [children, Term.entries, ← deepestEntry_eq]
    rfl
  | fields attributes =>
    rw [children, Term.entries, List.map_map]
    show _ = (deepest measure (attributes.map (·.2))).map (1 + ·)
    rw [← deepestAttribute_eq]
    rfl
  | _ => cases container

/-- The larger of two depths is known if both are. -/
theorem max_eq_some {a? b? : Option Nat} {depth : Nat} :
    (do let a ← a?; return max a (← b?)) = some depth ↔
      ∃ a b, a? = some a ∧ b? = some b ∧ max a b = depth := by
  cases a? with
  | none => exact ⟨nofun, fun ⟨_, _, h, _⟩ => nomatch h⟩
  | some a =>
    cases b? with
    | none => exact ⟨nofun, fun ⟨_, _, _, h, _⟩ => nomatch h⟩
    | some b =>
      constructor
      · intro h
        exact ⟨a, b, rfl, rfl, Option.some.inj h⟩
      · rintro ⟨_, _, ⟨⟩, ⟨⟩, rfl⟩
        rfl

theorem deepest_cons_eq_some {x : Term} {xs : List Term} {depth : Nat} :
    deepest measure (x :: xs) = some depth ↔
      ∃ a b, depthWith measure x = some a ∧ deepest measure xs = some b ∧ max a b = depth :=
  max_eq_some

/-- No member of a sequence is deeper than the deepest. -/
theorem depthWith_of_mem {xs : List Term} {depth : Nat}
    (deepest_eq : deepest measure xs = some depth) {x : Term} (mem : x ∈ xs) :
    ∃ a, depthWith measure x = some a ∧ a ≤ depth := by
  induction xs generalizing depth with
  | nil => cases mem
  | cons y ys ih =>
    obtain ⟨a, b, ha, hb, rfl⟩ := deepest_cons_eq_some.1 deepest_eq
    rcases List.mem_cons.1 mem with rfl | mem
    · exact ⟨a, ha, Nat.le_max_left a b⟩
    · obtain ⟨c, hc, le⟩ := ih hb mem
      exact ⟨c, hc, Nat.le_trans le (Nat.le_max_right a b)⟩

/-- A sequence whose members all have a depth has a deepest one. -/
theorem exists_deepest {xs : List Term} (each : ∀ x ∈ xs, ∃ a, depthWith measure x = some a) :
    ∃ depth, deepest measure xs = some depth := by
  induction xs with
  | nil => exact ⟨0, rfl⟩
  | cons x xs ih =>
    obtain ⟨a, ha⟩ := each x List.mem_cons_self
    obtain ⟨b, hb⟩ := ih fun y mem => each y (List.mem_cons_of_mem x mem)
    exact ⟨max a b, deepest_cons_eq_some.2 ⟨a, b, ha, hb, rfl⟩⟩

mutual

/-- A measure that knows more variables measures what the other one does. -/
theorem depthWith_extends (ext : Extends measure measure') : ∀ (x : Term) (depth : Nat),
    depthWith measure x = some depth → depthWith measure' x = some depth
  | .allOf specs, _, h | .anyOf specs, _, h | .list specs, _, h | .tuple specs, _, h => by
    obtain ⟨a, ha, rfl⟩ := Option.map_eq_some_iff.1 h
    exact Option.map_eq_some_iff.2 ⟨a, deepest_extends ext specs a ha, rfl⟩
  | .negation spec, _, h | .maybe spec, _, h | .strict spec, _, h | .everyItem spec, _, h
  | .someItem spec, _, h | .keyed spec _ _, _, h => by
    obtain ⟨a, ha, rfl⟩ := Option.map_eq_some_iff.1 h
    exact Option.map_eq_some_iff.2 ⟨a, depthWith_extends ext spec a ha, rfl⟩
  | .map _ entries, _, h => by
    obtain ⟨a, ha, rfl⟩ := Option.map_eq_some_iff.1 h
    exact Option.map_eq_some_iff.2 ⟨a, deepestEntry_extends ext entries a ha, rfl⟩
  | .fields attributes, _, h => by
    obtain ⟨a, ha, rfl⟩ := Option.map_eq_some_iff.1 h
    exact Option.map_eq_some_iff.2 ⟨a, deepestAttribute_extends ext attributes a ha, rfl⟩
  | .var id, depth, h => ext id depth h
  | .null, _, h | .bool _, _, h | .int _, _, h | .float _, _, h | .str _, _, h | .bytes _, _, h
  | .missing, _, h | .circle _, _, h | .square _, _, h | .left _, _, h | .right _, _, h
  | .cls _, _, h | .builtin _, _, h | .comparison .., _, h | .oneOf .., _, h | .action _, _, h
  | .fanout _, _, h | .dispatcher _, _, h | .recorder .., _, h | .object _, _, h
  | .foreign .., _, h => h

theorem deepest_extends (ext : Extends measure measure') : ∀ (xs : List Term) (depth : Nat),
    deepest measure xs = some depth → deepest measure' xs = some depth
  | [], _, h => h
  | x :: xs, _, h => by
    obtain ⟨a, b, ha, hb, rfl⟩ := deepest_cons_eq_some.1 h
    exact deepest_cons_eq_some.2
      ⟨a, b, depthWith_extends ext x a ha, deepest_extends ext xs b hb, rfl⟩

theorem deepestEntry_extends (ext : Extends measure measure') :
    ∀ (entries : List (Term × Term)) (depth : Nat),
      deepestEntry measure entries = some depth → deepestEntry measure' entries = some depth
  | [], _, h => h
  | (_, v) :: rest, _, h => by
    obtain ⟨a, b, ha, hb, rfl⟩ := max_eq_some.1 h
    exact max_eq_some.2
      ⟨a, b, depthWith_extends ext v a ha, deepestEntry_extends ext rest b hb, rfl⟩

theorem deepestAttribute_extends (ext : Extends measure measure') :
    ∀ (attributes : List (String × Term)) (depth : Nat),
      deepestAttribute measure attributes = some depth →
        deepestAttribute measure' attributes = some depth
  | [], _, h => h
  | (_, v) :: rest, _, h => by
    obtain ⟨a, b, ha, hb, rfl⟩ := max_eq_some.1 h
    exact max_eq_some.2
      ⟨a, b, depthWith_extends ext v a ha, deepestAttribute_extends ext rest b hb, rfl⟩

end

end

section

variable {measure : Nat → Option Nat} {bound : Nat}

mutual

/-- A spec is at most as deep as it is nested, and as what is below its variables. -/
theorem depthWith_le_nesting
    (within : ∀ id depth, measure id = some depth → depth ≤ bound + 1) :
    ∀ (x : Term) (depth : Nat), depthWith measure x = some depth → depth ≤ x.nesting + bound
  | .allOf specs, _, h | .anyOf specs, _, h | .list specs, _, h | .tuple specs, _, h => by
    obtain ⟨a, ha, rfl⟩ := Option.map_eq_some_iff.1 h
    have le := deepest_le_nesting within specs a ha
    rw [nesting]
    omega
  | .negation spec, _, h | .maybe spec, _, h | .strict spec, _, h | .everyItem spec, _, h
  | .someItem spec, _, h | .keyed spec _ _, _, h => by
    obtain ⟨a, ha, rfl⟩ := Option.map_eq_some_iff.1 h
    have le := depthWith_le_nesting within spec a ha
    rw [nesting]
    omega
  | .map _ entries, _, h => by
    obtain ⟨a, ha, rfl⟩ := Option.map_eq_some_iff.1 h
    have le := deepestEntry_le_nesting within entries a ha
    rw [nesting]
    omega
  | .fields attributes, _, h => by
    obtain ⟨a, ha, rfl⟩ := Option.map_eq_some_iff.1 h
    have le := deepestAttribute_le_nesting within attributes a ha
    rw [nesting]
    omega
  | .var id, depth, h => (within id depth h).trans (Nat.le_of_eq (Nat.add_comm bound 1))
  | .null, _, h | .bool _, _, h | .int _, _, h | .float _, _, h | .str _, _, h | .bytes _, _, h
  | .missing, _, h | .circle _, _, h | .square _, _, h | .left _, _, h | .right _, _, h
  | .cls _, _, h | .builtin _, _, h | .comparison .., _, h | .oneOf .., _, h | .action _, _, h
  | .fanout _, _, h | .dispatcher _, _, h | .recorder .., _, h | .object _, _, h
  | .foreign .., _, h => by
    obtain rfl := Option.some.inj h
    exact Nat.le_add_right_of_le (nesting_pos _)

theorem deepest_le_nesting
    (within : ∀ id depth, measure id = some depth → depth ≤ bound + 1) :
    ∀ (xs : List Term) (depth : Nat), deepest measure xs = some depth →
      depth ≤ nestingOfItems xs + bound
  | [], _, h => by
    obtain rfl := Option.some.inj h
    exact Nat.zero_le _
  | x :: xs, _, h => by
    obtain ⟨a, b, ha, hb, rfl⟩ := deepest_cons_eq_some.1 h
    have first := depthWith_le_nesting within x a ha
    have later := deepest_le_nesting within xs b hb
    rw [nestingOfItems]
    omega

theorem deepestEntry_le_nesting
    (within : ∀ id depth, measure id = some depth → depth ≤ bound + 1) :
    ∀ (entries : List (Term × Term)) (depth : Nat), deepestEntry measure entries = some depth →
      depth ≤ nestingOfPairs entries + bound
  | [], _, h => by
    obtain rfl := Option.some.inj h
    exact Nat.zero_le _
  | (k, v) :: rest, _, h => by
    obtain ⟨a, b, ha, hb, rfl⟩ := max_eq_some.1 h
    have first := depthWith_le_nesting within v a ha
    have later := deepestEntry_le_nesting within rest b hb
    rw [nestingOfPairs]
    omega

theorem deepestAttribute_le_nesting
    (within : ∀ id depth, measure id = some depth → depth ≤ bound + 1) :
    ∀ (attributes : List (String × Term)) (depth : Nat),
      deepestAttribute measure attributes = some depth →
        depth ≤ nestingOfAttributes attributes + bound
  | [], _, h => by
    obtain rfl := Option.some.inj h
    exact Nat.zero_le _
  | (n, v) :: rest, _, h => by
    obtain ⟨a, b, ha, hb, rfl⟩ := max_eq_some.1 h
    have first := depthWith_le_nesting within v a ha
    have later := deepestAttribute_le_nesting within rest b hb
    rw [nestingOfAttributes]
    omega

end

end

end Term

namespace Store

variable (s : Store)

/-- The depth of a variable, given how deep its constraint is. -/
def varDepth (constraintDepth : Term → Option Nat) (id : Nat) : Option Nat :=
  if (s.cell id).free then some 1 else (constraintDepth (s.cell id).constraint).map (1 + ·)

/-- The depths of variables that are found by following at most `links` constraints. -/
def measured : Nat → Nat → Option Nat
  | 0 => s.varDepth fun _ => none
  | links + 1 => s.varDepth (Term.depthWith (measured links))

theorem depthWithin?_eq (links : Nat) :
    s.depthWithin? links = Term.depthWith (s.measured links) := by
  induction links with
  | zero => rfl
  | succ links ih =>
    rw [depthWithin?, ih]
    rfl

theorem varDepth_extends {constraintDepth constraintDepth' : Term → Option Nat}
    (ext : ∀ x depth, constraintDepth x = some depth → constraintDepth' x = some depth) :
    Extends (s.varDepth constraintDepth) (s.varDepth constraintDepth') := by
  intro id depth h
  unfold varDepth at h ⊢
  split at h
  · rw [if_pos ‹_›]
    exact h
  · rw [if_neg ‹_›]
    obtain ⟨a, ha, rfl⟩ := Option.map_eq_some_iff.1 h
    rw [ext _ a ha]
    rfl

theorem measured_extends (links : Nat) : Extends (s.measured links) (s.measured (links + 1)) := by
  induction links with
  | zero => exact s.varDepth_extends fun _ _ => nofun
  | succ links ih => exact s.varDepth_extends (Term.depthWith_extends ih)

/-- The variables whose depth is found by following at most `links` constraints. -/
def measurable (links : Nat) : Finset Nat :=
  (Finset.range s.cells.size).filter fun id => (s.measured links id).isSome

theorem measurable_subset (links : Nat) : s.measurable links ⊆ s.measurable (links + 1) := by
  intro id mem
  obtain ⟨range, some⟩ := Finset.mem_filter.1 mem
  obtain ⟨depth, h⟩ := Option.isSome_iff_exists.1 some
  exact Finset.mem_filter.2
    ⟨range, Option.isSome_iff_exists.2 ⟨depth, s.measured_extends links id depth h⟩⟩

/-- A variable that is not there has no constraint, so its depth is known at once. -/
theorem lt_of_measured_eq_none {links id : Nat} (unknown : s.measured links id = none) :
    id < s.cells.size := by
  by_contra outside
  have free : (s.cell id).free = true := by
    rw [cell, Array.getElem?_eq_none (Nat.not_lt.1 outside)]
    rfl
  cases links <;> simp [measured, varDepth, free] at unknown

/-- If a further link finds the depth of no further variable, it finds nothing at all. -/
theorem measured_eq_of_measurable_eq {links : Nat}
    (eq : s.measurable (links + 1) = s.measurable links) :
    s.measured (links + 1) = s.measured links := by
  funext id
  cases known : s.measured links id with
  | some depth => exact s.measured_extends links id depth known
  | none =>
    by_contra further
    have range := Finset.mem_range.2 (s.lt_of_measured_eq_none known)
    have mem : id ∈ s.measurable (links + 1) :=
      Finset.mem_filter.2 ⟨range, Option.isSome_iff_ne_none.2 further⟩
    rw [eq] at mem
    have known' := (Finset.mem_filter.1 mem).2
    rw [known] at known'
    cases known'

/-- Either a further link finds nothing, or every link so far has found a variable of its own. -/
theorem stable_or_card (links : Nat) :
    s.measured (links + 1) = s.measured links ∨ links < (s.measurable (links + 1)).card := by
  induction links with
  | zero =>
    by_cases eq : s.measurable 1 = s.measurable 0
    · exact .inl (s.measured_eq_of_measurable_eq eq)
    · have growth := Finset.card_lt_card
        (Finset.ssubset_iff_subset_ne.2 ⟨s.measurable_subset 0, Ne.symm eq⟩)
      exact .inr (Nat.zero_lt_of_lt growth)
  | succ links ih =>
    rcases ih with stable | growth
    · exact .inl (congrArg (fun measure => s.varDepth (Term.depthWith measure)) stable)
    · by_cases eq : s.measurable (links + 2) = s.measurable (links + 1)
      · exact .inl (s.measured_eq_of_measurable_eq eq)
      · have further := Finset.card_lt_card
          (Finset.ssubset_iff_subset_ne.2 ⟨s.measurable_subset (links + 1), Ne.symm eq⟩)
        exact .inr (Nat.lt_of_le_of_lt growth further)

/-- The depth of a spec: a variable is one level above its constraint. -/
theorem depth?_eq : s.depth? = Term.depthWith (s.varDepth s.depth?) := by
  have stable : s.measured (s.cells.size + 1) = s.measured s.cells.size := by
    rcases s.stable_or_card s.cells.size with stable | growth
    · exact stable
    · have bound := Finset.card_le_card
        (Finset.filter_subset (fun id => (s.measured (s.cells.size + 1) id).isSome)
          (Finset.range s.cells.size))
      rw [Finset.card_range] at bound
      exact absurd growth (Nat.not_lt.2 bound)
  have depth : s.depth? = Term.depthWith (s.measured s.cells.size) :=
    s.depthWithin?_eq s.cells.size
  rw [depth]
  exact congrArg Term.depthWith stable.symm

/-! ## Depths and nesting -/

/-- The nesting of the constraints of some variables, with a level for each variable. -/
def nestingBelow (ids : Finset Nat) : Nat := ∑ id ∈ ids, (1 + (s.cell id).constraint.nesting)

theorem nestingBelow_cells : s.nestingBelow (Finset.range s.cells.size) = s.constraintNesting := by
  have total (cells : List Cell) : ∑ id ∈ Finset.range cells.length,
      (1 + (cells[id]?.getD default).constraint.nesting) =
        cells.length + Term.totalNesting (cells.map (·.constraint)) := by
    induction cells with
    | nil => rfl
    | cons c cells ih =>
      rw [List.length_cons, Finset.sum_range_succ', List.map_cons, Term.totalNesting]
      simp only [List.getElem?_cons_succ, ih]
      simp only [List.getElem?_cons_zero, Option.getD_some]
      omega
  have total := total s.cells.toList
  simp only [Array.getElem?_toList, Array.length_toList] at total
  exact total

/-- What following constraints finds is bounded by the constraints on the way. -/
theorem measured_le (links : Nat) (id depth : Nat) (known : s.measured links id = some depth) :
    depth ≤ s.nestingBelow (s.measurable links) + 1 := by
  induction links generalizing id depth with
  | zero =>
    unfold measured varDepth at known
    split at known
    · cases known
      exact Nat.le_add_left 1 _
    · cases known
  | succ links ih =>
    have grown : s.nestingBelow (s.measurable links) ≤ s.nestingBelow (s.measurable (links + 1)) :=
      Finset.sum_le_sum_of_subset (s.measurable_subset links)
    cases before : s.measured links id with
    | some depth' =>
      have same := s.measured_extends links id depth' before
      rw [known] at same
      cases same
      exact (ih id depth before).trans (Nat.succ_le_succ grown)
    | none =>
      -- A variable that is found only now brings its own constraint along.
      have outside : id ∉ s.measurable links := by simp [measurable, before]
      have inside : id ∈ s.measurable (links + 1) := by
        simp [measurable, known, s.lt_of_measured_eq_none before]
      have brought : s.nestingBelow (insert id (s.measurable links)) ≤
          s.nestingBelow (s.measurable (links + 1)) :=
        Finset.sum_le_sum_of_subset
          (Finset.insert_subset inside (s.measurable_subset links))
      rw [nestingBelow, Finset.sum_insert outside, ← nestingBelow] at brought
      unfold measured varDepth at known
      split at known
      · cases known
        exact Nat.le_add_left 1 _
      · obtain ⟨below, deep, rfl⟩ := Option.map_eq_some_iff.1 known
        have le := Term.depthWith_le_nesting ih _ below deep
        omega

/-- The depth of a spec is bounded by the nesting of the spec and of all constraints. -/
theorem depth?_le {spec : Term} {depth : Nat} (deep : s.depth? spec = some depth) :
    depth ≤ spec.nesting + s.constraintNesting := by
  rw [depth?, depthWithin?_eq] at deep
  have below : s.nestingBelow (s.measurable s.cells.size) ≤ s.constraintNesting := by
    rw [← nestingBelow_cells]
    exact Finset.sum_le_sum_of_subset (Finset.filter_subset _ _)
  have le := Term.depthWith_le_nesting (s.measured_le s.cells.size) spec depth deep
  omega

end Store

end SpecMatch
