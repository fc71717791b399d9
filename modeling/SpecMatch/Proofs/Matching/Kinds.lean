import SpecMatch.Proofs.Matching.Leaves
import SpecMatch.Proofs.Spec.MapForm

/-!
# The kind of a container spec is irrelevant

A match looks at a container spec through its entries alone, so a spec and its map form
(`Term.asMap`) are matched in the same way, at every level of budget (`create_asMap`). Two specs
with the same map form therefore differ in nothing: not in the answer or the fault, not in the
calls, not in the bindings and not in what is told (`create_ignores_kinds`).

A field bag that decides acceptance by an attribute does so for scalars only. A container is matched
against its entries, so there it is as good as a map.
-/

namespace SpecMatch

/-! ## What matching looks at

A spec inside another one is looked at through what `Interp.create` makes of it. -/

section

variable {i : Interp} {spec spec' : Term}

theorem accepts_congr (same : i.create spec' = i.create spec) (value key : Term) (closed : Bool) :
    i.accepts spec' value key closed = i.accepts spec value key closed := by
  rw [Interp.accepts, Interp.accepts, same]

theorem matchEach_congr (same : i.create spec' = i.create spec) (entries : Entries) :
    matchEach i spec' entries = matchEach i spec entries := by
  induction entries with
  | nil => rfl
  | cons e rest ih => rw [matchEach, matchEach, same, ih]

theorem matchSome_congr (same : i.create spec' = i.create spec) (entries : Entries) :
    matchSome i spec' entries = matchSome i spec entries := by
  induction entries with
  | nil => rfl
  | cons e rest ih => rw [matchSome, matchSome, accepts_congr same, ih]

theorem everyItem_congr (same : i.create spec' = i.create spec) :
    everyItem i spec' = everyItem i spec := by
  funext value key
  unfold everyItem
  rw [accepts_congr same, matchEach_congr same]

theorem someItem_congr (same : i.create spec' = i.create spec) :
    someItem i spec' = someItem i spec := by
  funext value key
  unfold someItem
  rw [accepts_congr same, matchSome_congr same]

theorem maybe_congr (same : i.create spec' = i.create spec) : maybe i spec' = maybe i spec := by
  funext value key
  unfold maybe
  rw [same]

variable {f : Term → Term}

theorem allOf_map (same : ∀ spec, i.create (f spec) = i.create spec) (value key : Term)
    (specs : List Term) : allOf i value key (specs.map f) = allOf i value key specs := by
  induction specs with
  | nil => rfl
  | cons spec rest ih => rw [List.map_cons, allOf, allOf, same, ih]

theorem anyOf_map (same : ∀ spec, i.create (f spec) = i.create spec) (value key : Term)
    (specs : List Term) : anyOf i value key (specs.map f) = anyOf i value key specs := by
  induction specs with
  | nil => rfl
  | cons spec rest ih => rw [List.map_cons, anyOf, anyOf, same, ih]

theorem checkEntries_map (same : ∀ spec, i.create (f spec) = i.create spec) (value : Term)
    (entries : Entries) :
    checkEntries i value (entries.map fun e => (e.1, f e.2)) = checkEntries i value entries := by
  induction entries with
  | nil => rfl
  | cons e rest ih =>
    rw [List.map_cons, checkEntries, checkEntries, accepts_congr (same e.2), same, ih]

end

/-! ## Containers -/

/-- Two container specs are matched alike if they have the same keys and what is under these is
matched alike. -/
theorem create_container_congr (ctx : Context) {budget : Nat} {f : Term → Term} {spec spec' : Term}
    (shape : spec.isContainer) (declarative : spec.Declarative) (shape' : spec'.isContainer)
    (declarative' : spec'.Declarative)
    (entries : spec'.entries = spec.entries.map fun e => (e.1, f e.2))
    (same : ∀ spec, (interp ctx budget).create (f spec) = (interp ctx budget).create spec) :
    (interp ctx (budget + 1)).create spec' = (interp ctx (budget + 1)).create spec := by
  funext value key closed
  cases container : value.isContainer with
  | true =>
    rw [create_container ctx budget value key closed shape declarative container,
      create_container ctx budget value key closed shape' declarative' container, matchEntries,
      matchEntries, entries, checkEntries_map same]
  | false =>
    rw [create_container_scalar ctx budget value key closed shape declarative container,
      create_container_scalar ctx budget value key closed shape' declarative' container,
      matchLiteral_container_scalar shape container, matchLiteral_container_scalar shape' container]

/-! ## The map form -/

theorem Term.form?_asMap (x : Term) : x.asMap.form? ≠ some .array := by
  intro array
  cases x with
  | fields attributes =>
    rw [asMap] at array
    split at array <;> cases array
  | keyed path start length =>
    rw [asMap_keyed] at array
    cases array
  | _ => cases array

/-- A path that is no array is matched with the cut key. -/
theorem keyed_other {i : Interp} {path : Term} (other : path.form? ≠ some .array) (start : Int)
    (length : Option Int) (key : Term) :
    keyed i path start length key = i.accepts path (key.cutKey start length) .null := by
  cases path with
  | list specs | tuple specs => exact absurd rfl other
  | _ => rfl

theorem keyed_asMapPath {i : Interp} (inside : ∀ spec, i.create spec.asMap = i.create spec)
    (arrays : ∀ specs, i.create (.list (specs.map Term.asMap)) = i.create (.list specs))
    (path : Term) (start : Int) (length : Option Int) (key : Term) :
    keyed i path.asMapPath start length key = keyed i path start length key := by
  by_cases array : path.form? = some .array
  · cases path with
    | list specs | tuple specs => exact accepts_congr (arrays specs) _ _ _
    | _ => cases array
  · have other : path.asMapPath = path.asMap := by
      cases path with
      | list specs | tuple specs => exact absurd rfl array
      | _ => rfl
    rw [other, keyed_other path.form?_asMap, keyed_other array, accepts_congr (inside path)]

/-- A spec and its map form are matched alike with any budget. -/
theorem create_asMap (ctx : Context) (budget : Nat) (spec : Term) :
    (interp ctx budget).create spec.asMap = (interp ctx budget).create spec := by
  induction budget using Nat.strong_induction_on generalizing spec with
  | _ budget ih =>
  cases budget with
  | zero => rfl
  | succ budget =>
    have inside := ih budget (Nat.lt_succ_self budget)
    have containers {x : Term} (shape : x.isContainer) (declarative : x.Declarative) :
        (interp ctx (budget + 1)).create x.asMap = (interp ctx (budget + 1)).create x := by
      rw [Term.asMap_container shape declarative]
      exact create_container_congr ctx shape declarative rfl trivial rfl inside
    cases spec with
    | list items | tuple items | map kind entries => exact containers rfl trivial
    | fields attributes =>
      by_cases declarative : (Term.fields attributes).Declarative
      · exact containers rfl declarative
      · rw [Term.asMap_fields declarative]
    | allOf specs =>
      funext value key closed
      rw [Term.asMap_allOf, create_allOf, create_allOf, allOf_map inside]
    | anyOf specs =>
      funext value key closed
      rw [Term.asMap_anyOf, create_anyOf, create_anyOf, anyOf_map inside]
    | negation spec =>
      funext value key closed
      rw [Term.asMap, create_negation, create_negation, inside]
    | maybe spec =>
      funext value key closed
      rw [Term.asMap, create_maybe, create_maybe, maybe_congr (inside spec)]
    | strict spec =>
      funext value key closed
      rw [Term.asMap, create_strict, create_strict, inside]
    | everyItem spec =>
      funext value key closed
      rw [Term.asMap, create_everyItem, create_everyItem, everyItem_congr (inside spec)]
    | someItem spec =>
      funext value key closed
      rw [Term.asMap, create_someItem, create_someItem, someItem_congr (inside spec)]
    | keyed path start length =>
      funext value key closed
      rw [Term.asMap_keyed, create_keyed, create_keyed]
      have arrays (specs : List Term) :
          (interp ctx budget).create (.list (specs.map Term.asMap)) =
            (interp ctx budget).create (.list specs) := by
        cases budget with
        | zero => rfl
        | succ below =>
          have further := ih below (Nat.lt_succ_of_lt (Nat.lt_succ_self below))
          exact create_container_congr ctx rfl trivial rfl trivial
            (Term.positions_map Term.asMap specs 0) further
      rw [keyed_asMapPath inside arrays]
    | _ => rfl

/-- The kind of a container spec is irrelevant. Two specs that are the same up to the kinds of the
containers in them are matched alike: to the same answer or fault and the same world. A field bag
that binds or decides acceptance by an attribute is one of a kind, as is the array that is the path
of a key spec; but where the value is a container, a field bag that only decides acceptance is
matched by its entries. -/
theorem create_ignores_kinds (ctx : Context) (value key : Term) (closed : Bool) (w : World) :
    (∀ spec spec' : Term, spec.asMap = spec'.asMap →
      create ctx spec value key closed w = create ctx spec' value key closed w) ∧
    ∀ attributes : Attributes, Term.ability? attributes "bind" = none → value.isContainer →
      create ctx (.fields attributes) value key closed w =
        create ctx (.map .plain (Term.fields attributes).entries) value key closed w := by
  constructor
  · intro spec spec' same
    have map_form (spec : Term) : create ctx spec value key closed w =
        create ctx spec.asMap value key closed w := by
      rw [create_apply, create_apply, Store.budget_congr (spec.asMap_asDeepAs _), create_asMap]
    rw [map_form spec, map_form spec', same]
  · intro attributes noBinder container
    have same_depth : (Term.map .plain (Term.fields attributes).entries).AsDeepAs
        (w.store.varDepth w.store.depth?) (.fields attributes) := .entries rfl
    have is_map : (Term.map .plain (Term.fields attributes).entries).isContainer := rfl
    rw [create_apply, create_apply, Store.budget_congr same_depth]
    cases w.store.budget (.fields attributes) [value, key] with
    | zero => rfl
    | succ budget =>
      have reading : (Term.fields attributes).reading value = .entries := by
        simp [Term.reading, noBinder, container]
      rw [create_succ, createAt, reading,
        create_container ctx budget value key closed is_map trivial container]
      rfl

/-- A record in an array, the path of a key spec, and a variable with a constraint of its own; and a
field bag that could decide acceptance, against a map. -/
theorem record_kinds_make_no_difference :
    let w : World := { store := { cells := #[⟨"x", .tuple [.builtin .isInt], none⟩] } }
    let spec : Term := .list [.fields [("a", .allOf [.var 0, .tuple [.builtin .isInt]])],
      .keyed (.list [.builtin .isInt]) 0 none]
    let spec' : Term := .map .ordered [
      (.int 0, .map .proxy [(.str "a", .allOf [.var 0, .map .plain [(.int 0, .builtin .isInt)]])]),
      (.int 1, .keyed (.tuple [.builtin .isInt]) 0 none)]
    let value : Term := .tuple [.map .plain [(.str "a", .list [.int 1])], .null, .str "more"]
    let bag : Attributes := [("accepts", .builtin .isString)]
    let binds (result : EStateM.Result Fault World Verdict) : Bool :=
      match result with
      | .ok verdict w' => verdict.accepted && (w'.store.cell 0).value.isSome
      | .error .. => false
    spec.asMap = spec'.asMap ∧
      create .bare spec value .null false w = create .bare spec' value .null false w ∧
      binds (create .bare spec value .null false w) ∧
      create .bare (.fields bag) value .null false w =
        create .bare (.map .plain [(.str "accepts", .builtin .isString)]) value .null false w := by
  intro w spec spec' value bag binds
  have same : spec.asMap = spec'.asMap := rfl
  obtain ⟨alike, entries⟩ := create_ignores_kinds .bare value .null false w
  exact ⟨same, alike spec spec' same, by decide +kernel, entries bag rfl rfl⟩

/-- An attribute by which a field bag binds or decides acceptance is more than an entry, and the
array that is a path is more than its entries. -/
theorem some_kinds_matter :
    let accepted (spec value key : Term) : Bool :=
      match create .bare spec value key false {} with
      | .ok verdict _ => verdict.accepted
      | .error .. => false
    accepted (.fields [("bind", .builtin .isInt)]) (.int 5) .null = true ∧
      accepted (.fields [("accepts", .builtin .isInt)]) (.int 5) .null = true ∧
      accepted (.map .plain [(.str "accepts", .builtin .isInt)]) (.int 5) .null = false ∧
      accepted (.map .plain [(.str "bind", .builtin .isInt)]) (.int 5) .null = false ∧
      accepted (.keyed (.list [.int 5]) 0 none) .null (.int 5) = true ∧
      accepted (.keyed (.map .plain [(.int 0, .int 5)]) 0 none) .null (.int 5) = false := by
  decide +kernel

end SpecMatch
