import SpecMatch.Proofs.Spec.Tree
import SpecMatch.Term.Path

/-!
# What a spec says

`Store.holds` says whether a spec holds of a value, with nothing but truth values: no payloads, no
world, no budget. It is a recursion on the spec that is told what leaves say; the constraints of
variables are followed as `Store.depth?` follows them, so the meaning of a variable is the meaning
of its constraint (`Store.holds_var`).
-/

namespace SpecMatch

namespace Term

/-- Whether the child under a key holds, an absent child being `null` without a key. -/
def childHolds (inner : Term → Term → Bool) (value key : Term) : Bool :=
  match value.lookup key with
  | .missing => inner .null .null
  | child => inner child key

/-- Whether every key of a value is declared by an entry of a spec that has found a child. -/
def declares (spec value : Term) : Bool :=
  value.entries.all fun e =>
    spec.entries.any fun d => d.1.sameKey e.1 && !(value.lookup d.1 matches .missing)

section

variable (leafHolds : Term → Term → Bool) (cellHolds : Nat → Term → Term → Bool)

mutual

/-- Whether a spec holds of a value under a key, given what leaves and variables say. -/
def holdsWith (spec value key : Term) (closed : Bool) : Bool :=
  match spec with
  | .allOf specs => holdsAll specs value key
  | .anyOf specs => holdsAny specs value key
  | .negation spec => !holdsWith spec value key false
  | .maybe spec => value matches .null || holdsWith spec value key false
  | .strict spec => holdsWith spec value key true
  | .everyItem spec =>
    match value with
    | .null => holdsWith spec .null key false
    | _ => value.isContainer && value.entries.all fun e => holdsWith spec e.2 e.1 false
  | .someItem spec =>
    match value with
    | .null => holdsWith spec .null key false
    | _ => value.entries.any fun e => holdsWith spec e.2 e.1 false
  | .keyed path start length =>
    if path.form? == some .array then
      holdsWith path (.tuple (segment key.keyPath start length)) .null true
    else holdsWith path (key.cutKey start length) .null false
  | .var id => cellHolds id value key
  | .list items | .tuple items =>
    value.isContainer && holdsItems 0 items value && (!closed || spec.declares value)
  | .map _ entries =>
    value.isContainer && holdsEntries entries value && (!closed || spec.declares value)
  | .fields attributes =>
    value.isContainer && holdsAttributes attributes value && (!closed || spec.declares value)
  | _ => leafHolds spec value
termination_by structural spec

/-- Whether all specs hold of a value. -/
def holdsAll (specs : List Term) (value key : Term) : Bool :=
  match specs with
  | [] => true
  | spec :: rest => holdsWith spec value key false && holdsAll rest value key
termination_by structural specs

/-- Whether some spec holds of a value. -/
def holdsAny (specs : List Term) (value key : Term) : Bool :=
  match specs with
  | [] => false
  | spec :: rest => holdsWith spec value key false || holdsAny rest value key
termination_by structural specs

/-- Whether every item of a spec holds of the child in its position, counted from `start`. -/
def holdsItems (start : Nat) (items : List Term) (value : Term) : Bool :=
  match items with
  | [] => true
  | x :: xs =>
    childHolds (fun child key => holdsWith x child key false) value (.int start) &&
      holdsItems (start + 1) xs value
termination_by structural items

/-- Whether every entry of a spec holds of the child under its key. -/
def holdsEntries (entries : List (Term × Term)) (value : Term) : Bool :=
  match entries with
  | [] => true
  | (k, x) :: rest =>
    childHolds (fun child key => holdsWith x child key false) value k && holdsEntries rest value
termination_by structural entries

/-- Whether every attribute of a spec holds of the child under its name. -/
def holdsAttributes (attributes : List (String × Term)) (value : Term) : Bool :=
  match attributes with
  | [] => true
  | (n, x) :: rest =>
    childHolds (fun child key => holdsWith x child key false) value (.str n) &&
      holdsAttributes rest value
termination_by structural attributes

end

theorem holdsAll_eq (specs : List Term) (value key : Term) :
    holdsAll leafHolds cellHolds specs value key =
      specs.all fun spec => holdsWith leafHolds cellHolds spec value key false := by
  induction specs with
  | nil => rfl
  | cons spec rest ih => rw [holdsAll, ih, List.all_cons]

theorem holdsAny_eq (specs : List Term) (value key : Term) :
    holdsAny leafHolds cellHolds specs value key =
      specs.any fun spec => holdsWith leafHolds cellHolds spec value key false := by
  induction specs with
  | nil => rfl
  | cons spec rest ih => rw [holdsAny, ih, List.any_cons]

/-- Whether every entry of a container spec holds of the child under its key. -/
def entriesHold (entries : Entries) (value : Term) : Bool :=
  entries.all fun e =>
    childHolds (fun child key => holdsWith leafHolds cellHolds e.2 child key false) value e.1

theorem holdsItems_eq (items : List Term) (value : Term) (start : Nat) :
    holdsItems leafHolds cellHolds start items value =
      entriesHold leafHolds cellHolds (positions start items) value := by
  induction items generalizing start with
  | nil => rfl
  | cons x xs ih =>
    rw [holdsItems, ih]
    rfl

theorem holdsEntries_eq (entries : Entries) (value : Term) :
    holdsEntries leafHolds cellHolds entries value =
      entriesHold leafHolds cellHolds entries value := by
  induction entries with
  | nil => rfl
  | cons e rest ih =>
    rw [holdsEntries, ih]
    rfl

theorem holdsAttributes_eq (attributes : Attributes) (value : Term) :
    holdsAttributes leafHolds cellHolds attributes value =
      entriesHold leafHolds cellHolds (attributes.map fun a => (.str a.1, a.2)) value := by
  induction attributes with
  | nil => rfl
  | cons a rest ih =>
    rw [holdsAttributes, ih]
    rfl

/-- What a container spec says depends on its entries alone. -/
theorem holdsWith_container {spec : Term} (shape : spec.isContainer) (value key : Term)
    (closed : Bool) :
    holdsWith leafHolds cellHolds spec value key closed =
      (value.isContainer && entriesHold leafHolds cellHolds spec.entries value &&
        (!closed || spec.declares value)) := by
  cases spec with
  | list items | tuple items => rw [holdsWith, holdsItems_eq]; rfl
  | map kind entries => rw [holdsWith, holdsEntries_eq]; rfl
  | fields attributes => rw [holdsWith, holdsAttributes_eq]; rfl
  | _ => cases shape

/-- The meaning of a spec depends on the variables in it alone, which are those whose depth is
needed for its own. -/
theorem holdsWith_congr {cellHolds cellHolds' : Nat → Term → Term → Bool}
    {measure : Nat → Option Nat}
    (agree : ∀ id depth, measure id = some depth → cellHolds id = cellHolds' id) {spec : Term}
    {depth : Nat} (deep : spec.depthWith measure = some depth) :
    holdsWith leafHolds cellHolds spec = holdsWith leafHolds cellHolds' spec := by
  induction depth using Nat.strong_induction_on generalizing spec with
  | _ depth ih =>
  have members {specs : List Term} (above : (deepest measure specs).map (1 + ·) = some depth) :
      ∀ x ∈ specs, holdsWith leafHolds cellHolds x = holdsWith leafHolds cellHolds' x := by
    intro x mem
    obtain ⟨a, ha, rfl⟩ := Option.map_eq_some_iff.1 above
    obtain ⟨b, hb, le⟩ := depthWith_of_mem ha mem
    exact ih b (by omega) hb
  have inner {inner : Term} (above : (inner.depthWith measure).map (1 + ·) = some depth) :
      holdsWith leafHolds cellHolds inner = holdsWith leafHolds cellHolds' inner := by
    obtain ⟨a, ha, rfl⟩ := Option.map_eq_some_iff.1 above
    exact ih a (by omega) ha
  funext value key closed
  cases spec with
  | allOf specs =>
    rw [holdsWith, holdsWith, holdsAll_eq, holdsAll_eq, Bool.eq_iff_iff]
    simp only [List.all_eq_true]
    exact forall₂_congr fun x mem => by rw [members deep x mem]
  | anyOf specs =>
    rw [holdsWith, holdsWith, holdsAny_eq, holdsAny_eq, Bool.eq_iff_iff]
    simp only [List.any_eq_true]
    exact exists_congr fun x => and_congr_right fun mem => by rw [members deep x mem]
  | negation spec | maybe spec | strict spec | everyItem spec | someItem spec | keyed spec _ _ =>
    have inner := inner deep
    simp only [holdsWith, inner]
  | list _ | tuple _ | map _ _ | fields _ =>
    rw [depthWith_container rfl] at deep
    rw [holdsWith_container leafHolds cellHolds rfl, holdsWith_container leafHolds cellHolds' rfl]
    congr 2
    unfold entriesHold
    rw [Bool.eq_iff_iff]
    simp only [List.all_eq_true]
    exact forall₂_congr fun e mem => by rw [members deep e.2 (List.mem_map_of_mem mem)]
  | var id => exact congrFun (congrFun (agree id depth deep) value) key
  | _ => rfl

end

end Term

namespace Store

variable (s : Store) (leafHolds : Term → Term → Bool)

/-- The meaning of a variable, given that of its constraint. -/
def varHolds (meaning : Term → Term → Term → Bool → Bool) (id : Nat) (value key : Term) : Bool :=
  (s.cell id).free || meaning (s.cell id).constraint value key false

/-- The meaning of variables that follows at most `links` constraints. -/
def cellHolds : Nat → Nat → Term → Term → Bool
  | 0 => s.varHolds fun _ _ _ _ => false
  | links + 1 => s.varHolds (Term.holdsWith leafHolds (cellHolds links))

/-- Whether a spec holds of a value under a key. No chain of constraints is longer than there are
cells. -/
def holds : (spec value key : Term) → (closed : Bool) → Bool :=
  Term.holdsWith leafHolds (s.cellHolds leafHolds s.cells.size)

/-! ## The meaning form by form -/

section

variable (value key : Term) (closed : Bool)

@[simp] theorem holds_allOf (specs : List Term) :
    s.holds leafHolds (.allOf specs) value key closed =
      specs.all fun spec => s.holds leafHolds spec value key false :=
  Term.holdsAll_eq _ _ specs value key

@[simp] theorem holds_anyOf (specs : List Term) :
    s.holds leafHolds (.anyOf specs) value key closed =
      specs.any fun spec => s.holds leafHolds spec value key false :=
  Term.holdsAny_eq _ _ specs value key

@[simp] theorem holds_negation (spec : Term) :
    s.holds leafHolds (.negation spec) value key closed =
      !s.holds leafHolds spec value key false := rfl

@[simp] theorem holds_maybe_null (spec : Term) :
    s.holds leafHolds (.maybe spec) .null key closed = true := rfl

theorem holds_maybe {value : Term} (notNull : value ≠ .null) (spec : Term) :
    s.holds leafHolds (.maybe spec) value key closed = s.holds leafHolds spec value key false := by
  cases value <;> first | rfl | contradiction

@[simp] theorem holds_strict (spec : Term) :
    s.holds leafHolds (.strict spec) value key closed =
      s.holds leafHolds spec value key true := rfl

@[simp] theorem holds_everyItem_null (spec : Term) :
    s.holds leafHolds (.everyItem spec) .null key closed =
      s.holds leafHolds spec .null key false := rfl

theorem holds_everyItem {value : Term} (notNull : value ≠ .null) (spec : Term) :
    s.holds leafHolds (.everyItem spec) value key closed =
      (value.isContainer && value.entries.all fun e => s.holds leafHolds spec e.2 e.1 false) := by
  cases value <;> first | rfl | contradiction

@[simp] theorem holds_someItem_null (spec : Term) :
    s.holds leafHolds (.someItem spec) .null key closed =
      s.holds leafHolds spec .null key false := rfl

theorem holds_someItem {value : Term} (notNull : value ≠ .null) (spec : Term) :
    s.holds leafHolds (.someItem spec) value key closed =
      value.entries.any fun e => s.holds leafHolds spec e.2 e.1 false := by
  cases value <;> first | rfl | contradiction

/-- A path that is an array is a closed spec for the segment of the path of the key. -/
theorem holds_keyed_array {path : Term} (array : path.form? = some .array) (start : Int)
    (length : Option Int) :
    s.holds leafHolds (.keyed path start length) value key closed =
      s.holds leafHolds path (.tuple (segment key.keyPath start length)) .null true :=
  if_pos (by simp [array])

/-- Any other path is a spec for the key, cut as a whole. -/
theorem holds_keyed {path : Term} (notArray : path.form? ≠ some .array) (start : Int)
    (length : Option Int) :
    s.holds leafHolds (.keyed path start length) value key closed =
      s.holds leafHolds path (key.cutKey start length) .null false :=
  if_neg (by simpa using notArray)

/-- A container spec holds of containers whose children it holds of, and of no others if it is
closed and there is a key that it does not declare. -/
theorem holds_container {spec : Term} (shape : spec.isContainer) :
    s.holds leafHolds spec value key closed =
      (value.isContainer &&
        (spec.entries.all fun e => Term.childHolds
          (fun child key => s.holds leafHolds e.2 child key false) value e.1) &&
        (!closed || spec.declares value)) :=
  Term.holdsWith_container _ _ shape value key closed

end

/-! ## The meaning of variables -/

/-- The meaning of a variable does not change any more once its depth is known. -/
theorem cellHolds_succ {links id depth : Nat} (known : s.measured links id = some depth) :
    s.cellHolds leafHolds links id = s.cellHolds leafHolds (links + 1) id := by
  funext value key
  induction links generalizing id depth value key with
  | zero =>
    unfold measured varDepth at known
    split at known
    · next free => simp only [cellHolds, varHolds, free, Bool.true_or]
    · cases known
  | succ links ih =>
    unfold measured varDepth at known
    split at known
    · next free => simp only [cellHolds, varHolds, free, Bool.true_or]
    · obtain ⟨a, ha, -⟩ := Option.map_eq_some_iff.1 known
      have agree := Term.holdsWith_congr leafHolds (fun id depth known =>
        funext fun value => funext fun key => ih known value key) ha
      rw [cellHolds, varHolds, agree]
      rfl

/-- The meaning of a variable is that of its constraint. -/
theorem holds_var {id depth : Nat} (known : s.depth? (.var id) = some depth) (value key : Term)
    (closed : Bool) :
    s.holds leafHolds (.var id) value key closed =
      ((s.cell id).free || s.holds leafHolds (s.constraint id) value key false) := by
  rw [depth?, s.depthWithin?_eq] at known
  exact congrFun (congrFun (s.cellHolds_succ leafHolds known) value) key

end Store

end SpecMatch
