import Mathlib.Data.List.Forall2
import SpecMatch.Proofs.Term.Nesting

/-!
# Shapes

`Term.withChildren` replaces the children of a container and keeps everything else, so taking the
children of the result gives them back (`children_withChildren`), and replacing them twice is
replacing them once (`withChildren_withChildren`). What is defined by recursion over a value, such
as `Term.nullShape`, is a replacement of children by what becomes of them.

`Term.Everywhere` says that a property holds of a value and of everything in it.
-/

namespace SpecMatch

namespace Term

/-- A property holds of a value and of all that it contains. -/
inductive Everywhere (p : Term → Prop) : Term → Prop
  | intro {x : Term} : p x → (∀ e ∈ x.entries, Everywhere p e.2) → Everywhere p x

theorem Everywhere.here {p : Term → Prop} {x : Term} (h : x.Everywhere p) : p x := by
  cases h with
  | intro here _ => exact here

theorem Everywhere.child {p : Term → Prop} {x : Term} (h : x.Everywhere p) {e : Term × Term}
    (mem : e ∈ x.entries) : e.2.Everywhere p := by
  cases h with
  | intro _ below => exact below e mem

/-- A scalar contains nothing. -/
theorem Everywhere.scalar {p : Term → Prop} {x : Term} (scalar : x.isContainer = false)
    (here : p x) : x.Everywhere p :=
  .intro here (entries_scalar scalar ▸ List.forall_mem_nil _)

/-- No part of a value is the missing mark. -/
abbrev Present (value : Term) : Prop := value.Everywhere (· ≠ .missing)

theorem present_null : Present .null := .scalar rfl nofun

theorem Present.child {value key child : Term} (present : value.Present)
    (found : value.lookup? key = some child) : child.Present := by
  obtain ⟨e, mem, rfl, -⟩ := mem_entries_of_lookup? found
  exact Everywhere.child present mem

/-! ## Replacing children -/

/-- The keys that a sequence of entries keeps when it is given other values. -/
theorem map_snd_zipWith {κ : Type} {entries : List (κ × Term)} {children : List Term}
    (length : children.length = entries.length) :
    (entries.zipWith (fun e v => (e.1, v)) children).map (·.2) = children := by
  induction entries generalizing children with
  | nil =>
    cases children with
    | nil => rfl
    | cons _ _ => cases length
  | cons e rest ih =>
    cases children with
    | nil => cases length
    | cons c cs => simp [ih (Nat.succ.inj length)]

theorem zipWith_zipWith {κ : Type} {entries : List (κ × Term)} {children others : List Term}
    (length : children.length = entries.length) :
    (entries.zipWith (fun e v => (e.1, v)) children).zipWith (fun e v => (e.1, v)) others =
      entries.zipWith (fun e v => (e.1, v)) others := by
  induction entries generalizing children others with
  | nil => rfl
  | cons e rest ih =>
    cases children with
    | nil => cases length
    | cons c cs =>
      cases others with
      | nil => rfl
      | cons o os => simp [ih (Nat.succ.inj length)]

theorem zipWith_map_snd {κ : Type} (entries : List (κ × Term)) (f : Term → Term) :
    entries.zipWith (fun e v => (e.1, v)) ((entries.map (·.2)).map f) =
      entries.map fun e => (e.1, f e.2) := by
  induction entries with
  | nil => rfl
  | cons e rest ih =>
    rw [List.map_cons, List.map_cons, List.zipWith_cons_cons, ih]
    simp

section

variable {x : Term}

theorem children_list (items : List Term) : (Term.list items).children = items :=
  map_snd_positions items 0

theorem children_tuple (items : List Term) : (Term.tuple items).children = items :=
  map_snd_positions items 0

theorem children_fields (attributes : Attributes) :
    (Term.fields attributes).children = attributes.map (·.2) := by
  rw [children, entries, List.map_map]
  rfl

@[simp] theorem isContainer_withChildren (x : Term) (children : List Term) :
    (x.withChildren children).isContainer = x.isContainer := by
  cases x <;> rfl

theorem children_withChildren (container : x.isContainer) {children : List Term}
    (length : children.length = x.children.length) :
    (x.withChildren children).children = children := by
  cases x with
  | list items => exact children_list children
  | tuple items => exact children_tuple children
  | map kind entries => exact map_snd_zipWith (length.trans (List.length_map _))
  | fields attributes =>
    rw [children_fields] at length
    rw [withChildren, children_fields]
    exact map_snd_zipWith (length.trans (List.length_map _))
  | _ => cases container

theorem withChildren_withChildren {children : List Term}
    (length : children.length = x.children.length) (others : List Term) :
    (x.withChildren children).withChildren others = x.withChildren others := by
  cases x with
  | map kind entries =>
    exact congrArg (Term.map .plain) (zipWith_zipWith (length.trans (List.length_map _)))
  | fields attributes =>
    rw [children_fields] at length
    exact congrArg Term.fields (zipWith_zipWith (length.trans (List.length_map _)))
  | _ => rfl

end

/-- What stands to the entries of a value one by one is as many as its children are. -/
theorem length_children_of_forall₂ {β : Type} {R : Term × Term → β → Prop} {x : Term} {bs : List β}
    (each : x.entries.Forall₂ R bs) : bs.length = x.children.length :=
  each.length_eq.symm.trans (List.length_map _).symm

/-- Replacing every child by what a function makes of it, form by form. -/
theorem withChildren_map (x : Term) (f : Term → Term) :
    x.withChildren (x.children.map f) =
      match x with
      | .list items => .list (items.map f)
      | .tuple items => .tuple (items.map f)
      | .map _ entries => .map .plain (entries.map fun e => (e.1, f e.2))
      | .fields attributes => .fields (attributes.map fun a => (a.1, f a.2))
      | x => x := by
  cases x with
  | list items => rw [children_list, withChildren]
  | tuple items => rw [children_tuple, withChildren]
  | map kind entries => exact congrArg (Term.map .plain) (zipWith_map_snd entries f)
  | fields attributes => rw [children_fields, withChildren, zipWith_map_snd]
  | _ => rfl

/-- A function on sequences that goes through them element by element is a map. -/
theorem eq_map_of_cons {α β : Type} {f : α → β} {g : List α → List β} (nil : g [] = [])
    (cons : ∀ x xs, g (x :: xs) = f x :: g xs) (xs : List α) : g xs = xs.map f := by
  induction xs with
  | nil => exact nil
  | cons x xs ih => rw [cons, ih, List.map_cons]

/-! ## Null shapes -/

theorem nullShape_scalar {x : Term} (scalar : x.isContainer = false) : x.nullShape = .null := by
  cases x <;> first | rfl | cases scalar

/-- The null shape of a container has the null shapes of its children. -/
theorem nullShape_container {x : Term} (container : x.isContainer) :
    x.nullShape = x.withChildren (x.children.map nullShape) := by
  rw [withChildren_map]
  cases x with
  | list items | tuple items =>
    rw [nullShape, eq_map_of_cons (g := nullItems) rfl fun _ _ => rfl]
  | map kind entries => rw [nullShape, eq_map_of_cons (g := nullEntries) rfl fun _ _ => rfl]
  | fields attributes =>
    rw [nullShape, eq_map_of_cons (g := nullAttributes) rfl fun _ _ => rfl]
  | _ => cases container

theorem nullShape_withChildren {x : Term} (container : x.isContainer) {children : List Term}
    (length : children.length = x.children.length) :
    (x.withChildren children).nullShape = x.withChildren (children.map nullShape) := by
  rw [nullShape_container (by rwa [isContainer_withChildren]),
    children_withChildren container length, withChildren_withChildren length]

/-- What has no leaves but `null` is its own null shape. -/
theorem nullShape_nullShape (x : Term) : x.nullShape.nullShape = x.nullShape := by
  induction x using container_induction with
  | scalar x scalar =>
    rw [nullShape_scalar scalar]
    rfl
  | container x container ih =>
    rw [nullShape_container container, nullShape_withChildren container (List.length_map _),
      List.map_map]
    congr 1
    refine List.map_congr_left ?_
    intro c mem
    obtain ⟨e, he, rfl⟩ := List.mem_map.1 mem
    exact ih e he

/-! ## Maps read as plain ones -/

mutual

/-- The same value with every map read as a plain one. -/
def asDict : Term → Term
  | .list items => .list (asDictItems items)
  | .tuple items => .tuple (asDictItems items)
  | .map _ entries => .map .plain (asDictEntries entries)
  | .fields attributes => .fields (asDictAttributes attributes)
  | x => x

/-- A sequence with every map read as a plain one. -/
def asDictItems : List Term → List Term
  | [] => []
  | x :: xs => asDict x :: asDictItems xs

/-- Entries with every map in their values read as a plain one. -/
def asDictEntries : List (Term × Term) → List (Term × Term)
  | [] => []
  | (k, v) :: es => (k, asDict v) :: asDictEntries es

/-- Attributes with every map in their values read as a plain one. -/
def asDictAttributes : List (String × Term) → List (String × Term)
  | [] => []
  | (n, v) :: as => (n, asDict v) :: asDictAttributes as

end

theorem asDict_scalar {x : Term} (scalar : x.isContainer = false) : x.asDict = x := by
  cases x <;> first | rfl | cases scalar

/-- Reading a container as one with plain maps reads its children so. -/
theorem asDict_container {x : Term} (container : x.isContainer) :
    x.asDict = x.withChildren (x.children.map asDict) := by
  rw [withChildren_map]
  cases x with
  | list items | tuple items =>
    rw [asDict, eq_map_of_cons (g := asDictItems) rfl fun _ _ => rfl]
  | map kind entries => rw [asDict, eq_map_of_cons (g := asDictEntries) rfl fun _ _ => rfl]
  | fields attributes =>
    rw [asDict, eq_map_of_cons (g := asDictAttributes) rfl fun _ _ => rfl]
  | _ => cases container

end Term

end SpecMatch
