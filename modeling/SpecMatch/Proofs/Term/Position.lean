import SpecMatch.Proofs.Term.Shape

/-!
# Positions

A position of a value is given by the path of keys that leads to it (`Term.At`). As the keys of one
container differ, two different paths differ in a key where they part, so they are not the same
sequence of keys even if keys of different classes may be the same (`At.eq_of_sameItems`).
-/

namespace SpecMatch.Term

/-- A path of keys leads from a value to a part of it. -/
inductive At : Term → List Term → Term → Prop
  | here {x : Term} : At x [] x
  | child {x part : Term} {e : Term × Term} {path : List Term} :
      e ∈ x.entries → At e.2 path part → At x (e.1 :: path) part

/-- A path may be followed one key further. -/
theorem At.snoc {x part : Term} {path : List Term} (at_path : x.At path part) {e : Term × Term}
    (mem : e ∈ part.entries) : x.At (path ++ [e.1]) e.2 := by
  induction at_path with
  | here => exact .child mem .here
  | child inner _ ih => exact .child inner (ih mem)

/-- A path begins with a key of the value. -/
theorem At.head_mem {x part key : Term} {path : List Term} (at_path : x.At (key :: path) part) :
    ∃ e ∈ x.entries, e.1 = key := by
  cases at_path with
  | child mem _ => exact ⟨_, mem, rfl⟩

theorem sameItems_append {alike : String → String → Bool} (items as bs : List Term) :
    sameItems alike (items ++ as) (items ++ bs) =
      (sameItems alike items items && sameItems alike as bs) := by
  induction items with
  | nil => rfl
  | cons x xs ih =>
    rw [List.cons_append, List.cons_append, sameItems, sameItems, ih, Bool.and_assoc]

/-- Two paths that are the same are one. -/
theorem At.eq_of_sameItems {x a b : Term} {p q : List Term} (keyed : x.Everywhere WellKeyed)
    (hp : x.At p a) (hq : x.At q b) (same : sameItems (fun m n => m == n) p q) : p = q := by
  induction hp generalizing q b with
  | here =>
    cases hq with
    | here => rfl
    | child => cases same
  | @child x a d p hd _ ih =>
    cases hq with
    | here => cases same
    | @child _ _ e q he hq =>
      rw [sameItems, Bool.and_eq_true] at same
      obtain ⟨first, later⟩ := same
      obtain rfl := keyed.here.eq_of_sameKey_key hd he first
      rw [ih (keyed.child hd) hq later]

end SpecMatch.Term
