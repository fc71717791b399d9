import SpecMatch.Term.Path

/-!
# Segments by positions

A segment is meant to hold the elements of a sequence from a first position up to before a last one
(`between`). It does unless its end lies in front of the sequence: such an end is counted from the
end of the sequence once more, so a length that stops too short of the end may leave elements where
it should leave none. `segment_eq_between_iff` says what a segment holds for every start and length,
and when this is what it is meant to hold.
-/

namespace SpecMatch

section

variable {α : Type}

/-- The elements of a sequence at the positions from `first` up to before `last`, in order. -/
def between (xs : List α) (first last : Int) : List α :=
  (xs.zipIdx.filter fun x => first ≤ x.2 ∧ x.2 < last).map (·.1)

/-- The elements between two positions, when the positions are counted from `start`. -/
theorem filter_zipIdx_eq_drop_take (xs : List α) (first last : Int) (start : Nat) :
    ((xs.zipIdx start).filter fun x => first ≤ x.2 ∧ x.2 < last).map (·.1) =
      (xs.take (last - start).toNat).drop (first - start).toNat := by
  induction xs generalizing start with
  | nil => simp
  | cons x xs ih =>
    rw [List.zipIdx_cons, List.filter_cons]
    by_cases inside : first ≤ start ∧ (start : Int) < last
    · have taken : (last - start).toNat = (last - (start + 1 : Nat)).toNat + 1 := by omega
      have none_dropped : (first - start).toNat = 0 := by omega
      have none_dropped' : (first - (start + 1 : Nat)).toNat = 0 := by omega
      rw [if_pos (by simpa using inside), List.map_cons, ih, taken, none_dropped, none_dropped']
      rfl
    · rw [if_neg (by simpa using inside), ih]
      by_cases before : (start : Int) < first
      · have dropped : (first - start).toNat = (first - (start + 1 : Nat)).toNat + 1 := by omega
        by_cases passed : last ≤ start
        · have none_taken : (last - start).toNat = 0 := by omega
          have none_taken' : (last - (start + 1 : Nat)).toNat = 0 := by omega
          rw [none_taken, none_taken']
          simp
        · have taken : (last - start).toNat = (last - (start + 1 : Nat)).toNat + 1 := by omega
          rw [taken, dropped, List.take_succ_cons, List.drop_succ_cons]
      · have none_taken : (last - start).toNat = 0 := by omega
        have none_taken' : (last - (start + 1 : Nat)).toNat = 0 := by omega
        rw [none_taken, none_taken']
        simp

theorem between_eq_drop_take (xs : List α) (first last : Int) :
    between xs first last = (xs.take last.toNat).drop first.toNat := by
  have counted := filter_zipIdx_eq_drop_take xs first last 0
  rwa [Int.natCast_zero, Int.sub_zero, Int.sub_zero] at counted

/-- Nothing lies between two positions exactly if there is no position of the sequence there. -/
theorem between_eq_nil_iff {xs : List α} {first last : Int} (inside : 0 ≤ first) :
    between xs first last = [] ↔ last ≤ first ∨ xs.length ≤ first := by
  rw [between_eq_drop_take, List.drop_eq_nil_iff, List.length_take]
  omega

/-- A segment holds the elements from its start up to before its end, where an end in front of the
sequence is counted from the end of the sequence once more. These are the elements between the two
exactly if the end is not in front of the sequence, or remains at or before the start even when it
is counted once more. -/
theorem segment_eq_between_iff (xs : List α) (start : Int) (length : Option Int) :
    ∃ first last : Int,
      first = (if 0 ≤ start then start else max (xs.length + start) 0) ∧
      last = (match length with
        | none => (xs.length : Int)
        | some length => if 0 ≤ length then first + length else xs.length + length) ∧
      segment xs start length = between xs first (if last < 0 then last + xs.length else last) ∧
      (segment xs start length = between xs first last ↔
        (last < 0 → last + xs.length ≤ first)) := by
  let size : Int := xs.length
  let first := segmentStart xs.length start
  let last := segmentEnd xs.length start length
  have last_eq : last = (match length with
      | none => size
      | some length => if 0 ≤ length then first + length else size + length) := by
    cases length <;> rfl
  have nonneg : 0 ≤ first := by
    simp only [first, segmentStart]
    split <;> omega
  have holds : segment xs start length =
      between xs first (if last < 0 then last + size else last) := by
    rw [between_eq_drop_take]
    rfl
  refine ⟨first, last, rfl, last_eq, holds, ?_⟩
  rw [holds]
  by_cases front : last < 0
  · -- No position is in front of the sequence, so nothing is meant to be left.
    have meant : between xs first last = [] := (between_eq_nil_iff nonneg).2 (.inl (by omega))
    rw [if_pos front, meant, between_eq_nil_iff nonneg]
    simp only [front, forall_const]
    omega
  · rw [if_neg front]
    simp [front]

/-- A length that stops four short of the end of three elements leaves two of them instead of
none. -/
theorem segment_leaves_elements :
    segment ['a', 'b', 'c'] 0 (some (-4)) = ['a', 'b'] ∧
      between ['a', 'b', 'c'] 0 (3 - 4) = [] := by
  decide

end

end SpecMatch
