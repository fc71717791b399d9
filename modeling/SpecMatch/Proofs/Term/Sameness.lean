import SpecMatch.Term.Key

/-!
# Sameness of keys

`Term.same` compares elements and keys. On terms that can be hashed it is reflexive (`same_refl`),
symmetric (`same_symm`) and transitive (`same_trans`), and a term that is the same as another can be
hashed if and only if the other can (`hashable_eq_of_same`). So one hashable term in a chain is
enough, which is what a map asks of its keys.

Numbers cross the classes: a truth value, an integer and a double are the same when their exact
values are. Every other term is the same only as a term of its own form, so each proof below
follows the forms and treats the numbers first.
-/

namespace SpecMatch

section

variable {alike : String → String → Bool} {a b : Handle}

@[simp] theorem Handle.resembles_self (a : Handle) : a.resembles alike a :=
  Bool.or_eq_true_iff.2 (.inl (beq_self_eq_true a))

/-- An object without a memory resembles nothing but itself. -/
theorem Handle.resembles_of_memoryless (memoryless : a.memory = none) :
    a.resembles alike b = (a == b) := by
  simp [resembles, memoryless]

/-- Of two objects that resemble one another, either both have a memory or none has. -/
theorem Handle.memory_eq_of_resembles (h : a.resembles alike b) :
    a.memory.isNone = b.memory.isNone := by
  rw [resembles, Bool.or_eq_true_iff, Bool.and_eq_true] at h
  rcases h with same | ⟨-, memories⟩
  · rw [beq_iff_eq.1 same]
  · split at memories
    · simp [*]
    · cases memories

end

namespace Term

variable {alike : String → String → Bool}

/-- A number is the same as exactly the numbers of its value. -/
theorem same_of_number {a : Term} (h : a.number?.isSome) (b : Term) :
    same alike a b = (b.number? == a.number?) := by
  cases a with
  | bool | int | float => rfl
  | _ => cases h

mutual

/-- A hashable term is the same as itself, a NaN included. -/
theorem same_refl : ∀ {a : Term}, a.hashable → same alike a a
  | .bool _, _ | .int _, _ | .float _, _ => by
    rw [same_of_number rfl]
    exact beq_self_eq_true _
  | .null, _ | .missing, _ => rfl
  | .str _, _ | .bytes _, _ | .cls _, _ | .builtin _, _ | .var _, _ => beq_self_eq_true _
  | .object handle, _ => handle.resembles_self
  | .foreign .., _ => Bool.and_eq_true_iff.2 ⟨beq_self_eq_true _, beq_self_eq_true _⟩
  | .tuple items, h | .allOf items, h | .anyOf items, h | .fanout items, h =>
    @sameItems_refl items h
  | .circle x, h | .square x, h | .left x, h | .right x, h | .negation x, h | .maybe x, h
  | .strict x, h | .everyItem x, h | .someItem x, h | .action x, h => @same_refl x h
  | .comparison _ x, h => Bool.and_eq_true_iff.2 ⟨beq_self_eq_true _, @same_refl x h⟩
  | .keyed x _ _, h =>
    Bool.and_eq_true_iff.2 ⟨Bool.and_eq_true_iff.2 ⟨@same_refl x h, beq_self_eq_true _⟩,
      beq_self_eq_true _⟩
  | .oneOf items _, h =>
    Bool.and_eq_true_iff.2 ⟨@sameItems_refl items h, beq_self_eq_true _⟩
  | .dispatcher cases, h => @samePairs_refl cases h
  | .list _, h | .map .., h | .fields _, h | .recorder .., h => by cases h

theorem sameItems_refl : ∀ {as : List Term}, hashableAll as → sameItems alike as as
  | [], _ => rfl
  | a :: as, h => by
    rw [hashableAll, Bool.and_eq_true] at h
    rw [sameItems, same_refl h.1, sameItems_refl h.2]
    rfl

theorem samePairs_refl : ∀ {as : List (Term × Term)}, hashablePairs as → samePairs alike as as
  | [], _ => rfl
  | (_, _) :: as, h => by
    rw [hashablePairs, Bool.and_eq_true, Bool.and_eq_true] at h
    rw [samePairs, same_refl h.1.1, same_refl h.1.2, samePairs_refl h.2]
    rfl

end

mutual

/-- Sameness is symmetric at a hashable term. -/
theorem same_symm : ∀ {a b : Term}, a.hashable → same alike a b → same alike b a
  | .bool _, b, _, h | .int _, b, _, h | .float _, b, _, h => by
    rw [same_of_number rfl, beq_iff_eq] at h
    rw [same_of_number (by rw [h]; rfl), h, beq_self_eq_true]
  | .null, b, _, h | .missing, b, _, h => by
    unfold same at h
    split at h
    · rfl
    · cases h
  | .str _, b, _, h | .bytes _, b, _, h | .cls _, b, _, h | .builtin _, b, _, h
  | .var _, b, _, h => by
    unfold same at h
    split at h
    · rw [beq_iff_eq] at h
      rw [h]
      exact beq_self_eq_true _
    · cases h
  | .object handle, b, ha, h => by
    unfold same at h
    split at h
    · rw [Handle.resembles_of_memoryless (Option.isNone_iff_eq_none.1 ha), beq_iff_eq] at h
      rw [h]
      exact Handle.resembles_self _
    · cases h
  | .foreign .., b, _, h => by
    unfold same at h
    split at h
    · rw [Bool.and_eq_true, beq_iff_eq, beq_iff_eq] at h
      rw [h.1, h.2]
      exact Bool.and_eq_true_iff.2 ⟨beq_self_eq_true _, beq_self_eq_true _⟩
    · cases h
  | .tuple items, b, ha, h | .allOf items, b, ha, h | .anyOf items, b, ha, h
  | .fanout items, b, ha, h => by
    unfold same at h
    split at h
    · exact @sameItems_symm items _ ha h
    · cases h
  | .circle x, b, ha, h | .square x, b, ha, h | .left x, b, ha, h | .right x, b, ha, h
  | .negation x, b, ha, h | .maybe x, b, ha, h | .strict x, b, ha, h | .everyItem x, b, ha, h
  | .someItem x, b, ha, h | .action x, b, ha, h => by
    unfold same at h
    split at h
    · exact @same_symm x _ ha h
    · cases h
  | .comparison _ x, b, ha, h => by
    unfold same at h
    split at h
    · simp only [Bool.and_eq_true, beq_iff_eq] at h
      exact Bool.and_eq_true_iff.2 ⟨beq_iff_eq.2 h.1.symm, @same_symm x _ ha h.2⟩
    · cases h
  | .keyed x _ _, b, ha, h => by
    unfold same at h
    split at h
    · simp only [Bool.and_eq_true, beq_iff_eq] at h
      exact Bool.and_eq_true_iff.2 ⟨Bool.and_eq_true_iff.2
        ⟨@same_symm x _ ha h.1.1, beq_iff_eq.2 h.1.2.symm⟩, beq_iff_eq.2 h.2.symm⟩
    · cases h
  | .oneOf items _, b, ha, h => by
    unfold same at h
    split at h
    · simp only [Bool.and_eq_true, beq_iff_eq] at h
      exact Bool.and_eq_true_iff.2 ⟨@sameItems_symm items _ ha h.1, beq_iff_eq.2 h.2.symm⟩
    · cases h
  | .dispatcher cases, b, ha, h => by
    unfold same at h
    split at h
    · exact @samePairs_symm cases _ ha h
    · cases h
  | .list _, _, ha, _ | .map .., _, ha, _ | .fields _, _, ha, _ | .recorder .., _, ha, _ => by
    cases ha

theorem sameItems_symm : ∀ {as bs : List Term},
    hashableAll as → sameItems alike as bs → sameItems alike bs as
  | [], [], _, _ => rfl
  | [], _ :: _, _, h | _ :: _, [], _, h => nomatch h
  | a :: as, b :: bs, ha, h => by
    simp only [hashableAll, sameItems, Bool.and_eq_true] at ha h ⊢
    exact ⟨same_symm ha.1 h.1, sameItems_symm ha.2 h.2⟩

theorem samePairs_symm : ∀ {as bs : List (Term × Term)},
    hashablePairs as → samePairs alike as bs → samePairs alike bs as
  | [], [], _, _ => rfl
  | [], _ :: _, _, h | _ :: _, [], _, h => nomatch h
  | (_, _) :: as, (_, _) :: bs, ha, h => by
    simp only [hashablePairs, samePairs, Bool.and_eq_true] at ha h ⊢
    exact ⟨⟨same_symm ha.1.1 h.1.1, same_symm ha.1.2 h.1.2⟩, samePairs_symm ha.2 h.2⟩

end

mutual

/-- Of two terms that are the same, either both can be hashed or none can. -/
theorem hashable_eq_of_same : ∀ {a b : Term}, same alike a b → a.hashable = b.hashable
  | .bool _, b, h | .int _, b, h | .float _, b, h => by
    rw [same_of_number rfl, beq_iff_eq] at h
    cases b <;> first | rfl | cases h
  | .null, b, h | .missing, b, h | .str _, b, h | .bytes _, b, h | .cls _, b, h
  | .builtin _, b, h | .var _, b, h | .foreign .., b, h | .list _, b, h
  | .fields _, b, h | .recorder .., b, h => by
    unfold same at h
    split at h
    · rfl
    · cases h
  | .object _, b, h => by
    unfold same at h
    split at h
    · exact Handle.memory_eq_of_resembles h
    · cases h
  | .map .ordered _, b, h => by
    unfold same at h
    split at h
    · rfl
    · rfl
    · cases h
  | .map .plain _, b, h | .map .proxy _, b, h => by
    unfold same at h
    split at h
    · rfl
    · cases h
  | .tuple items, b, h | .allOf items, b, h | .anyOf items, b, h | .fanout items, b, h => by
    unfold same at h
    split at h
    · exact @hashableAll_eq_of_sameItems items _ h
    · cases h
  | .circle x, b, h | .square x, b, h | .left x, b, h | .right x, b, h | .negation x, b, h
  | .maybe x, b, h | .strict x, b, h | .everyItem x, b, h | .someItem x, b, h
  | .action x, b, h => by
    unfold same at h
    split at h
    · have hx := @hashable_eq_of_same x _ h
      exact hx
    · cases h
  | .comparison _ x, b, h => by
    unfold same at h
    split at h
    · rw [Bool.and_eq_true] at h
      have hx := @hashable_eq_of_same x _ h.2
      exact hx
    · cases h
  | .keyed x _ _, b, h => by
    unfold same at h
    split at h
    · rw [Bool.and_eq_true, Bool.and_eq_true] at h
      have hx := @hashable_eq_of_same x _ h.1.1
      exact hx
    · cases h
  | .oneOf items _, b, h => by
    unfold same at h
    split at h
    · rw [Bool.and_eq_true] at h
      exact @hashableAll_eq_of_sameItems items _ h.1
    · cases h
  | .dispatcher cases, b, h => by
    unfold same at h
    split at h
    · exact @hashablePairs_eq_of_samePairs cases _ h
    · cases h

theorem hashableAll_eq_of_sameItems : ∀ {as bs : List Term},
    sameItems alike as bs → hashableAll as = hashableAll bs
  | [], [], _ => rfl
  | [], _ :: _, h | _ :: _, [], h => nomatch h
  | a :: as, b :: bs, h => by
    rw [sameItems, Bool.and_eq_true] at h
    rw [hashableAll, hashableAll, hashable_eq_of_same h.1, hashableAll_eq_of_sameItems h.2]

theorem hashablePairs_eq_of_samePairs : ∀ {as bs : List (Term × Term)},
    samePairs alike as bs → hashablePairs as = hashablePairs bs
  | [], [], _ => rfl
  | [], _ :: _, h | _ :: _, [], h => nomatch h
  | (_, _) :: as, (_, _) :: bs, h => by
    rw [samePairs, Bool.and_eq_true, Bool.and_eq_true] at h
    rw [hashablePairs, hashablePairs, hashable_eq_of_same h.1.1, hashable_eq_of_same h.1.2,
      hashablePairs_eq_of_samePairs h.2]

end

mutual

/-- Sameness is transitive from a hashable term on. -/
theorem same_trans : ∀ {a b c : Term}, a.hashable → same alike a b → same alike b c →
    same alike a c
  | .bool _, b, c, _, h, k | .int _, b, c, _, h, k | .float _, b, c, _, h, k => by
    rw [same_of_number rfl, beq_iff_eq] at h ⊢
    rw [same_of_number (by rw [h]; rfl), beq_iff_eq] at k
    exact k.trans h
  | .null, b, c, _, h, k | .missing, b, c, _, h, k => by
    unfold same at h
    split at h
    · exact k
    · cases h
  | .str _, b, c, _, h, k | .bytes _, b, c, _, h, k | .cls _, b, c, _, h, k
  | .builtin _, b, c, _, h, k | .var _, b, c, _, h, k => by
    unfold same at h
    split at h
    · rw [beq_iff_eq] at h
      rw [h]
      exact k
    · cases h
  | .object _, b, c, ha, h, k => by
    unfold same at h
    split at h
    · rw [Handle.resembles_of_memoryless (Option.isNone_iff_eq_none.1 ha), beq_iff_eq] at h
      rw [h]
      exact k
    · cases h
  | .foreign .., b, c, _, h, k => by
    unfold same at h
    split at h
    · rw [Bool.and_eq_true, beq_iff_eq, beq_iff_eq] at h
      rw [h.1, h.2]
      exact k
    · cases h
  | .tuple items, b, c, ha, h, k | .allOf items, b, c, ha, h, k | .anyOf items, b, c, ha, h, k
  | .fanout items, b, c, ha, h, k => by
    unfold same at h
    split at h
    · unfold same at k
      split at k
      · exact @sameItems_trans items _ _ ha h k
      · cases k
    · cases h
  | .circle x, b, c, ha, h, k | .square x, b, c, ha, h, k | .left x, b, c, ha, h, k
  | .right x, b, c, ha, h, k | .negation x, b, c, ha, h, k | .maybe x, b, c, ha, h, k
  | .strict x, b, c, ha, h, k | .everyItem x, b, c, ha, h, k | .someItem x, b, c, ha, h, k
  | .action x, b, c, ha, h, k => by
    unfold same at h
    split at h
    · unfold same at k
      split at k
      · exact @same_trans x _ _ ha h k
      · cases k
    · cases h
  | .comparison _ x, b, c, ha, h, k => by
    unfold same at h
    split at h
    · unfold same at k
      split at k
      · simp only [Bool.and_eq_true, beq_iff_eq] at h k
        exact Bool.and_eq_true_iff.2
          ⟨beq_iff_eq.2 (h.1.trans k.1), @same_trans x _ _ ha h.2 k.2⟩
      · cases k
    · cases h
  | .keyed x _ _, b, c, ha, h, k => by
    unfold same at h
    split at h
    · unfold same at k
      split at k
      · simp only [Bool.and_eq_true, beq_iff_eq] at h k
        exact Bool.and_eq_true_iff.2 ⟨Bool.and_eq_true_iff.2 ⟨@same_trans x _ _ ha h.1.1 k.1.1,
          beq_iff_eq.2 (h.1.2.trans k.1.2)⟩, beq_iff_eq.2 (h.2.trans k.2)⟩
      · cases k
    · cases h
  | .oneOf items _, b, c, ha, h, k => by
    unfold same at h
    split at h
    · unfold same at k
      split at k
      · simp only [Bool.and_eq_true, beq_iff_eq] at h k
        exact Bool.and_eq_true_iff.2
          ⟨@sameItems_trans items _ _ ha h.1 k.1, beq_iff_eq.2 (h.2.trans k.2)⟩
      · cases k
    · cases h
  | .dispatcher cases, b, c, ha, h, k => by
    unfold same at h
    split at h
    · unfold same at k
      split at k
      · exact @samePairs_trans cases _ _ ha h k
      · cases k
    · cases h
  | .list _, _, _, ha, _, _ | .map .., _, _, ha, _, _ | .fields _, _, _, ha, _, _
  | .recorder .., _, _, ha, _, _ => by
    cases ha

theorem sameItems_trans : ∀ {as bs cs : List Term},
    hashableAll as → sameItems alike as bs → sameItems alike bs cs → sameItems alike as cs
  | [], [], _, _, _, k => k
  | [], _ :: _, _, _, h, _ | _ :: _, [], _, _, h, _ => nomatch h
  | _ :: _, _ :: _, [], _, _, k => nomatch k
  | a :: as, b :: bs, c :: cs, ha, h, k => by
    simp only [hashableAll, sameItems, Bool.and_eq_true] at ha h k ⊢
    exact ⟨same_trans ha.1 h.1 k.1, sameItems_trans ha.2 h.2 k.2⟩

theorem samePairs_trans : ∀ {as bs cs : List (Term × Term)},
    hashablePairs as → samePairs alike as bs → samePairs alike bs cs → samePairs alike as cs
  | [], [], _, _, _, k => k
  | [], _ :: _, _, _, h, _ | _ :: _, [], _, _, h, _ => nomatch h
  | _ :: _, _ :: _, [], _, _, k => nomatch k
  | (_, _) :: as, (_, _) :: bs, (_, _) :: cs, ha, h, k => by
    simp only [hashablePairs, samePairs, Bool.and_eq_true] at ha h k ⊢
    exact ⟨⟨same_trans ha.1.1 h.1.1 k.1.1, same_trans ha.1.2 h.1.2 k.1.2⟩,
      samePairs_trans ha.2 h.2 k.2⟩

end

end Term

end SpecMatch
