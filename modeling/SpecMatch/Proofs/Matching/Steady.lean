import SpecMatch.Proofs.Matching.Bindings
import SpecMatch.Proofs.Matching.EntryOrder
import SpecMatch.Proofs.Term.Memory

/-!
# Comparisons that no call changes

Recorders, and objects with a memory, are equal when they have been asked the same, so a call may
change what a comparison after it answers. A match is steady if none of the calls that its leaves
can make changes how their operands compare with what the match comes to (`Steady`). That is so if
nothing that is asked has a memory, or no operand has one, or neither the value nor the key
(`Steady.of_apart`).
-/

namespace SpecMatch

/-- A match of a value and a key without a memory comes to no memory. -/
theorem Term.ComesTo.memoryless {value key x k : Term} (comes : value.ComesTo key x k)
    (free : value.memoryless) (keyFree : key.memoryless) : x.memoryless ∧ k.memoryless := by
  induction comes with
  | start => exact ⟨free, keyFree⟩
  | null _ ih => exact ⟨rfl, ih.2⟩
  | entry _ mem ih => exact (memoryless_of_mem ih.1 mem).symm
  | @under x k k' _ hashable ih =>
    by_cases missing : x.lookup k' = .missing
    · rw [Term.under_missing missing]
      exact ⟨rfl, rfl⟩
    · rw [Term.under_present missing]
      obtain ⟨e, mem, child, -⟩ := mem_entries_of_lookup? (lookup?_of_lookup missing)
      exact ⟨child ▸ (memoryless_of_mem ih.1 mem).2, memoryless_of_hashable hashable⟩
  | segment start length _ ih =>
    exact ⟨memorylessAll_segment (memorylessAll_keyPath ih.2) start length, rfl⟩
  | cutKey start length _ ih => exact ⟨memoryless_cutKey ih.2 start length, rfl⟩

/-- A store after calls to leaves, as far as these are asked. -/
def Store.Later (leaf : Term → Prop) (s s' : Store) : Prop :=
  ∃ calls : List Call, s'.calls.toList = s.calls.toList ++ calls ∧
    ∀ c ∈ calls, leaf c.receiver ∧ ¬ c.receiver.Inert

section

variable {leaf : Term → Prop} {s s' : Store}

theorem Store.Later.of_calls_eq (same : s'.calls = s.calls) : s.Later leaf s' :=
  ⟨[], by rw [same, List.append_nil], List.forall_mem_nil _⟩

theorem Store.Later.push (later : s.Later leaf s') {receiver : Term} (there : leaf receiver)
    (asks : ¬ receiver.Inert) (request : Request) :
    s.Later leaf { s' with calls := s'.calls.push ⟨receiver, request⟩ } := by
  obtain ⟨calls, made, receivers⟩ := later
  refine ⟨calls ++ [⟨receiver, request⟩], ?_, fun c mem => ?_⟩
  · rw [Array.toList_push, made, List.append_assoc]
  · rcases List.mem_append.1 mem with before | last
    · exact receivers c before
    · obtain rfl := List.mem_singleton.1 last
      exact ⟨there, asks⟩

/-- How memories compare is not changed by what has no memory. -/
theorem Store.Later.alike (later : s.Later leaf s')
    (forgets : ∀ t, leaf t → ¬ t.Inert → t.memory? = none) : s'.alike = s.alike := by
  obtain ⟨calls, made, receivers⟩ := later
  have none : ∀ c ∈ calls, c.receiver.memory? = none := fun c mem =>
    forgets _ (receivers c mem).1 (receivers c mem).2
  refine alike_congr (fun name => ?_) ?_
  · have unrecorded : calls.filterMap (fun c =>
        if c.receiver.memory? == some name then c.request.subject? else .none) = [] :=
      List.filterMap_eq_nil_iff.2 fun c mem => by rw [none c mem]; rfl
    rw [recorded, recorded, made, List.filterMap_append, unrecorded, List.append_nil]
  · have uncounted : calls.countP (·.receiver.memory?.isSome) = 0 :=
      List.countP_eq_zero.2 fun c mem => by rw [none c mem]; exact Bool.false_ne_true
    rw [recordings, recordings, ← Array.countP_toList, ← Array.countP_toList, made,
      List.countP_append, uncounted, Nat.add_zero]

/-- No call that leaves can make changes how an operand of one of them compares with anything that
the match of a value under a key comes to. -/
def Steady (leaf : Term → Prop) (s : Store) (value key : Term) : Prop :=
  ∀ x k, value.ComesTo key x k → ∀ t, leaf t → ∀ operand ∈ t.operands, ∀ s', s.Later leaf s' →
    Term.Indifferent s'.alike s.alike operand x

/-- A match is steady if nothing that is asked has a memory, or nothing that is compared with the
value, or the value and the key have none. -/
theorem Steady.of_apart {value key : Term}
    (apart : (∀ t, leaf t → ¬ t.Inert → t.memory? = none) ∨
      (∀ t, leaf t → ∀ operand ∈ t.operands, operand.memoryless) ∨
      (value.memoryless ∧ key.memoryless)) : Steady leaf s value key := by
  intro x k comes t there operand mem s' later
  rcases apart with forgets | operands | ⟨free, keyFree⟩
  · exact .of_eq (later.alike forgets)
  · exact .of_memoryless (.inl (operands t there operand mem))
  · exact .of_memoryless (.inr (comes.memoryless free keyFree).1)

end

end SpecMatch
