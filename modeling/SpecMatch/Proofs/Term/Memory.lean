import Mathlib.Data.List.Find
import SpecMatch.Proofs.Term.Keys
import SpecMatch.Term.Order
import SpecMatch.Term.Path

/-!
# Terms without a memory

Recorders, and objects with a memory, are the same when they have been asked the same, so comparing
them depends on the world. If one of two terms holds nothing of the kind (`Term.memoryless`), then
no memory is ever compared with another one, and the comparison is the same whatever has been asked
(`same_congr`, `orders?_congr`).
-/

namespace SpecMatch.Term

mutual

/-- Whether nothing stands in a term that is compared by what it has been asked. -/
def memoryless : Term → Bool
  | .recorder .. => false
  | .object handle => handle.memory.isNone
  | .list items | .tuple items => memorylessAll items
  | .map _ entries => memorylessPairs entries
  | .fields attributes => memorylessAttributes attributes
  | .circle x | .square x | .left x | .right x => memoryless x
  | .comparison _ x | .negation x | .maybe x | .strict x | .everyItem x | .someItem x =>
    memoryless x
  | .keyed x _ _ | .action x => memoryless x
  | .oneOf items _ | .allOf items | .anyOf items | .fanout items => memorylessAll items
  | .dispatcher cases => memorylessPairs cases
  | _ => true

/-- Whether none of the terms has a memory in it. -/
def memorylessAll : List Term → Bool
  | [] => true
  | x :: xs => memoryless x && memorylessAll xs

/-- Whether neither part of any pair has a memory in it. -/
def memorylessPairs : List (Term × Term) → Bool
  | [] => true
  | (k, v) :: ps => memoryless k && memoryless v && memorylessPairs ps

/-- Whether no attribute has a memory in it. -/
def memorylessAttributes : List (String × Term) → Bool
  | [] => true
  | (_, v) :: as => memoryless v && memorylessAttributes as

end

theorem memorylessAll_iff {items : List Term} :
    memorylessAll items ↔ ∀ x ∈ items, x.memoryless := by
  induction items with
  | nil => simp [memorylessAll]
  | cons x xs ih => simp [memorylessAll, ih]

theorem memorylessPairs_iff {pairs : List (Term × Term)} :
    memorylessPairs pairs ↔ ∀ p ∈ pairs, p.1.memoryless ∧ p.2.memoryless := by
  induction pairs with
  | nil => simp [memorylessPairs]
  | cons p ps ih => simp [memorylessPairs, ih]

theorem memorylessAttributes_iff {attributes : List (String × Term)} :
    memorylessAttributes attributes ↔ ∀ a ∈ attributes, a.2.memoryless := by
  induction attributes with
  | nil => simp [memorylessAttributes]
  | cons a as ih => simp [memorylessAttributes, ih]

/-! ## Comparisons -/

mutual

/-- Terms of which one has no memory in it are the same whatever has been asked. -/
theorem same_of_memoryless : ∀ {a b : Term} {alike alike' : String → String → Bool},
    a.memoryless || b.memoryless → same alike a b → same alike' a b
  | .null, _, _, _, _, h | .bool _, _, _, _, _, h | .int _, _, _, _, _, h
  | .float _, _, _, _, _, h | .str _, _, _, _, _, h | .bytes _, _, _, _, _, h
  | .missing, _, _, _, _, h | .cls _, _, _, _, _, h | .builtin _, _, _, _, _, h
  | .var _, _, _, _, _, h | .foreign .., _, _, _, _, h => h
  | .object handle, b, _, _, free, h => by
    unfold same at h
    split at h
    · next other =>
      -- Without a memory on one side, the two are one object.
      have one (memoryless : handle.memory = none ∨ other.memory = none) : handle = other := by
        rw [Handle.resembles, Bool.or_eq_true_iff, Bool.and_eq_true] at h
        rcases h with same | ⟨-, memories⟩
        · exact beq_iff_eq.1 same
        · rcases memoryless with none | none <;> simp [none] at memories
      simp only [memoryless, Bool.or_eq_true, Option.isNone_iff_eq_none] at free
      rw [one free]
      exact Handle.resembles_self _
    · cases h
  | .list items, b, _, _, free, h | .tuple items, b, _, _, free, h
  | .allOf items, b, _, _, free, h | .anyOf items, b, _, _, free, h
  | .fanout items, b, _, _, free, h => by
    unfold same at h
    split at h
    · exact @sameItems_of_memoryless items _ _ _ free h
    · cases h
  | .map .ordered entries, b, _, _, free, h => by
    unfold same at h
    split at h
    · exact @samePairs_of_memoryless entries _ _ _ free h
    · next kind _ other =>
      rw [Bool.and_eq_true] at h
      cases kind with
      | ordered => exact (other rfl).elim
      | plain | proxy =>
        exact Bool.and_eq_true_iff.2 ⟨h.1, @sameEntries_of_memoryless entries _ _ _ free h.2⟩
    · cases h
  | .map .plain entries, b, _, _, free, h | .map .proxy entries, b, _, _, free, h => by
    unfold same at h
    split at h
    · rw [Bool.and_eq_true] at h
      exact Bool.and_eq_true_iff.2 ⟨h.1, @sameEntries_of_memoryless entries _ _ _ free h.2⟩
    · cases h
  | .fields attributes, b, _, _, free, h => by
    unfold same at h
    split at h
    · rw [Bool.and_eq_true] at h
      exact Bool.and_eq_true_iff.2
        ⟨h.1, @sameAttributes_of_memoryless attributes _ _ _ free h.2⟩
    · cases h
  | .circle x, b, _, _, free, h | .square x, b, _, _, free, h | .left x, b, _, _, free, h
  | .right x, b, _, _, free, h | .negation x, b, _, _, free, h | .maybe x, b, _, _, free, h
  | .strict x, b, _, _, free, h | .everyItem x, b, _, _, free, h
  | .someItem x, b, _, _, free, h | .action x, b, _, _, free, h => by
    unfold same at h
    split at h
    · exact @same_of_memoryless x _ _ _ free h
    · cases h
  | .comparison _ x, b, _, _, free, h => by
    unfold same at h
    split at h
    · rw [Bool.and_eq_true] at h
      exact Bool.and_eq_true_iff.2 ⟨h.1, @same_of_memoryless x _ _ _ free h.2⟩
    · cases h
  | .keyed x _ _, b, _, _, free, h => by
    unfold same at h
    split at h
    · rw [Bool.and_eq_true, Bool.and_eq_true] at h
      exact Bool.and_eq_true_iff.2 ⟨Bool.and_eq_true_iff.2
        ⟨@same_of_memoryless x _ _ _ free h.1.1, h.1.2⟩, h.2⟩
    · cases h
  | .oneOf items _, b, _, _, free, h => by
    unfold same at h
    split at h
    · rw [Bool.and_eq_true] at h
      exact Bool.and_eq_true_iff.2 ⟨@sameItems_of_memoryless items _ _ _ free h.1, h.2⟩
    · cases h
  | .dispatcher cases, b, _, _, free, h => by
    unfold same at h
    split at h
    · exact @samePairs_of_memoryless cases _ _ _ free h
    · cases h
  | .recorder .., b, _, _, free, h => by
    unfold same at h
    split at h
    · cases free
    · cases h

theorem sameItems_of_memoryless : ∀ {as bs : List Term} {alike alike' : String → String → Bool},
    memorylessAll as || memorylessAll bs → sameItems alike as bs → sameItems alike' as bs
  | [], [], _, _, _, _ => rfl
  | [], _ :: _, _, _, _, h | _ :: _, [], _, _, _, h => nomatch h
  | a :: as, b :: bs, _, _, free, h => by
    simp only [memorylessAll, sameItems, Bool.and_eq_true, Bool.or_eq_true] at free h ⊢
    refine ⟨same_of_memoryless ?_ h.1, sameItems_of_memoryless ?_ h.2⟩
    · exact Bool.or_eq_true_iff.2 (free.imp And.left And.left)
    · exact Bool.or_eq_true_iff.2 (free.imp And.right And.right)

theorem samePairs_of_memoryless : ∀ {as bs : List (Term × Term)}
    {alike alike' : String → String → Bool},
    memorylessPairs as || memorylessPairs bs → samePairs alike as bs → samePairs alike' as bs
  | [], [], _, _, _, _ => rfl
  | [], _ :: _, _, _, _, h | _ :: _, [], _, _, _, h => nomatch h
  | (k, v) :: as, (l, u) :: bs, _, _, free, h => by
    simp only [memorylessPairs, samePairs, Bool.and_eq_true, Bool.or_eq_true] at free h ⊢
    refine ⟨⟨same_of_memoryless ?_ h.1.1, same_of_memoryless ?_ h.1.2⟩,
      samePairs_of_memoryless ?_ h.2⟩
    · exact Bool.or_eq_true_iff.2 (free.imp (·.1.1) (·.1.1))
    · exact Bool.or_eq_true_iff.2 (free.imp (·.1.2) (·.1.2))
    · exact Bool.or_eq_true_iff.2 (free.imp And.right And.right)

theorem sameEntries_of_memoryless : ∀ {as bs : List (Term × Term)}
    {alike alike' : String → String → Bool},
    memorylessPairs as || memorylessPairs bs → sameEntries alike as bs →
      sameEntries alike' as bs
  | [], _, _, _, _, _ => rfl
  | (k, v) :: as, bs, alike, alike', free, h => by
    simp only [memorylessPairs, Bool.and_eq_true, Bool.or_eq_true] at free
    have keys : ∀ b ∈ bs, same alike k b.1 = same alike' k b.1 := by
      intro b mem
      have free : k.memoryless || b.1.memoryless :=
        Bool.or_eq_true_iff.2 (free.imp (·.1.1) fun all => (memorylessPairs_iff.1 all b mem).1)
      exact Bool.eq_iff_iff.2 ⟨same_of_memoryless free, same_of_memoryless free⟩
    rw [sameEntries, Bool.and_eq_true] at h ⊢
    refine ⟨?_, sameEntries_of_memoryless (Bool.or_eq_true_iff.2 (free.imp (·.2) id)) h.2⟩
    have first := h.1
    rw [List.find?_congr keys] at first
    split at first
    · next b found =>
      have mem := List.mem_of_find?_eq_some found
      exact same_of_memoryless (Bool.or_eq_true_iff.2 (free.imp (·.1.2) fun all =>
        (memorylessPairs_iff.1 all b mem).2)) first
    · cases first

theorem sameAttributes_of_memoryless : ∀ {as bs : List (String × Term)}
    {alike alike' : String → String → Bool},
    memorylessAttributes as || memorylessAttributes bs → sameAttributes alike as bs →
      sameAttributes alike' as bs
  | [], _, _, _, _, _ => rfl
  | (n, v) :: as, bs, _, _, free, h => by
    simp only [memorylessAttributes, Bool.and_eq_true, Bool.or_eq_true] at free
    rw [sameAttributes, Bool.and_eq_true] at h ⊢
    refine ⟨?_, sameAttributes_of_memoryless (Bool.or_eq_true_iff.2 (free.imp (·.2) id)) h.2⟩
    have first := h.1
    split at first
    · next b found =>
      have mem := List.mem_of_find?_eq_some found
      exact same_of_memoryless (Bool.or_eq_true_iff.2 (free.imp (·.1) fun all =>
        memorylessAttributes_iff.1 all b mem)) first
    · cases first

end

section

variable {alike alike' : String → String → Bool} {a b : Term}

theorem same_congr (free : a.memoryless || b.memoryless) : same alike a b = same alike' a b :=
  Bool.eq_iff_iff.2 ⟨same_of_memoryless free, same_of_memoryless free⟩

mutual

theorem orders?_congr (relation : Relation) : ∀ {a b : Term},
    a.memoryless || b.memoryless → orders? alike relation a b = orders? alike' relation a b
  | .list as, b, free | .tuple as, b, free => by
    cases b with
    | list bs | tuple bs =>
      -- A list and a tuple are not ordered.
      have items (free : memorylessAll as || memorylessAll bs) :
          itemsOrder? alike relation as bs = itemsOrder? alike' relation as bs :=
        itemsOrder?_congr relation free
      first
      | rfl
      | exact items free
    | _ => rfl
  | .str _, b, _ | .bytes _, b, _ => by cases b <;> rfl
  | .null, _, _ | .bool _, _, _ | .int _, _, _ | .float _, _, _ | .missing, _, _ | .map .., _, _
  | .fields _, _, _ | .circle _, _, _ | .square _, _, _ | .left _, _, _ | .right _, _, _
  | .cls _, _, _ | .builtin _, _, _ | .comparison .., _, _ | .oneOf .., _, _ | .allOf _, _, _
  | .anyOf _, _, _ | .negation _, _, _ | .maybe _, _, _ | .strict _, _, _ | .everyItem _, _, _
  | .someItem _, _, _ | .keyed .., _, _ | .action _, _, _ | .fanout _, _, _
  | .dispatcher _, _, _ | .var _, _, _ | .recorder .., _, _ | .object _, _, _
  | .foreign .., _, _ => rfl

theorem itemsOrder?_congr (relation : Relation) : ∀ {as bs : List Term},
    memorylessAll as || memorylessAll bs →
      itemsOrder? alike relation as bs = itemsOrder? alike' relation as bs
  | [], [], _ | [], _ :: _, _ | _ :: _, [], _ => rfl
  | a :: as, b :: bs, free => by
    simp only [memorylessAll, Bool.and_eq_true, Bool.or_eq_true] at free
    have first : a.memoryless || b.memoryless :=
      Bool.or_eq_true_iff.2 (free.imp And.left And.left)
    have later : memorylessAll as || memorylessAll bs :=
      Bool.or_eq_true_iff.2 (free.imp And.right And.right)
    rw [itemsOrder?, itemsOrder?, same_congr first, itemsOrder?_congr relation later,
      orders?_congr relation first]

end

/-- Two ways in which memories may compare make no difference to how two terms compare. -/
structure Indifferent (alike alike' : String → String → Bool) (a b : Term) : Prop where
  same : same alike a b = same alike' a b
  same_symm : Term.same alike b a = Term.same alike' b a
  orders? (relation : Relation) : orders? alike relation b a = orders? alike' relation b a

theorem Indifferent.of_eq (eq : alike = alike') : Indifferent alike alike' a b := by
  subst eq
  exact ⟨rfl, rfl, fun _ => rfl⟩

theorem Indifferent.of_memoryless (free : a.memoryless ∨ b.memoryless) :
    Indifferent alike alike' a b :=
  have free' := Bool.or_eq_true_iff.2 free.symm
  ⟨same_congr (Bool.or_eq_true_iff.2 free), same_congr free', fun _ => orders?_congr _ free'⟩

theorem strictlyEqual_congr (h : same alike a b = same alike' a b) :
    strictlyEqual alike a b = strictlyEqual alike' a b := by
  have equal_congr : equal alike a b = equal alike' a b := by
    unfold equal
    split
    · rfl
    · exact h
  rw [strictlyEqual, strictlyEqual, equal_congr]

end

/-! ## Where no memory stands -/

mutual

/-- Keys have no memory in them. -/
theorem memoryless_of_hashable : ∀ {x : Term}, x.hashable → x.memoryless
  | .tuple items, h | .oneOf items _, h | .allOf items, h | .anyOf items, h | .fanout items, h =>
    @memorylessAll_of_hashableAll items h
  | .circle x, h | .square x, h | .left x, h | .right x, h | .comparison _ x, h | .negation x, h
  | .maybe x, h | .strict x, h | .everyItem x, h | .someItem x, h | .keyed x _ _, h
  | .action x, h => @memoryless_of_hashable x h
  | .dispatcher cases, h => @memorylessPairs_of_hashablePairs cases h
  | .list _, h | .map .., h | .fields _, h | .recorder .., h => by cases h
  | .null, _ | .bool _, _ | .int _, _ | .float _, _ | .str _, _ | .bytes _, _ | .missing, _
  | .cls _, _ | .builtin _, _ | .var _, _ | .foreign .., _ => rfl
  | .object _, h => h

theorem memorylessAll_of_hashableAll : ∀ {items : List Term},
    hashableAll items → memorylessAll items
  | [], _ => rfl
  | x :: xs, h => by
    rw [hashableAll, Bool.and_eq_true] at h
    exact Bool.and_eq_true_iff.2
      ⟨memoryless_of_hashable h.1, memorylessAll_of_hashableAll h.2⟩

theorem memorylessPairs_of_hashablePairs : ∀ {pairs : List (Term × Term)},
    hashablePairs pairs → memorylessPairs pairs
  | [], _ => rfl
  | (k, v) :: ps, h => by
    rw [hashablePairs, Bool.and_eq_true, Bool.and_eq_true] at h
    exact Bool.and_eq_true_iff.2 ⟨Bool.and_eq_true_iff.2
      ⟨memoryless_of_hashable h.1.1, memoryless_of_hashable h.1.2⟩,
      memorylessPairs_of_hashablePairs h.2⟩

end

/-- Nothing that stands in a term without a memory has one. -/
theorem memoryless_of_mem {x : Term} (free : x.memoryless) {e : Term × Term}
    (mem : e ∈ x.entries) : e.1.memoryless ∧ e.2.memoryless := by
  cases x with
  | list items | tuple items =>
    obtain ⟨i, stands, key⟩ := mem_positions.1 mem
    rw [key]
    exact ⟨rfl, memorylessAll_iff.1 free _ (List.mem_of_getElem? stands)⟩
  | map kind entries => exact memorylessPairs_iff.1 free e mem
  | fields attributes =>
    obtain ⟨a, ha, rfl⟩ := List.mem_map.1 mem
    exact ⟨rfl, memorylessAttributes_iff.1 free a ha⟩
  | _ => cases mem

/-- Cutting a piece out of a path leaves no more in it. -/
theorem memorylessAll_segment {path : List Term} (free : memorylessAll path) (start : Int)
    (length : Option Int) : memorylessAll (segment path start length) := by
  rw [memorylessAll_iff] at free ⊢
  exact fun x mem => free x (List.mem_of_mem_take (List.mem_of_mem_drop mem))

theorem memorylessAll_keyPath {key : Term} (free : key.memoryless) :
    memorylessAll key.keyPath := by
  unfold keyPath
  split
  · rfl
  · exact free
  · exact Bool.and_eq_true_iff.2 ⟨free, rfl⟩

theorem memoryless_cutKey {key : Term} (free : key.memoryless) (start : Int)
    (length : Option Int) : (key.cutKey start length).memoryless := by
  unfold cutKey
  split
  · exact free
  · split
    · rfl
    · exact memorylessAll_segment free start length
    · rfl

end SpecMatch.Term
