import SpecMatch.Term.Container

/-!
# Items under numbers

An array is put together from values under natural numbers. `Term.indexed?` reads the numbers from
the keys and succeeds exactly if every key is one (`indexed?_eq_some_iff`). `Term.spread` makes items
of them: each value stands at its number, and a fill in the gaps up to the largest number
(`spread_slotted`). The values that are found under the numbers determine such items
(`Slotted.unique`), so the order in which they are listed does not matter.
-/

namespace SpecMatch.Term

/-! ## Natural numbers as keys -/

/-- Values under natural numbers as the entries of a map. -/
def numbered (slots : List (Nat × Term)) : Entries := slots.map fun s => (.int s.1, s.2)

theorem numbered_cons (s : Nat × Term) (rest : List (Nat × Term)) :
    numbered (s :: rest) = (.int s.1, s.2) :: numbered rest := rfl

theorem indexed?_numbered (slots : List (Nat × Term)) : indexed? (numbered slots) = some slots := by
  induction slots with
  | nil => rfl
  | cons s rest ih =>
    unfold indexed? at ih ⊢
    rw [numbered_cons, List.mapM_cons, ih]
    rfl

/-- Numbers are read from entries exactly if all keys are natural numbers. -/
theorem indexed?_eq_some_iff {entries : Entries} {slots : List (Nat × Term)} :
    indexed? entries = some slots ↔ entries = numbered slots := by
  constructor
  · intro read
    induction entries generalizing slots with
    | nil =>
      cases read
      rfl
    | cons e rest ih =>
      unfold indexed? at read ih
      rw [List.mapM_cons] at read
      obtain ⟨s, first, read⟩ := Option.bind_eq_some_iff.1 read
      obtain ⟨later, others, eq⟩ := Option.bind_eq_some_iff.1 read
      cases eq
      rw [ih others]
      split at first
      · cases first
        rfl
      · cases first
  · rintro rfl
    exact indexed?_numbered slots

theorem exists_numbered {entries : Entries} (natural : ∀ e ∈ entries, ∃ n : Nat, e.1 = .int n) :
    ∃ slots, entries = numbered slots := by
  induction entries with
  | nil => exact ⟨[], rfl⟩
  | cons e rest ih =>
    obtain ⟨⟨n, key⟩, natural⟩ := List.forall_mem_cons.1 natural
    obtain ⟨slots, rfl⟩ := ih natural
    exact ⟨(n, e.2) :: slots, congrArg (· :: numbered slots) (Prod.ext key rfl)⟩

/-! ## Spreading out -/

theorem lt_extent_iff {slots : List (Nat × Term)} {i : Nat} :
    i < extent slots ↔ ∃ s ∈ slots, i ≤ s.1 := by
  have onto : ∀ start, i < slots.foldl (fun n s => max n (s.1 + 1)) start ↔
      i < start ∨ ∃ s ∈ slots, i ≤ s.1 := by
    induction slots with
    | nil => simp
    | cons s rest ih =>
      intro start
      simp only [List.foldl_cons, ih, List.mem_cons, exists_eq_or_imp, ← or_assoc]
      exact or_congr_left (by omega)
  rw [extent, onto]
  exact or_iff_right (Nat.not_lt_zero i)

/-- Items that have each value at its number and a fill in the gaps, up to the largest number. -/
structure Slotted (value? : Nat → Option Term) (fill : Term) (items : List Term) : Prop where
  lt_length_iff : ∀ i, i < items.length ↔ ∃ n, i ≤ n ∧ (value? n).isSome
  item : ∀ i < items.length, items[i]? = some ((value? i).getD fill)

theorem spread_slotted (slots : List (Nat × Term)) (fill : Term) :
    Slotted (fun i => slots.lookup i) fill (spread slots fill) where
  lt_length_iff i := by
    rw [spread, List.length_map, List.length_range, lt_extent_iff]
    simp only [List.lookup_isSome_iff, beq_iff_eq]
    constructor
    · rintro ⟨s, mem, le⟩
      exact ⟨s.1, le, s, mem, rfl⟩
    · rintro ⟨_, le, s, mem, rfl⟩
      exact ⟨s, mem, le⟩
  item i below := by
    rw [spread, List.length_map, List.length_range] at below
    rw [spread, List.getElem?_map, List.getElem?_range below, Option.map_some]

/-- The values under the numbers and the fill leave no choice of the items. -/
theorem Slotted.unique {value? : Nat → Option Term} {fill : Term} {items others : List Term}
    (h : Slotted value? fill items) (h' : Slotted value? fill others) : items = others := by
  have inside : ∀ i, i < items.length ↔ i < others.length := fun i =>
    (h.lt_length_iff i).trans (h'.lt_length_iff i).symm
  refine List.ext_getElem? fun i => ?_
  by_cases below : i < items.length
  · rw [h.item i below, h'.item i ((inside i).1 below)]
  · rw [List.getElem?_eq_none (Nat.le_of_not_lt below),
      List.getElem?_eq_none (Nat.le_of_not_lt (below ∘ (inside i).2))]

end SpecMatch.Term
