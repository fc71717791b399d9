import SpecMatch.Proofs.Term.Rebuild
import SpecMatch.Proofs.Term.Memory

/-!
# Containers as finite maps

`Term.entries`, `Term.lookup` and `Term.rebuild` are three views of one finite map
(`entries_lookup_rebuild_agree`). Each form of container has its own way to tell which entry a key
asks for (`Term.Asks`): an array goes by the integer itself, a map by equality with a hashable key,
a field bag by the text. A key finds a child exactly if it asks for an entry
(`lookup?_eq_some_iff`), and a container is rebuilt from its own entries (`rebuild_entries`).
-/

namespace SpecMatch.Term

/-- Whether a container that is asked for one term takes it for the key of an entry. In an array
only an integer will do, neither a truth value nor a double that is equal to it. -/
def Asks (alike : String → String → Bool) (x asked key : Term) : Prop :=
  match x.form? with
  | some .array => ∃ i : Int, asked = .int i ∧ key = .int i
  | some .map => asked.hashable ∧ key.equal alike asked
  | some .fields => ∃ name : String, asked = .str name ∧ key = .str name
  | none => False

/-- No key is a NaN, which equals nothing. -/
def NanFree (x : Term) : Prop := ∀ e ∈ x.entries, ∀ id, e.1 ≠ .float (.nan id)

section

variable {alike : String → String → Bool} {x : Term}

/-- Equality and sameness differ on a NaN alone, and keys hold no memories. -/
theorem equal_eq_sameKey {key : Term} (hashable : key.hashable)
    (noNan : ∀ id, key ≠ .float (.nan id)) (asked : Term) :
    key.equal alike asked = key.sameKey asked := by
  unfold equal
  split
  next id => exact absurd rfl (noNan id)
  next => exact same_congr (Bool.or_eq_true_iff.2 (.inl (memoryless_of_hashable hashable)))

/-- What a key finds is the child of an entry that it asks for. -/
theorem exists_asks_of_lookup? (keyed : x.WellKeyed) (noNan : x.NanFree) {asked child : Term}
    (found : x.lookup? asked = some child) :
    ∃ e ∈ x.entries, x.Asks alike asked e.1 ∧ e.2 = child := by
  unfold lookup? at found
  split at found
  case h_1 items i | h_2 items i =>
    split at found
    next inside =>
      refine ⟨(.int i, child), mem_positions.2 ⟨i.toNat, found, ?_⟩, ⟨i, rfl, rfl⟩, rfl⟩
      rw [Nat.zero_add, Int.toNat_of_nonneg inside]
    next => cases found
  case h_3 kind entries =>
    split at found
    next hashable =>
      obtain ⟨e, first, rfl⟩ := Option.map_eq_some_iff.1 found
      have mem : e ∈ (Term.map kind entries).entries := List.mem_of_find?_eq_some first
      have same := List.find?_some first
      refine ⟨e, mem, ⟨hashable, ?_⟩, rfl⟩
      rwa [equal_eq_sameKey (keyed.hashable e mem) (noNan e mem)]
    next => cases found
  case h_4 attributes name =>
    exact ⟨(.str name, child), List.mem_map_of_mem (mem_of_attributes_get? found),
      ⟨name, rfl, rfl⟩, rfl⟩
  case h_5 => cases found

/-- A key that asks for an entry finds its child. -/
theorem lookup?_of_asks (keyed : x.WellKeyed) (noNan : x.NanFree) {asked : Term}
    {e : Term × Term} (mem : e ∈ x.entries) (asks : x.Asks alike asked e.1) :
    x.lookup? asked = some e.2 := by
  have own : asked = e.1 → x.lookup? asked = some e.2 := fun eq => eq ▸ keyed.lookup?_eq mem
  cases x with
  | list items | tuple items =>
    obtain ⟨i, rfl, key⟩ := asks
    exact own key.symm
  | fields attributes =>
    obtain ⟨name, rfl, key⟩ := asks
    exact own key.symm
  | map kind entries =>
    obtain ⟨hashable, equal⟩ := asks
    have same : e.1.sameKey asked :=
      (equal_eq_sameKey (keyed.hashable e mem) (noNan e mem) asked).symm.trans equal
    have found : ((Term.map kind entries).lookup? asked).isSome := by
      rw [lookup?, if_pos hashable, Entries.get?, Option.isSome_map, List.find?_isSome]
      exact ⟨e, mem, same⟩
    obtain ⟨child, found⟩ := Option.isSome_iff_exists.1 found
    rw [found, eq_of_lookup? keyed mem found (same_symm (keyed.hashable e mem) same)]
  | _ => exact asks.elim

/-- A key finds a child exactly if it asks for the entry of the child. -/
theorem lookup?_eq_some_iff (keyed : x.WellKeyed) (noNan : x.NanFree) {asked child : Term} :
    x.lookup? asked = some child ↔ ∃ e ∈ x.entries, x.Asks alike asked e.1 ∧ e.2 = child := by
  constructor
  · exact exists_asks_of_lookup? keyed noNan
  · rintro ⟨e, mem, asks, rfl⟩
    exact lookup?_of_asks keyed noNan mem asks

/-- The entries of an array are asked for by the integers within its bounds. -/
theorem exists_asks_array_iff (array : x.form? = some .array) {asked : Term} :
    (∃ e ∈ x.entries, x.Asks alike asked e.1) ↔
      ∃ i : Int, asked = .int i ∧ 0 ≤ i ∧ i < x.children.length := by
  have listed : ∃ items, x.entries = positions 0 items ∧ x.children = items := by
    cases x with
    | list items => exact ⟨items, rfl, children_list items⟩
    | tuple items => exact ⟨items, rfl, children_tuple items⟩
    | _ => cases array
  obtain ⟨items, entries, children⟩ := listed
  rw [entries, children]
  simp only [Asks, array]
  constructor
  · rintro ⟨e, mem, i, rfl, key⟩
    obtain ⟨n, stands, position⟩ := mem_positions.1 mem
    obtain ⟨below, -⟩ := List.getElem?_eq_some_iff.1 stands
    have eq : (i : Int) = (0 + n : Nat) := Term.int.inj (key.symm.trans position)
    exact ⟨i, rfl, by omega, by omega⟩
  · rintro ⟨i, rfl, nonneg, below⟩
    have inside : i.toNat < items.length := by omega
    refine ⟨(.int i, items[i.toNat]),
      mem_positions.2 ⟨i.toNat, List.getElem?_eq_getElem inside, ?_⟩,
      i, rfl, rfl⟩
    rw [Nat.zero_add, Int.toNat_of_nonneg nonneg]

/-- A container is rebuilt from its own entries, a map as a plain one. -/
theorem rebuild_entries (container : x.isContainer) (keyed : x.WellKeyed) (spell : Term → String)
    (fill : Term) :
    ∃ y, rebuild spell x x.entries fill = .ok y ∧ y.entries = x.entries ∧
      y.classOf = if x.form? = some .map then .plainMap else x.classOf := by
  have children : x.children = x.entries.map (·.2) := rfl
  have own : x.entries.map (fun e => (e.1, e.2)) = x.entries := List.map_id _
  have rebuilt := rebuild_rekeyed container keyed (List.length_map (·.2)) spell fill
  rw [rekeyed, List.zipWith_map_right, List.zipWith_self, own] at rebuilt
  refine ⟨_, rebuilt, (entries_withChildren_map container (·.2)).trans own, ?_⟩
  cases x with
  | list | tuple | map | fields => rfl
  | _ => cases container

/-- The entries of a container, looking up in it and rebuilding it describe one finite map: every
entry is found under its own key, a key finds the entry that it asks for and the default if there is
none, and the entries make up the container again. -/
theorem entries_lookup_rebuild_agree (container : x.isContainer) (keyed : x.WellKeyed)
    (noNan : x.NanFree) (alike : String → String → Bool) (spell : Term → String) :
    (∀ e ∈ x.entries, ∀ default, x.lookup e.1 default = e.2) ∧
    (∀ asked default,
      ((∀ e ∈ x.entries, ¬ x.Asks alike asked e.1) → x.lookup asked default = default) ∧
        ∀ e ∈ x.entries, x.Asks alike asked e.1 → x.lookup asked default = e.2) ∧
    (x.form? = some .array → ∀ asked, (∃ e ∈ x.entries, x.Asks alike asked e.1) ↔
      ∃ i : Int, asked = .int i ∧ 0 ≤ i ∧ i < x.children.length) ∧
    ∀ fill, ∃ y, rebuild spell x x.entries fill = .ok y ∧ y.entries = x.entries ∧
      y.classOf = if x.form? = some .map then .plainMap else x.classOf := by
  refine ⟨fun e mem default => ?_, fun asked default => ⟨fun none => ?_, fun e mem asks => ?_⟩,
    fun array _ => exists_asks_array_iff array, rebuild_entries container keyed spell⟩
  · rw [lookup, keyed.lookup?_eq mem, Option.getD_some]
  · rw [lookup]
    cases found : x.lookup? asked with
    | none => rfl
    | some child =>
      obtain ⟨e, mem, asks, -⟩ := (lookup?_eq_some_iff keyed noNan).1 found
      exact absurd asks (none e mem)
  · rw [lookup, lookup?_of_asks keyed noNan mem asks, Option.getD_some]

end

/-- In a map a truth value and a double find what stands under the integer that they equal, and a
list, which cannot be hashed, finds nothing. An array is asked by integers alone. -/
theorem map_and_array_asked :
    let x : Term := .map .ordered [(.int 1, .str "one"), (.tuple [.bool false], .missing)]
    let y : Term := .tuple [.str "zero", .str "one"]
    (x.isContainer ∧ x.WellKeyed ∧ x.NanFree) ∧ (y.isContainer ∧ y.WellKeyed ∧ y.NanFree) ∧
      x.lookup (.bool true) .null = .str "one" ∧
      x.lookup (.float (.finite false Double.unitsPerOne)) .null = .str "one" ∧
      x.lookup (.tuple [.int 0]) .null = .missing ∧ x.lookup (.list [.int 1]) .null = .null ∧
      y.lookup (.int 1) .null = .str "one" ∧ y.lookup (.bool true) .null = .null := by
  intro x y
  have xKeyed : x.WellKeyed := by decide
  have xNoNan : x.NanFree := by simp [NanFree, x, entries]
  have yNoNan : y.NanFree := by simp [NanFree, y, entries, positions]
  obtain ⟨-, inMap, -⟩ :=
    entries_lookup_rebuild_agree (x := x) rfl xKeyed xNoNan (· == ·) fun _ => ""
  obtain ⟨-, inArray, -⟩ :=
    entries_lookup_rebuild_agree (x := y) rfl (.array rfl) yNoNan (· == ·) fun _ => ""
  have one : (Term.int 1, Term.str "one") ∈ x.entries := List.mem_cons_self
  have second : (Term.tuple [.bool false], Term.missing) ∈ x.entries := by simp [x, entries]
  have unit : (Term.int 1, Term.str "one") ∈ y.entries := by simp [y, entries, positions]
  refine ⟨⟨rfl, xKeyed, xNoNan⟩, ⟨rfl, .array rfl, yNoNan⟩, (inMap _ _).2 _ one ⟨rfl, ?_⟩,
    (inMap _ _).2 _ one ⟨rfl, ?_⟩, (inMap _ _).2 _ second ⟨rfl, ?_⟩,
    (inMap _ _).1 fun e _ asks => ?_, (inArray _ _).2 _ unit ⟨1, rfl, rfl⟩,
    (inArray _ _).1 fun e _ asks => ?_⟩
  · simp [equal, same, number?]
  · exact beq_iff_eq.2 (congrArg some (congrArg Number.units (Int.one_mul _).symm))
  · simp [equal, same, sameItems, number?]
  · cases asks.1
  · obtain ⟨i, asked, -⟩ := asks
    cases asked

end SpecMatch.Term
