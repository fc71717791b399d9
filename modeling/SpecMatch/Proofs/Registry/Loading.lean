import SpecMatch.Proofs.Registry.Names

/-!
# Loading a registry from a configuration

A configuration is read from a term and a registry is built of it (`RegistryConfig.loadFrom`). Three
things can come of that. A term that is `Malformed` is reported as such, before any name is looked
at; then a type name that is empty or too long is reported; and else there is a registry of exactly
the types that are given and, if they are asked for, the aliases of the abstract classes
(`loads_exactly`).
-/

namespace SpecMatch

namespace RegistryConfig

/-- Reads a configuration from a term and builds its registry. -/
def loadFrom (data : Term) : Eval Registry := do
  (← Eval.ofExcept ((parse data).mapError .malformedConfig)).load

/-! ## What a term must look like -/

/-- A plain or ordered map; a read-only view of one is none. -/
def IsDict : Term → Prop
  | .map .plain _ | .map .ordered _ => True
  | _ => False

/-- What stands for the types; there need not be any. -/
def typesEntry (data : Term) : Term := data.lookup (.str "types") (.map .plain [])

/-- What stands for the question whether the aliases are wanted; they need not be. -/
def builtinsEntry (data : Term) : Term := data.lookup (.str "builtins") (.bool false)

/-- A term that no configuration can be read from. -/
def Malformed (data : Term) : Prop :=
  ¬ IsDict data ∨ ¬ IsDict (typesEntry data) ∨
    (∃ e ∈ (typesEntry data).entries, ∀ name, e.1 ≠ .str name) ∨
    (∃ e ∈ (typesEntry data).entries, ∀ path, e.2 ≠ .str path) ∨
    ∀ b, builtinsEntry data ≠ .bool b

/-- A type name that is empty or longer than 256 characters. -/
def Misnamed (data : Term) : Prop :=
  ∃ e ∈ (typesEntry data).entries, ∃ name, e.1 = .str name ∧ (name = "" ∨ 256 < name.length)

/-- A type under its name, as it stands in a configuration. -/
def typeEntry (type : String × String) : Term × Term := (.str type.1, .str type.2)

section

variable {data : Term}

theorem mapEntries?_dict (dict : IsDict data) : mapEntries? data = some data.entries := by
  cases data with
  | map kind entries =>
    cases kind with
    | plain | ordered => rfl
    | proxy => exact dict.elim
  | _ => exact dict.elim

theorem mapEntries?_eq_none (noDict : ¬ IsDict data) : mapEntries? data = none := by
  cases data with
  | map kind entries =>
    cases kind with
    | plain | ordered => exact absurd trivial noDict
    | proxy => rfl
  | _ => rfl

/-- An entry of a dictionary under a text. -/
theorem get?_entries (dict : IsDict data) (name : String) :
    data.entries.get? (.str name) = data.lookup? (.str name) := by
  cases data with
  | map kind entries => rfl
  | _ => exact dict.elim

theorem parseType_ok_iff {e : Term × Term} {type : String × String} :
    parseType e = .ok type ↔ e = typeEntry type := by
  constructor
  · intro run
    unfold parseType at run
    split at run <;> cases run
    rfl
  · rintro rfl
    rfl

theorem mapM_parseType_ok_iff {entries : Entries} {types : List (String × String)} :
    entries.mapM parseType = .ok types ↔ entries = types.map typeEntry := by
  constructor
  · intro run
    induction entries generalizing types with
    | nil =>
      cases run
      rfl
    | cons e rest ih =>
      rw [List.mapM_cons] at run
      cases first : parseType e with
      | error flaw =>
        rw [first] at run
        cases run
      | ok type =>
        cases later : rest.mapM parseType with
        | error flaw =>
          rw [first, later] at run
          cases run
        | ok types' =>
          rw [first, later] at run
          cases run
          rw [List.map_cons, ← ih later, ← parseType_ok_iff.1 first]
  · rintro rfl
    induction types with
    | nil => rfl
    | cons type rest ih =>
      rw [List.map_cons, List.mapM_cons, parseType_ok_iff.2 rfl, ih]
      rfl

theorem parseTypes_ok_iff (dict : IsDict data) {types : List (String × String)} :
    parseTypes data.entries = .ok types ↔
      IsDict (typesEntry data) ∧ (typesEntry data).entries = types.map typeEntry := by
  rw [parseTypes, get?_entries dict, typesEntry, Term.lookup]
  cases data.lookup? (.str "types") with
  | none => cases types <;> simp [IsDict, Term.entries]
  | some found =>
    dsimp only [Option.getD_some]
    by_cases typesDict : IsDict found
    · rw [mapEntries?_dict typesDict]
      simp only [mapM_parseType_ok_iff, typesDict, true_and]
    · rw [mapEntries?_eq_none typesDict]
      simp [typesDict]

theorem parseBuiltins_ok_iff (dict : IsDict data) {b : Bool} :
    parseBuiltins data.entries = .ok b ↔ builtinsEntry data = .bool b := by
  rw [parseBuiltins, get?_entries dict, builtinsEntry, Term.lookup]
  cases data.lookup? (.str "builtins") with
  | none => simp
  | some answer => cases answer <;> simp

/-- A configuration is read from a term exactly if it says the same as the term. -/
theorem parse_ok_iff {config : RegistryConfig} :
    parse data = .ok config ↔
      IsDict data ∧ IsDict (typesEntry data) ∧
        (typesEntry data).entries = config.types.map typeEntry ∧
        builtinsEntry data = .bool config.builtins := by
  by_cases dict : IsDict data
  · rw [parse, mapEntries?_dict dict]
    dsimp only
    constructor
    · intro run
      cases types : parseTypes data.entries with
      | error flaw =>
        rw [types] at run
        cases run
      | ok types' =>
        cases builtins : parseBuiltins data.entries with
        | error flaw =>
          rw [types, builtins] at run
          cases run
        | ok b =>
          rw [types, builtins] at run
          cases run
          obtain ⟨typesDict, entries⟩ := (parseTypes_ok_iff dict).1 types
          exact ⟨dict, typesDict, entries, (parseBuiltins_ok_iff dict).1 builtins⟩
    · rintro ⟨-, typesDict, entries, builtins⟩
      rw [(parseTypes_ok_iff dict).2 ⟨typesDict, entries⟩, (parseBuiltins_ok_iff dict).2 builtins]
      rfl
  · rw [parse, mapEntries?_eq_none dict]
    simp [dict]

/-- Entries of texts under texts are the types that they are read as. -/
theorem exists_types {entries : Entries} (names : ∀ e ∈ entries, ∃ name, e.1 = .str name)
    (paths : ∀ e ∈ entries, ∃ path, e.2 = .str path) :
    ∃ types : List (String × String), entries = types.map typeEntry := by
  induction entries with
  | nil => exact ⟨[], rfl⟩
  | cons e rest ih =>
    obtain ⟨⟨name, isName⟩, names⟩ := List.forall_mem_cons.1 names
    obtain ⟨⟨path, isPath⟩, paths⟩ := List.forall_mem_cons.1 paths
    obtain ⟨types, rfl⟩ := ih names paths
    exact ⟨(name, path) :: types, by rw [List.map_cons, typeEntry, ← isName, ← isPath]⟩

/-- No configuration can be read from a malformed term, and one from every other term. -/
theorem malformed_iff : Malformed data ↔ ∀ config, parse data ≠ .ok config := by
  constructor
  · intro malformed config run
    obtain ⟨dict, typesDict, entries, builtins⟩ := parse_ok_iff.1 run
    rw [Malformed, entries] at malformed
    rcases malformed with no | no | ⟨e, mem, no⟩ | ⟨e, mem, no⟩ | no
    · exact no dict
    · exact no typesDict
    · obtain ⟨type, -, rfl⟩ := List.mem_map.1 mem
      exact no _ rfl
    · obtain ⟨type, -, rfl⟩ := List.mem_map.1 mem
      exact no _ rfl
    · exact no _ builtins
  · intro unread
    by_contra wellFormed
    unfold Malformed at wellFormed
    push Not at wellFormed
    obtain ⟨dict, typesDict, names, paths, b, builtins⟩ := wellFormed
    obtain ⟨types, entries⟩ := exists_types names paths
    exact unread ⟨types, b⟩ (parse_ok_iff.2 ⟨dict, typesDict, entries, builtins⟩)

end

end RegistryConfig

/-! ## What is built -/

/-- A registry of the given types and, if they are wanted, the aliases of the abstract classes. A
type that is given stands in the place of an alias of the same name. The names can be listed in
order, each of them once. -/
structure Registry.BuiltFrom (r : Registry) (types : Entries) (builtins : Bool) : Prop where
  contains : ∀ name, r.contains name ↔ (∃ path, (.str name, path) ∈ types) ∨
    builtins ∧ ∃ path, (name, path) ∈ Registry.builtinTypes
  given : ∀ name path, (.str name, path) ∈ types → r.targets.get? (.str name) = some path
  aliases : builtins → ∀ name path, (name, path) ∈ Registry.builtinTypes →
    (∀ path', (.str name, path') ∉ types) → r.targets.get? (.str name) = some (.str path)
  names : ∃ sorted : List String, r.names = .ok (sorted.map .str) ∧ sorted.Pairwise (· < ·) ∧
    ∀ name, name ∈ sorted ↔ r.contains name

namespace RegistryConfig

section

variable {config : RegistryConfig}

theorem mem_typeEntries {types : List (String × String)} {name : String} {path : Term} :
    (.str name, path) ∈ types.map typeEntry ↔ ∃ text, path = .str text ∧ (name, text) ∈ types := by
  simp only [List.mem_map, typeEntry, Prod.mk.injEq, Term.str.injEq, Prod.exists]
  constructor
  · rintro ⟨_, text, mem, rfl, rfl⟩
    exact ⟨text, rfl, mem⟩
  · rintro ⟨text, rfl, mem⟩
    exact ⟨name, text, mem, rfl, rfl⟩

/-- The aliases that a configuration asks for. -/
def wanted (config : RegistryConfig) : List (String × String) :=
  if config.builtins then Registry.builtinTypes else []

/-- Adding the aliases that are asked for cannot fail. -/
theorem wanted_added (config : RegistryConfig) :
    ∃ r, Registry.addAll {} config.wanted = .ok r ∧ Registry.Extends {} r config.wanted := by
  have distinct : (config.wanted.map (·.1)).Nodup := by
    unfold wanted
    split <;> decide
  have valid : ∀ t ∈ config.wanted, Registry.ValidName t.1 := by
    unfold wanted
    split <;> decide
  have empty : (Registry.mk []).NamedBy [] := ⟨rfl, .nil⟩
  exact Registry.addAll_valid empty distinct valid

theorem mem_wanted {name : String} :
    name ∈ config.wanted.map (·.1) ↔
      config.builtins ∧ ∃ path, (name, path) ∈ Registry.builtinTypes := by
  unfold wanted
  cases config.builtins <;> simp

/-- The aliases come first and the types after them. -/
theorem registry_built (distinct : (config.types.map (·.1)).Nodup)
    (valid : ∀ t ∈ config.types, Registry.ValidName t.1) :
    ∃ r, config.registry = .ok r ∧ r.BuiltFrom (config.types.map typeEntry) config.builtins := by
  obtain ⟨aliases, run, started⟩ := config.wanted_added
  obtain ⟨names, named⟩ := started.named
  obtain ⟨r, run', extended⟩ := Registry.addAll_valid named distinct valid
  have registered (name : String) : name ∈ config.types.map (·.1) ↔
      ∃ path, (.str name, path) ∈ config.types.map typeEntry := by
    simp [mem_typeEntries]
  refine ⟨r, ?_, ?_, ?_, ?_, ?_⟩
  · show (do (← Registry.addAll {} config.wanted).addAll config.types) = _
    rw [run]
    exact run'
  · intro name
    have empty : ¬ (Registry.mk []).contains name := Bool.false_ne_true
    rw [extended.contains_iff, started.contains_iff, registered, mem_wanted, or_iff_left empty]
  · intro name path mem
    obtain ⟨text, rfl, stands⟩ := mem_typeEntries.1 mem
    exact extended.given (name, text) stands
  · intro builtins name path mem absent
    have standing : (name, path) ∈ config.wanted := by rwa [wanted, if_pos builtins]
    rw [extended.kept name (mt (registered name).1 (not_exists.2 absent))]
    exact started.given (name, path) standing
  · obtain ⟨names', named'⟩ := extended.named
    exact named'.sorted

theorem registry_invalid (invalid : ∃ t ∈ config.types, ¬ Registry.ValidName t.1) :
    ∃ flaw, config.registry = .error (.invalidName flaw) := by
  obtain ⟨aliases, run, -⟩ := config.wanted_added
  obtain ⟨flaw, run'⟩ := Registry.addAll_invalid (r := aliases) invalid
  refine ⟨flaw, ?_⟩
  show (do (← Registry.addAll {} config.wanted).addAll config.types) = _
  rw [run]
  exact run'

end

/-! ## Loading -/

section

variable {data : Term} (w : World)

theorem loadFrom_malformed (malformed : Malformed data) :
    ∃ flaw, loadFrom data w = .error (.malformedConfig flaw) w := by
  cases run : parse data with
  | ok config => exact absurd run (malformed_iff.1 malformed config)
  | error flaw =>
    refine ⟨flaw, ?_⟩
    rw [loadFrom, run]
    rfl

/-- A well-formed term is read as its own types. -/
theorem exists_config (wellFormed : ¬ Malformed data) :
    ∃ config, parse data = .ok config ∧
      (typesEntry data).entries = config.types.map typeEntry ∧
      builtinsEntry data = .bool config.builtins := by
  cases run : parse data with
  | error flaw => exact absurd (malformed_iff.2 fun config => by rw [run]; nofun) wellFormed
  | ok config => exact ⟨config, rfl, (parse_ok_iff.1 run).2.2⟩

theorem misnamed_iff {types : List (String × String)}
    (entries : (typesEntry data).entries = types.map typeEntry) :
    Misnamed data ↔ ∃ t ∈ types, ¬ Registry.ValidName t.1 := by
  have flawed (name : String) : ¬ Registry.ValidName name ↔ name = "" ∨ 256 < name.length := by
    rw [Registry.ValidName, Decidable.not_and_iff_or_not, Decidable.not_not, Nat.not_le]
    rfl
  simp [Misnamed, entries, typeEntry, flawed]

theorem loadFrom_misnamed (wellFormed : ¬ Malformed data) (misnamed : Misnamed data) :
    ∃ flaw, loadFrom data w = .error (.invalidName flaw) w := by
  obtain ⟨config, read, entries, -⟩ := exists_config wellFormed
  obtain ⟨flaw, run⟩ := registry_invalid ((misnamed_iff entries).1 misnamed)
  refine ⟨flaw, ?_⟩
  rw [loadFrom, read]
  show config.load w = _
  rw [load, run]
  rfl

theorem loadFrom_built (keyed : (typesEntry data).WellKeyed) (wellFormed : ¬ Malformed data)
    (named : ¬ Misnamed data) :
    ∃ r w' builtins, loadFrom data w = .ok r w' ∧ builtinsEntry data = .bool builtins ∧
      r.BuiltFrom (typesEntry data).entries builtins := by
  obtain ⟨config, read, entries, builtins⟩ := exists_config wellFormed
  have valid : ∀ t ∈ config.types, Registry.ValidName t.1 := by
    rw [misnamed_iff entries] at named
    push Not at named
    exact named
  have distinct : (config.types.map (·.1)).Nodup := by
    have keys := keyed.distinct
    rw [entries, List.pairwise_map] at keys
    exact List.pairwise_map.2 (keys.imp fun other same => other (Term.sameKey_str.2 same))
  obtain ⟨r, run, built⟩ := registry_built distinct valid
  obtain ⟨sorted, listed, -⟩ := built.names
  have ran : loadFrom data w = r.build w := by
    rw [loadFrom, read]
    show config.load w = _
    rw [load, run]
    rfl
  exact ⟨r, _, config.builtins, ran.trans (Registry.build_apply listed w), builtins,
    entries ▸ built⟩

/-- Loading a configuration ends in one of three ways, and the term alone decides in which: it is
malformed, a type in it is misnamed, or there is a registry of what it asks for. -/
theorem loads_exactly (data : Term) (keyed : (typesEntry data).WellKeyed) (w : World) :
    ((∃ flaw w', loadFrom data w = .error (.malformedConfig flaw) w') ↔ Malformed data) ∧
    ((∃ flaw w', loadFrom data w = .error (.invalidName flaw) w') ↔
      ¬ Malformed data ∧ Misnamed data) ∧
    (¬ Malformed data → ¬ Misnamed data → ∃ r w' builtins, loadFrom data w = .ok r w' ∧
      builtinsEntry data = .bool builtins ∧ r.BuiltFrom (typesEntry data).entries builtins) ∧
    ∀ fault w', loadFrom data w = .error fault w' →
      (∃ flaw, fault = .malformedConfig flaw) ∨ ∃ flaw, fault = .invalidName flaw := by
  by_cases malformed : Malformed data
  · obtain ⟨flaw, run⟩ := loadFrom_malformed w malformed
    rw [run]
    refine ⟨iff_of_true ⟨flaw, w, rfl⟩ malformed, iff_of_false ?_ fun h => h.1 malformed,
      fun wellFormed => absurd malformed wellFormed, ?_⟩
    · rintro ⟨other, w', run'⟩
      cases run'
    · rintro fault w' run'
      cases run'
      exact .inl ⟨flaw, rfl⟩
  by_cases misnamed : Misnamed data
  · obtain ⟨flaw, run⟩ := loadFrom_misnamed w malformed misnamed
    rw [run]
    refine ⟨iff_of_false ?_ malformed, iff_of_true ⟨flaw, w, rfl⟩ ⟨malformed, misnamed⟩,
      fun _ named => absurd misnamed named, ?_⟩
    · rintro ⟨other, w', run'⟩
      cases run'
    · rintro fault w' run'
      cases run'
      exact .inr ⟨flaw, rfl⟩
  · obtain ⟨r, w', builtins, run, result⟩ := loadFrom_built w keyed malformed misnamed
    rw [run]
    have noFault {fault : Fault} {v : World} :
        (EStateM.Result.ok r w' : EStateM.Result Fault World Registry) ≠ .error fault v := nofun
    exact ⟨iff_of_false (fun ⟨_, _, run'⟩ => noFault run') malformed,
      iff_of_false (fun ⟨_, _, run'⟩ => noFault run') fun h => misnamed h.2,
      fun _ _ => ⟨r, w', builtins, rfl, result⟩, fun _ _ run' => absurd run' noFault⟩

end

/-- A type takes the place of the alias of its name; the other aliases are there as well. -/
theorem number_alias_overridden :
    let data : Term := .map .plain [(.str "builtins", .bool true),
      (.str "types", .map .ordered [(.str "Number", .str "decimal.Decimal"),
        (.str "Animal", .str "zoo:Animal")])]
    (typesEntry data).WellKeyed ∧ ¬ Malformed data ∧ ¬ Misnamed data ∧
      ∃ r w', loadFrom data {} = .ok r w' ∧ r.BuiltFrom (typesEntry data).entries true ∧
        r.targets.get? (.str "Number") = some (.str "decimal.Decimal") ∧
        r.targets.get? (.str "Mapping") = some (.str "collections.abc.Mapping") := by
  intro data
  have keyed : (typesEntry data).WellKeyed := by decide
  let config : RegistryConfig :=
    ⟨[("Number", "decimal.Decimal"), ("Animal", "zoo:Animal")], true⟩
  have entries : (typesEntry data).entries = config.types.map typeEntry := rfl
  have wellFormed : ¬ Malformed data := fun malformed => malformed_iff.1 malformed config rfl
  have named : ¬ Misnamed data := by
    rw [misnamed_iff entries]
    decide
  obtain ⟨r, w', builtins, run, asked, built⟩ :=
    (loads_exactly data keyed {}).2.2.1 wellFormed named
  cases asked
  refine ⟨keyed, wellFormed, named, r, w', run, built, ?_, ?_⟩
  · exact built.given _ _ (by simp [entries, config, typeEntry])
  · exact built.aliases rfl _ _ (by simp [Registry.builtinTypes])
      (by simp [entries, config, typeEntry])

end RegistryConfig

end SpecMatch
