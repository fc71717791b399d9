import SpecMatch.Proofs.Evaluation.Budget
import SpecMatch.Proofs.Matching.Questions

/-!
# Names that cannot be resolved

An import path is split at its first colon, or at its last dot if it has no colon
(`ImportPath.Splits`, `parse?_eq_some_iff`). If the module in front starts with a dot, then it is
relative to nothing, and the host refuses to look for it (`ImportPath.Relative`).

Resolving a name therefore ends in a class or in the report that the name cannot be resolved exactly
if its path is not relative; a relative path ends it in a misuse instead. Matching a type name
resolves it and then asks the class that is found, which may refuse to answer
(`settles_iff_not_relative`).
-/

namespace SpecMatch

namespace ImportPath

/-! ## Where a path is split -/

/-- The parts of a path: before and after its first colon, or its last dot if it has no colon. -/
def Splits (path module name : List Char) : Prop :=
  (path = module ++ ':' :: name ∧ ':' ∉ module) ∨
    (path = module ++ '.' :: name ∧ '.' ∉ name ∧ ':' ∉ path)

/-- A path that names an attribute of a module whose name starts with a dot. -/
def Relative (path : String) : Prop :=
  ∃ module name, Splits path.toList ('.' :: module) name ∧ name ≠ []

theorem takeWhile_ne {separator : Char} {cs rest : List Char} (absent : separator ∉ cs) :
    (cs ++ separator :: rest).takeWhile (· != separator) = cs := by
  have all : ∀ c ∈ cs, (c != separator) = true := fun c mem =>
    bne_iff_ne.2 fun eq => absent (eq ▸ mem)
  rw [List.takeWhile_append_of_pos all, List.takeWhile_cons_of_neg (by simp), List.append_nil]

theorem dropWhile_ne {separator : Char} {cs rest : List Char} (absent : separator ∉ cs) :
    (cs ++ separator :: rest).dropWhile (· != separator) = separator :: rest := by
  have all : ∀ c ∈ cs, (c != separator) = true := fun c mem =>
    bne_iff_ne.2 fun eq => absent (eq ▸ mem)
  rw [List.dropWhile_append_of_pos all, List.dropWhile_cons_of_neg (by simp)]

theorem splitLast_append {separator : Char} {before after : List Char}
    (absent : separator ∉ after) :
    splitLast separator (before ++ separator :: after) = (before, after) := by
  have reversed : (before ++ separator :: after).reverse =
      after.reverse ++ separator :: before.reverse := by simp
  have length : (before ++ separator :: after).length - after.length - 1 = before.length := by
    simp only [List.length_append, List.length_cons]
    omega
  rw [splitLast, reversed, takeWhile_ne (by simpa using absent), List.reverse_reverse, length,
    List.take_left]

/-- Without a separator nothing stands before it. -/
theorem splitLast_of_notMem {separator : Char} {cs : List Char} (absent : separator ∉ cs) :
    (splitLast separator cs).1 = [] := by
  have all : ∀ c ∈ cs.reverse, (c != separator) = true := fun c mem =>
    bne_iff_ne.2 fun eq => absent (eq ▸ List.mem_reverse.1 mem)
  have whole : cs.reverse.takeWhile (· != separator) = cs.reverse := by
    rw [← List.append_nil cs.reverse, List.takeWhile_append_of_pos all, List.takeWhile_nil]
  rw [splitLast, whole, List.reverse_reverse, Nat.sub_self]
  rfl

/-- A text that holds a character is split where it stands last. -/
theorem exists_last {c : Char} {cs : List Char} (mem : c ∈ cs) :
    ∃ before after, cs = before ++ c :: after ∧ c ∉ after := by
  obtain ⟨after, before, eq, absent⟩ := List.eq_append_cons_of_mem (List.mem_reverse.2 mem)
  refine ⟨before.reverse, after.reverse, ?_, by simpa using absent⟩
  rw [← List.reverse_reverse cs, eq]
  simp

/-- A path is read as its parts if neither of them is empty. -/
theorem parse?_of_splits {path : String} {module name : List Char}
    (splits : Splits path.toList module name) :
    parse? path = if module.isEmpty || name.isEmpty then none
      else some ⟨String.ofList module, String.ofList name⟩ := by
  unfold parse?
  dsimp only
  rcases splits with ⟨eq, absent⟩ | ⟨eq, absent, noColon⟩
  · have colon : path.toList.contains ':' = true := by simp [eq]
    rw [if_pos colon, eq, takeWhile_ne absent, dropWhile_ne absent]
    rfl
  · have noColon : ¬ path.toList.contains ':' = true := by simpa using noColon
    rw [if_neg noColon, eq, splitLast_append absent]

/-- Without a colon and a dot there is no module. -/
theorem parse?_of_notMem {path : String} (noColon : ':' ∉ path.toList)
    (noDot : '.' ∉ path.toList) : parse? path = none := by
  have noColon : ¬ path.toList.contains ':' = true := by simpa using noColon
  unfold parse?
  dsimp only
  rw [if_neg noColon, splitLast_of_notMem noDot]
  rfl

/-- What a path is read as are its parts, which both have to be there. -/
theorem parse?_eq_some_iff {path : String} {parts : ImportPath} :
    parse? path = some parts ↔
      Splits path.toList parts.module.toList parts.name.toList ∧
        parts.module ≠ "" ∧ parts.name ≠ "" := by
  constructor
  · intro read
    -- Every path that has a colon or a dot splits somewhere, and the others are not read at all.
    have splits : ∃ module name, Splits path.toList module name := by
      by_cases colon : ':' ∈ path.toList
      · obtain ⟨module, name, eq, absent⟩ := List.eq_append_cons_of_mem colon
        exact ⟨module, name, .inl ⟨eq, absent⟩⟩
      by_cases dot : '.' ∈ path.toList
      · obtain ⟨module, name, eq, absent⟩ := exists_last dot
        exact ⟨module, name, .inr ⟨eq, absent, colon⟩⟩
      · rw [parse?_of_notMem colon dot] at read
        cases read
    obtain ⟨module, name, splits⟩ := splits
    rw [parse?_of_splits splits] at read
    split at read
    next => cases read
    next filled =>
      cases read
      simpa [splits] using filled
  · rintro ⟨splits, module, name⟩
    rw [parse?_of_splits splits, if_neg (by simp [module, name]), String.ofList_toList,
      String.ofList_toList]

theorem startsWith_dot_iff {name : String} :
    name.startsWith "." = true ↔ ∃ rest, name.toList = '.' :: rest := by
  rw [String.startsWith_string_iff]
  exact ⟨fun ⟨rest, eq⟩ => ⟨rest, eq.symm⟩, fun ⟨rest, eq⟩ => ⟨rest, eq.symm⟩⟩

/-- A path is relative if and only if it is read as a module that starts with a dot. -/
theorem relative_iff {path : String} :
    Relative path ↔ ∃ parts, parse? path = some parts ∧ parts.module.startsWith "." = true := by
  simp only [parse?_eq_some_iff, startsWith_dot_iff]
  constructor
  · rintro ⟨module, name, splits, filled⟩
    exact ⟨⟨String.ofList ('.' :: module), String.ofList name⟩, by simpa [filled] using splits,
      module, String.toList_ofList⟩
  · rintro ⟨parts, ⟨splits, -, filled⟩, rest, eq⟩
    exact ⟨rest, parts.name.toList, eq ▸ splits, by simpa using filled⟩

end ImportPath

namespace Registry

/-! ## What becomes of a name -/

/-- The target of a name is a path that is relative. -/
def LeadsNowhere (r : Registry) (name : String) : Prop :=
  ∃ path, r.targets.get? (.str name) = some (.str path) ∧ ImportPath.Relative path

/-- A run ends with an answer or with the report that a type name cannot be resolved. -/
def Settles {α : Type} (name : String) (run : EStateM.Result Fault World α) : Prop :=
  (∃ a w, run = .ok a w) ∨ ∃ reason w, run = .error (.unresolvedType name reason) w

/-- The only fault is that the name cannot be resolved. -/
abbrev Reports {α : Type} (name : String) (m : Eval α) : Prop :=
  m.Yields (fun _ => True) (fun fault => ∃ reason, fault = .unresolvedType name reason)
    fun _ => True

theorem Reports.settles {α : Type} {name : String} {m : Eval α} (reports : Reports name m)
    (w : World) : Settles name (m w) := by
  have ends := reports w trivial
  cases run : m w with
  | ok a w' => exact .inl ⟨a, w', rfl⟩
  | error fault w' =>
    rw [run] at ends
    obtain ⟨reason, rfl⟩ := ends
    exact .inr ⟨reason, w', rfl⟩

theorem classNamed_reports (name : String) (target : Term) :
    Reports name (classNamed name target) := by
  unfold classNamed
  split
  · exact .pure trivial
  · exact Eval.Yields.store.bind fun _ _ => .throw ⟨_, rfl⟩

theorem importPath_relative (modules : Modules) (name : String) {path : String}
    (relative : ImportPath.Relative path) (w : World) :
    importPath modules name path w = .error (.misuse .relativeModule) w := by
  obtain ⟨parts, read, dot⟩ := ImportPath.relative_iff.1 relative
  unfold importPath
  rw [read]
  dsimp only
  rw [if_pos dot]
  rfl

theorem importPath_reports (modules : Modules) (name : String) {path : String}
    (absolute : ¬ ImportPath.Relative path) : Reports name (importPath modules name path) := by
  have told (event : Event) : Reports name (Eval.emit event) := .emit fun _ _ => trivial
  unfold importPath
  split
  · exact .throw ⟨_, rfl⟩
  next module member read =>
    have noDot : ¬ module.startsWith "." = true := fun dot =>
      absolute (ImportPath.relative_iff.2 ⟨_, read, dot⟩)
    rw [if_neg noDot]
    split
    · exact (told _).bind fun _ _ => .throw ⟨_, rfl⟩
    · split
      · exact (told _).bind fun _ _ => .throw ⟨_, rfl⟩
      · exact (told _).bind fun _ _ => .pure trivial

/-- Nobody is told about a relative path: looking for its module is a misuse at once. -/
theorem resolve_relative {r : Registry} {name : String} (relative : r.LeadsNowhere name)
    (modules : Modules) (w : World) :
    r.resolve modules name w = .error (.misuse .relativeModule) w := by
  obtain ⟨path, registered, relative⟩ := relative
  rw [resolve, registered]
  dsimp only
  rw [Eval.bind_apply, importPath_relative modules name relative]

theorem resolve_reports {r : Registry} {name : String} (absolute : ¬ r.LeadsNowhere name)
    (modules : Modules) : Reports name (r.resolve modules name) := by
  unfold resolve
  split
  · exact .throw ⟨_, rfl⟩
  · exact .throw ⟨_, rfl⟩
  next path registered =>
    have imported := importPath_reports modules name fun relative =>
      absolute ⟨path, registered, relative⟩
    exact imported.bind fun target _ => classNamed_reports name target
  · exact classNamed_reports name _

end Registry

/-! ## What becomes of a match -/

open Registry

/-- The class that a name stands for refuses to answer, and that ends the match. -/
def Context.Refused (ctx : Context) (refuses : Question → Option Fault) (name : String)
    (value : Term) (run : EStateM.Result Fault World Verdict) : Prop :=
  ∃ c fault w, ctx.registry.classOf? ctx.modules name = some c ∧
    refuses (.admits c value) = some fault ∧ run = .error fault w

section

variable {ctx : Context} {name : String} (registered : ctx.registry.contains name = true)
variable (value key : Term) (closed : Bool)
include registered

/-- The name of a type is resolved, and then the class that is found is asked. -/
theorem create_type_name (refuses : Question → Option Fault) (w : World) :
    (create ctx (.str name) value key closed).heeding (.refusing refuses) w =
      (do
        let c ← ctx.registry.resolve ctx.modules name
        return .when (← (isInstance c value).heeding (.refusing refuses)) value :
          Eval Verdict) w := by
  have all : Eval.Congruence fun _ m _ => m.Tells fun _ => True :=
    Eval.tells_congruence fun _ => trivial
  have instances (c : Class) : (isInstance c value).Tells fun _ => True :=
    isInstance_related all.toCompositional (all.asked _)
  have matched (c : Class) :
      (do return .when (← isInstance c value) value : Eval Verdict).Tells fun _ => True :=
    (instances c).bind fun _ _ _ _ => all.answer _
  obtain ⟨levels, budget⟩ := w.store.exists_budget_succ (.str name) [value, key]
  have run : create ctx (.str name) value key closed w = (do
      return .when (← isInstance (← ctx.registry.resolve ctx.modules name) value) value :
        Eval Verdict) w := by
    rw [create_apply, budget, create_name, if_pos registered]
  rw [Eval.heeding_congr run,
    Eval.heeding_bind (resolve_related all.toObserving _ _ _) matched, resolve_heeding]
  have classwise (c : Class) :
      (do return .when (← isInstance c value) value : Eval Verdict).heeding (.refusing refuses) =
        do return .when (← (isInstance c value).heeding (.refusing refuses)) value := by
    rw [Eval.heeding_bind (instances c) fun _ => all.answer _]
    simp only [Eval.heeding_pure]
  simp only [classwise]

variable {value key closed}

theorem create_relative (relative : ctx.registry.LeadsNowhere name)
    (refuses : Question → Option Fault) (w : World) :
    (create ctx (.str name) value key closed).heeding (.refusing refuses) w =
      .error (.misuse .relativeModule) w := by
  rw [create_type_name registered, Eval.bind_apply, resolve_relative relative]

theorem create_settles (absolute : ¬ ctx.registry.LeadsNowhere name)
    (refuses : Question → Option Fault) (w : World) :
    let run := (create ctx (.str name) value key closed).heeding (.refusing refuses) w
    Settles name run ∨ ctx.Refused refuses name value run := by
  intro run
  have settles := (resolve_reports absolute ctx.modules).settles w
  simp only [run, create_type_name registered, Eval.bind_apply]
  cases resolved : ctx.registry.resolve ctx.modules name w with
  | error fault w' =>
    rw [resolved] at settles
    obtain ⟨_, _, answered⟩ | ⟨reason, w'', reported⟩ := settles
    · cases answered
    · cases reported
      exact .inl (.inr ⟨reason, _, rfl⟩)
  | ok c w' =>
    obtain answers | ⟨fault, refused, ends⟩ := isInstance_heeding c value refuses w'
    · obtain ⟨holds, w'', answer⟩ := isInstance_answers c value w'
      refine .inl (.inl ⟨.when holds value, w'', ?_⟩)
      dsimp only
      rw [answers, answer]
      rfl
    · exact .inr ⟨c, fault, w', classOf?_of_resolve resolved, refused, by dsimp only; rw [ends]⟩

end

/-- A run that ends in a misuse does not settle. -/
theorem not_settles_misuse {α : Type} {name : String} {cause : Misuse} {w : World} :
    ¬ Settles name (.error (.misuse cause) w : EStateM.Result Fault World α) := by
  rintro (⟨_, _, answered⟩ | ⟨_, _, reported⟩)
  · cases answered
  · cases reported

/-- No class stands for a name whose path is relative. -/
theorem Registry.LeadsNowhere.classOf?_eq {r : Registry} {name : String}
    (relative : r.LeadsNowhere name) (modules : Modules) : r.classOf? modules name = none := by
  obtain ⟨path, registered, relative⟩ := relative
  obtain ⟨parts, read, dot⟩ := ImportPath.relative_iff.1 relative
  rw [classOf?, registered]
  dsimp only
  rw [Modules.attribute?, read]
  dsimp only
  rw [if_pos dot]
  rfl

end SpecMatch
