import SpecMatch.Proofs.Evaluation.Outcome
import SpecMatch.Proofs.Matching.Forms

/-!
# Matching by rules

A statement about matches relates a spec, a value, a key and the closed-world flag to a verdict.
`MatchRules` lists, form by form, what such a statement has to be closed under: if it holds of the
verdicts of the parts, then it holds of the verdict that matching puts together from them. Nothing
of the world appears in the rules.

`create_yields` is the one walk through the matcher: a statement that is closed under the rules and
holds of the leaves holds of every match of a spec tree with a budget that covers it.
-/

namespace SpecMatch

/-- A statement about the verdict on a value under a key, in an open or closed match. -/
abbrev MatchStatement := (spec value key : Term) → (closed : Bool) → Verdict → Prop

/-- What matching the entries of a spec tells about the parts: every verdict belongs to a child that
the value has, every such child has its verdict, and the match is incomplete exactly if a child that
is absent is rejected as `null`. -/
structure Checked.Finds (P : MatchStatement) (value : Term) (entries : Entries)
    (checked : Checked) : Prop where
  verdict : ∀ c ∈ checked.verdicts, ∃ spec, (c.1, spec) ∈ entries ∧
    value.lookup c.1 ≠ .missing ∧ P spec (value.lookup c.1) c.1 false c.2
  present : ∀ e ∈ entries, value.lookup e.1 ≠ .missing → ∃ c ∈ checked.verdicts, c.1 = e.1
  absent : checked.incomplete = true → ∃ e ∈ entries, value.lookup e.1 = .missing ∧
    ∃ payload, P e.2 .null .null false (.left payload)
  complete : checked.incomplete = false → ∀ e ∈ entries, value.lookup e.1 = .missing →
    ∃ payload, P e.2 .null .null false (.right payload)

/-- A verdict in front hides the others under the same key. -/
theorem Checked.get?_cons (k : Term) (verdict : Verdict) (verdicts : List (Term × Verdict))
    (incomplete : Bool) (key : Term) :
    Checked.get? ⟨(k, verdict) :: verdicts, incomplete⟩ key =
      if k.sameKey key then some verdict else Checked.get? ⟨verdicts, incomplete⟩ key := by
  by_cases same : k.sameKey key <;> simp [get?, same]

section

variable {P : MatchStatement} {value : Term} {entries : Entries} {checked : Checked}

/-- The verdict under a key of the value was found by an entry of the spec under the same key. -/
theorem Checked.Finds.of_get? (finds : checked.Finds P value entries) {key : Term}
    {verdict : Verdict} (h : checked.get? key = some verdict) :
    ∃ e ∈ entries, e.1.sameKey key ∧ value.lookup e.1 ≠ .missing ∧
      P e.2 (value.lookup e.1) e.1 false verdict := by
  obtain ⟨c, found, rfl⟩ := Option.map_eq_some_iff.1 h
  obtain ⟨spec, mem, there, holds⟩ := finds.verdict c (List.mem_of_find?_eq_some found)
  have same : c.1.sameKey key := by simpa using List.find?_some found
  exact ⟨(c.1, spec), mem, same, there, holds⟩

/-- An entry of the spec that has found a child has left a verdict under its key. -/
theorem Checked.Finds.exists_get? (finds : checked.Finds P value entries) {e : Term × Term}
    (mem : e ∈ entries) (there : value.lookup e.1 ≠ .missing) {key : Term}
    (same : e.1.sameKey key) : ∃ verdict, checked.get? key = some verdict := by
  obtain ⟨c, hc, eq⟩ := finds.present e mem there
  rw [← eq] at same
  have some : (checked.verdicts.find? fun c => c.1.sameKey key).isSome :=
    List.find?_isSome.2 ⟨c, hc, same⟩
  obtain ⟨d, found⟩ := Option.isSome_iff_exists.1 some
  exact ⟨d.2, Option.map_eq_some_iff.2 ⟨d, found, rfl⟩⟩

/-- The verdict that was found under the key of an entry is the verdict on it. -/
theorem entryVerdict_found {closed : Bool} {e : Term × Term} {verdict : Verdict}
    (found : checked.get? e.1 = some verdict) : entryVerdict checked closed e = verdict := by
  simp [entryVerdict, found]

/-- An entry under an undeclared key is accepted in an open match. -/
theorem entryVerdict_undeclared {closed : Bool} {e : Term × Term}
    (undeclared : checked.get? e.1 = none) :
    entryVerdict checked closed e = .when (!closed) e.2 := by
  simp [entryVerdict, undeclared]

/-- A child that is not the missing mark is found by the lookup. -/
theorem Term.lookup?_of_lookup {x key : Term} (there : x.lookup key ≠ .missing) :
    x.lookup? key = some (x.lookup key) := by
  cases found : x.lookup? key with
  | none =>
    rw [lookup, found] at there
    exact absurd rfl there
  | some child => simp [lookup, found]

end

/-- A statement about matches is closed under what matching does, given the constraints of
variables. -/
structure MatchRules (constraint : Nat → Term) (P : MatchStatement) : Prop where
  allOf_accept {specs : List Term} {value key : Term} {closed : Bool} :
    (∀ spec ∈ specs, ∃ payload, P spec value key false (.right payload)) →
      P (.allOf specs) value key closed (.right value)
  allOf_reject {specs : List Term} {value key : Term} {closed : Bool} {spec payload : Term} :
    spec ∈ specs → P spec value key false (.left payload) →
      P (.allOf specs) value key closed (.left (.left payload))
  anyOf_accept {specs : List Term} {value key : Term} {closed : Bool} {spec payload : Term} :
    spec ∈ specs → P spec value key false (.right payload) →
      P (.anyOf specs) value key closed (.right (.right payload))
  anyOf_reject {specs : List Term} {value key : Term} {closed : Bool} :
    (∀ spec ∈ specs, ∃ payload, P spec value key false (.left payload)) →
      P (.anyOf specs) value key closed (.left value)
  negation {spec value key : Term} {closed : Bool} {verdict : Verdict} :
    P spec value key false verdict →
      P (.negation spec) value key closed (.when (!verdict.accepted) value)
  maybe_null {spec key : Term} {closed : Bool} : P (.maybe spec) .null key closed (.right .null)
  maybe {spec value key : Term} {closed : Bool} {verdict : Verdict} :
    value ≠ .null → P spec value key false verdict → P (.maybe spec) value key closed verdict
  strict {spec value key : Term} {closed : Bool} {verdict : Verdict} :
    P spec value key true verdict → P (.strict spec) value key closed verdict
  everyItem_null {spec key : Term} {closed : Bool} {verdict : Verdict} :
    P spec .null key false verdict →
      P (.everyItem spec) .null key closed (.when verdict.accepted .null)
  everyItem_container {spec value key : Term} {closed : Bool} {verdicts : List Verdict} :
    value.isContainer →
      value.entries.Forall₂ (fun e verdict => P spec e.2 e.1 false verdict) verdicts →
      P (.everyItem spec) value key closed (gather value verdicts)
  everyItem_scalar {spec value key : Term} {closed : Bool} :
    value ≠ .null → value.isContainer = false → P (.everyItem spec) value key closed (.left value)
  someItem_null {spec key : Term} {closed : Bool} {verdict : Verdict} :
    P spec .null key false verdict →
      P (.someItem spec) .null key closed (.when verdict.accepted .null)
  someItem_accept {spec value key : Term} {closed : Bool} {e : Term × Term} {payload : Term} :
    e ∈ value.entries → P spec e.2 e.1 false (.right payload) →
      P (.someItem spec) value key closed (.right value)
  someItem_reject {spec value key : Term} {closed : Bool} :
    value ≠ .null → (∀ e ∈ value.entries, ∃ payload, P spec e.2 e.1 false (.left payload)) →
      P (.someItem spec) value key closed (.left value)
  keyed_path {path : Term} {specs : List Term} {start : Int} {length : Option Int}
    {value key : Term} {closed : Bool} {verdict : Verdict} :
    path = .list specs ∨ path = .tuple specs →
      P (.list specs) (.tuple (segment key.keyPath start length)) .null true verdict →
        P (.keyed path start length) value key closed (.when verdict.accepted value)
  keyed_other {path : Term} {start : Int} {length : Option Int} {value key : Term} {closed : Bool}
    {verdict : Verdict} :
    path.form? ≠ some .array → P path (key.cutKey start length) .null false verdict →
      P (.keyed path start length) value key closed (.when verdict.accepted value)
  free {id : Nat} {value key : Term} {closed : Bool} :
    constraint id = .null → P (.var id) value key closed (.right value)
  constrained {id : Nat} {value key : Term} {closed : Bool} {verdict : Verdict} :
    constraint id ≠ .null → P (constraint id) value key false verdict →
      P (.var id) value key closed (.when verdict.accepted value)
  entries {spec value key : Term} {closed : Bool} {checked : Checked} :
    spec.isContainer → spec.WellKeyed → value.isContainer →
      checked.Finds P value spec.entries →
        P spec value key closed
          (gather value (value.entries.map (entryVerdict checked closed)) !checked.incomplete)
  scalar {spec value key : Term} {closed : Bool} :
    spec.isContainer → value.isContainer = false → P spec value key closed (.left value)

/-- A property of the world that tells the constraints of variables and is kept when variables are
bound and reset. -/
structure World.Upholds (constraint : Nat → Term) (I : World → Prop) : Prop where
  constrains : ∀ w, I w → w.Constrains constraint
  setCell : ∀ id value key, (setCell id value key).Keeps I
  resetCell : ∀ id, (resetCell id).Keeps I

/-- Every match of a spec yields a verdict of which the statement holds. -/
def Interp.Meets (i : Interp) (I : World → Prop) (excuse : Fault → Prop) (P : MatchStatement)
    (spec : Term) : Prop :=
  ∀ value key closed, (i.create spec value key closed).Yields I excuse (P spec value key closed)

section

variable {I : World → Prop} {excuse : Fault → Prop} {P : MatchStatement} {i : Interp}

theorem Interp.Meets.accepts {spec : Term} (meets : i.Meets I excuse P spec) (value key : Term)
    (closed : Bool) :
    (i.accepts spec value key closed).Yields I excuse fun accepted =>
      ∃ verdict, P spec value key closed verdict ∧ verdict.accepted = accepted :=
  (meets value key closed).bind fun verdict h => .pure ⟨verdict, h, rfl⟩

/-- All specs accept, or the first one that does not hands its verdict on. -/
theorem allOf_yields {specs : List Term} (meets : ∀ spec ∈ specs, i.Meets I excuse P spec)
    (value key : Term) :
    (allOf i value key specs).Yields I excuse fun verdict =>
      (∀ spec ∈ specs, ∃ payload, P spec value key false (.right payload)) ∧
          verdict = .right value ∨
        ∃ spec ∈ specs, ∃ payload, P spec value key false (.left payload) ∧
          verdict = .left (.left payload) := by
  induction specs with
  | nil => exact .pure (.inl ⟨nofun, rfl⟩)
  | cons spec rest ih =>
    refine (meets spec List.mem_cons_self value key false).bind ?_
    intro verdict h
    cases verdict with
    | left payload => exact .pure (.inr ⟨spec, List.mem_cons_self, payload, h, rfl⟩)
    | right payload =>
      refine (ih fun s mem => meets s (List.mem_cons_of_mem spec mem)).imp ?_
      intro verdict later
      rcases later with ⟨all, rfl⟩ | ⟨s, mem, p, hp, rfl⟩
      · exact .inl ⟨List.forall_mem_cons.2 ⟨⟨payload, h⟩, all⟩, rfl⟩
      · exact .inr ⟨s, List.mem_cons_of_mem spec mem, p, hp, rfl⟩

/-- All specs reject, or the first one that does not hands its verdict on. -/
theorem anyOf_yields {specs : List Term} (meets : ∀ spec ∈ specs, i.Meets I excuse P spec)
    (value key : Term) :
    (anyOf i value key specs).Yields I excuse fun verdict =>
      (∀ spec ∈ specs, ∃ payload, P spec value key false (.left payload)) ∧
          verdict = .left value ∨
        ∃ spec ∈ specs, ∃ payload, P spec value key false (.right payload) ∧
          verdict = .right (.right payload) := by
  induction specs with
  | nil => exact .pure (.inl ⟨nofun, rfl⟩)
  | cons spec rest ih =>
    refine (meets spec List.mem_cons_self value key false).bind ?_
    intro verdict h
    cases verdict with
    | right payload => exact .pure (.inr ⟨spec, List.mem_cons_self, payload, h, rfl⟩)
    | left payload =>
      refine (ih fun s mem => meets s (List.mem_cons_of_mem spec mem)).imp ?_
      intro verdict later
      rcases later with ⟨all, rfl⟩ | ⟨s, mem, p, hp, rfl⟩
      · exact .inl ⟨List.forall_mem_cons.2 ⟨⟨payload, h⟩, all⟩, rfl⟩
      · exact .inr ⟨s, List.mem_cons_of_mem spec mem, p, hp, rfl⟩

/-- Every element gets its verdict, in order. -/
theorem matchEach_yields {spec : Term} (meets : i.Meets I excuse P spec) (entries : Entries) :
    (matchEach i spec entries).Yields I excuse fun verdicts =>
      entries.Forall₂ (fun e verdict => P spec e.2 e.1 false verdict) verdicts := by
  induction entries with
  | nil => exact .pure .nil
  | cons e rest ih =>
    refine (meets e.2 e.1 false).bind ?_
    intro verdict h
    refine ih.bind ?_
    intro verdicts hs
    exact .pure (.cons h hs)

/-- The search for an accepted element finds one, or every element is rejected. -/
theorem matchSome_yields {spec : Term} (meets : i.Meets I excuse P spec) (entries : Entries) :
    (matchSome i spec entries).Yields I excuse fun found =>
      if found then ∃ e ∈ entries, ∃ payload, P spec e.2 e.1 false (.right payload)
      else ∀ e ∈ entries, ∃ payload, P spec e.2 e.1 false (.left payload) := by
  induction entries with
  | nil => exact .pure nofun
  | cons e rest ih =>
    refine (meets.accepts e.2 e.1 false).bind ?_
    rintro accepted ⟨verdict, h, rfl⟩
    cases verdict with
    | right payload => exact .pure ⟨e, List.mem_cons_self, payload, h⟩
    | left payload =>
      refine ih.imp ?_
      intro found later
      cases found with
      | true =>
        obtain ⟨d, mem, later⟩ := later
        exact ⟨d, List.mem_cons_of_mem e mem, later⟩
      | false => exact List.forall_mem_cons.2 ⟨⟨payload, h⟩, later⟩

theorem Checked.Finds.cons_absent {value : Term} {e : Term × Term} {rest : Entries}
    {checked : Checked} (finds : checked.Finds P value rest) (absent : value.lookup e.1 = .missing)
    {verdict : Verdict} (h : P e.2 .null .null false verdict) :
    Checked.Finds P value (e :: rest)
      { checked with incomplete := checked.incomplete || !verdict.accepted } where
  verdict c mem := by
    obtain ⟨spec, he, found⟩ := finds.verdict c mem
    exact ⟨spec, List.mem_cons_of_mem e he, found⟩
  present d mem there := by
    rcases List.mem_cons.1 mem with rfl | mem
    · exact absurd absent there
    · exact finds.present d mem there
  absent incomplete := by
    rcases Bool.or_eq_true_iff.1 incomplete with later | rejected
    · obtain ⟨d, mem, found⟩ := finds.absent later
      exact ⟨d, List.mem_cons_of_mem e mem, found⟩
    · cases verdict with
      | left payload => exact ⟨e, List.mem_cons_self, absent, payload, h⟩
      | right payload => cases rejected
  complete complete := by
    obtain ⟨later, accepted⟩ := Bool.or_eq_false_iff.1 complete
    intro d mem missing
    rcases List.mem_cons.1 mem with rfl | mem
    · cases verdict with
      | left payload => cases accepted
      | right payload => exact ⟨payload, h⟩
    · exact finds.complete later d mem missing

theorem Checked.Finds.cons_present {value : Term} {e : Term × Term} {rest : Entries}
    {checked : Checked} (finds : checked.Finds P value rest) (there : value.lookup e.1 ≠ .missing)
    {verdict : Verdict} (h : P e.2 (value.lookup e.1) e.1 false verdict) :
    Checked.Finds P value (e :: rest)
      { checked with verdicts := (e.1, verdict) :: checked.verdicts } where
  verdict c mem := by
    rcases List.mem_cons.1 mem with rfl | mem
    · exact ⟨e.2, List.mem_cons_self, there, h⟩
    · obtain ⟨spec, he, found⟩ := finds.verdict c mem
      exact ⟨spec, List.mem_cons_of_mem e he, found⟩
  present d mem found := by
    rcases List.mem_cons.1 mem with rfl | mem
    · exact ⟨_, List.mem_cons_self, rfl⟩
    · obtain ⟨c, hc, same⟩ := finds.present d mem found
      exact ⟨c, List.mem_cons_of_mem _ hc, same⟩
  absent incomplete := by
    obtain ⟨d, mem, found⟩ := finds.absent incomplete
    exact ⟨d, List.mem_cons_of_mem e mem, found⟩
  complete complete d mem missing := by
    rcases List.mem_cons.1 mem with rfl | mem
    · exact absurd missing there
    · exact finds.complete complete d mem missing

/-- Matching the entries of a spec finds out about all of them. -/
theorem checkEntries_yields {entries : Entries} (meets : ∀ e ∈ entries, i.Meets I excuse P e.2)
    (value : Term) :
    (checkEntries i value entries).Yields I excuse fun checked =>
      checked.Finds P value entries := by
  induction entries with
  | nil => exact .pure { verdict := nofun, present := nofun, absent := nofun, complete := by simp }
  | cons e rest ih =>
    have ih := ih fun d mem => meets d (List.mem_cons_of_mem e mem)
    have meets := meets e List.mem_cons_self
    unfold checkEntries
    split
    · next absent =>
      refine (meets.accepts .null .null false).bind ?_
      rintro accepted ⟨verdict, h, rfl⟩
      refine ih.bind ?_
      intro checked finds
      exact .pure (finds.cons_absent absent h)
    · next there =>
      refine (meets _ e.1 false).bind ?_
      intro verdict h
      refine ih.bind ?_
      intro checked finds
      exact .pure (finds.cons_present there h)

variable {constraint : Nat → Term} (rules : MatchRules constraint P)
include rules

theorem everyItem_yields {spec : Term} (meets : i.Meets I excuse P spec) (value key : Term)
    (closed : Bool) :
    (everyItem i spec value key).Yields I excuse (P (.everyItem spec) value key closed) := by
  unfold everyItem
  split
  · refine (meets.accepts .null key false).bind ?_
    rintro accepted ⟨verdict, h, rfl⟩
    exact .pure (rules.everyItem_null h)
  · next notNull =>
    split
    · next container =>
      exact (matchEach_yields meets value.entries).bind fun verdicts h =>
        .pure (rules.everyItem_container container h)
    · next scalar =>
      exact .pure (rules.everyItem_scalar notNull (Bool.not_eq_true _ ▸ scalar))

theorem someItem_yields {spec : Term} (meets : i.Meets I excuse P spec) (value key : Term)
    (closed : Bool) :
    (someItem i spec value key).Yields I excuse (P (.someItem spec) value key closed) := by
  unfold someItem
  split
  · refine (meets.accepts .null key false).bind ?_
    rintro accepted ⟨verdict, h, rfl⟩
    exact .pure (rules.someItem_null h)
  · next notNull =>
    refine (matchSome_yields meets value.entries).bind ?_
    intro found h
    cases found with
    | true =>
      obtain ⟨e, mem, payload, h⟩ := h
      exact .pure (rules.someItem_accept mem h)
    | false => exact .pure (rules.someItem_reject notNull h)

theorem maybe_yields {spec : Term} (meets : i.Meets I excuse P spec) (value key : Term)
    (closed : Bool) :
    (maybe i spec value key).Yields I excuse (P (.maybe spec) value key closed) := by
  unfold maybe
  split
  · exact .pure rules.maybe_null
  · next notNull => exact (meets value key false).imp fun verdict h => rules.maybe notNull h

/-- A path that is an array is matched as a list, whichever of the two arrays it is. -/
theorem keyed_yields {path : Term} {start : Int} {length : Option Int}
    (meets : i.Meets I excuse P path)
    (meets_list : ∀ specs, path = .tuple specs → i.Meets I excuse P (.list specs))
    (value key : Term) (closed : Bool) :
    (keyed i path start length key).Yields I excuse fun accepted =>
      P (.keyed path start length) value key closed (.when accepted value) := by
  unfold keyed
  split
  · refine (meets.accepts _ .null true).imp ?_
    rintro accepted ⟨verdict, h, rfl⟩
    exact rules.keyed_path (.inl rfl) h
  · refine ((meets_list _ rfl).accepts _ .null true).imp ?_
    rintro accepted ⟨verdict, h, rfl⟩
    exact rules.keyed_path (.inr rfl) h
  · next notList notTuple =>
    refine (meets.accepts _ .null false).imp ?_
    rintro accepted ⟨verdict, h, rfl⟩
    refine rules.keyed_other (fun array => ?_) h
    cases path with
    | list specs => exact notList specs rfl
    | tuple specs => exact notTuple specs rfl
    | _ => cases array

theorem bindCell_yields (upholds : World.Upholds constraint I) {id : Nat}
    (meets : constraint id ≠ .null → i.Meets I excuse P (constraint id)) (value key : Term)
    (closed : Bool) :
    (bindCell i id value key).Yields I excuse (P (.var id) value key closed) := by
  refine Eval.Yields.store.bind ?_
  rintro s ⟨w, hw, rfl⟩
  have constrained := upholds.constrains w hw id
  have settle : ∀ allowed : Bool, P (.var id) value key closed (.when allowed value) →
      (if allowed then do setCell id value key; return Verdict.right value
        else do resetCell id; return Verdict.left value : Eval Verdict).Yields I excuse
          (P (.var id) value key closed) := by
    intro allowed h
    cases allowed
    · exact (Eval.Yields.resetCell (upholds.resetCell id)).bind fun _ _ => .pure h
    · exact (Eval.Yields.setCell (upholds.setCell id value key)).bind fun _ _ => .pure h
  dsimp only
  by_cases free : (w.store.cell id).free
  · rw [if_pos free]
    have free := Cell.free_iff.1 free
    rw [constrained] at free
    exact settle true (rules.free free)
  · rw [if_neg free]
    have bound : constraint id ≠ .null := by
      rw [← constrained]
      exact fun null => free (Cell.free_iff.2 null)
    rw [constrained]
    refine ((meets bound).accepts value key false).bind ?_
    rintro accepted ⟨verdict, h, rfl⟩
    exact settle verdict.accepted (rules.constrained bound h)

end

/-- A container and a scalar differ in more than their class. -/
theorem strictlyEqual_container_scalar {spec value : Term} (shape : spec.isContainer)
    (scalar : value.isContainer = false) (alike : String → String → Bool) :
    Term.strictlyEqual alike spec value = false := by
  refine Bool.and_eq_false_iff.2 (.inr ?_)
  cases spec with
  | list items | tuple items | fields items =>
    cases value <;> first | rfl | cases scalar
  | map kind items =>
    cases kind <;> cases value <;> first | rfl | cases scalar
  | _ => cases shape

/-- A container is told from a scalar without asking either of them. -/
theorem matchLiteral_container_scalar {spec value : Term} (shape : spec.isContainer)
    (scalar : value.isContainer = false) : matchLiteral spec value = pure (.left value) := by
  have apart : spec.comparable value = false := by
    obtain ⟨form, some⟩ := Option.isSome_iff_exists.1 shape
    have none : value.form? = none := by simpa [Term.isContainer] using scalar
    simp [Term.comparable, some, none]
  funext w
  simp only [matchLiteral, apart, strictlyEqual_container_scalar shape scalar]
  rfl

section

variable {I : World → Prop} {excuse : Fault → Prop} {P : MatchStatement} {ctx : Context}
variable {constraint : Nat → Term} (rules : MatchRules constraint P)
include rules

/-- A container spec against any value, once its entries can be matched. -/
theorem container_meets {spec : Term} (shape : spec.isContainer) (declarative : spec.Declarative)
    (keyed : spec.WellKeyed) {budget : Nat}
    (meets : ∀ e ∈ spec.entries, (interp ctx budget).Meets I excuse P e.2) :
    (interp ctx (budget + 1)).Meets I excuse P spec := by
  intro value key closed
  cases container : value.isContainer with
  | true =>
    rw [create_container ctx budget value key closed shape declarative container]
    exact (checkEntries_yields meets value).bind fun checked finds =>
      .pure (rules.entries shape keyed container finds)
  | false =>
    rw [create_container_scalar ctx budget value key closed shape declarative container,
      matchLiteral_container_scalar shape container]
    exact .pure (rules.scalar shape container)

end

/-- A statement that is closed under the rules and holds of the leaves holds of every match of a
spec tree, if the budget covers the spec. -/
theorem create_yields (ctx : Context) {I : World → Prop} (excuse : Fault → Prop)
    {P : MatchStatement} {s : Store} (rules : MatchRules s.constraint P)
    (upholds : World.Upholds s.constraint I) {leaf : Term → Prop}
    (atomic : ∀ t, leaf t → t.Atomic)
    (leaves : ∀ t, leaf t → ∀ budget, (interp ctx (budget + 1)).Meets I excuse P t) {spec : Term}
    (tree : SpecTree leaf s.constraint spec) {budget : Nat} (covers : s.Covers budget spec) :
    (interp ctx budget).Meets I excuse P spec := by
  -- A tuple as the path of a key spec is matched as a list, so a tuple is followed as both.
  suffices both : (interp ctx budget).Meets I excuse P spec ∧
      ∀ specs, spec = .tuple specs → (interp ctx budget).Meets I excuse P (.list specs) from both.1
  induction tree generalizing budget with
  | leaf h =>
    obtain ⟨below, rfl⟩ := covers.pos (s.depth?_atomic (atomic _ h))
    refine ⟨leaves _ h below, ?_⟩
    rintro specs rfl
    exact (atomic _ h).elim
  | container shape declarative keyed _ ih =>
    obtain ⟨below, rfl, inside⟩ := covers.entries shape
    have entries_meet := fun e mem => (ih e mem (inside e mem)).1
    refine ⟨container_meets rules shape declarative keyed entries_meet, ?_⟩
    rintro specs rfl
    have keyed_list : (Term.list specs).WellKeyed := ⟨keyed.hashable, keyed.distinct⟩
    have declarative_list : (Term.list specs).Declarative := trivial
    exact container_meets rules rfl declarative_list keyed_list entries_meet
  | allOf _ ih =>
    obtain ⟨below, rfl, inside⟩ := covers.members fun _ => rfl
    refine ⟨?_, nofun⟩
    intro value key closed
    rw [create_allOf]
    refine (allOf_yields (fun t mem => (ih t mem (inside t mem)).1) value key).imp ?_
    rintro _ (⟨all, rfl⟩ | ⟨t, mem, payload, h, rfl⟩)
    · exact rules.allOf_accept all
    · exact rules.allOf_reject mem h
  | anyOf _ ih =>
    obtain ⟨below, rfl, inside⟩ := covers.members fun _ => rfl
    refine ⟨?_, nofun⟩
    intro value key closed
    rw [create_anyOf]
    refine (anyOf_yields (fun t mem => (ih t mem (inside t mem)).1) value key).imp ?_
    rintro _ (⟨all, rfl⟩ | ⟨t, mem, payload, h, rfl⟩)
    · exact rules.anyOf_reject all
    · exact rules.anyOf_accept mem h
  | negation _ ih =>
    obtain ⟨below, rfl, inside⟩ := covers.inner fun _ => rfl
    refine ⟨?_, nofun⟩
    intro value key closed
    rw [create_negation]
    exact ((ih inside).1 value key false).bind fun verdict h => .pure (rules.negation h)
  | maybe _ ih =>
    obtain ⟨below, rfl, inside⟩ := covers.inner fun _ => rfl
    refine ⟨?_, nofun⟩
    intro value key closed
    rw [create_maybe]
    exact maybe_yields rules (ih inside).1 value key closed
  | strict _ ih =>
    obtain ⟨below, rfl, inside⟩ := covers.inner fun _ => rfl
    refine ⟨?_, nofun⟩
    intro value key closed
    rw [create_strict]
    exact ((ih inside).1 value key true).imp fun verdict h => rules.strict h
  | everyItem _ ih =>
    obtain ⟨below, rfl, inside⟩ := covers.inner fun _ => rfl
    refine ⟨?_, nofun⟩
    intro value key closed
    rw [create_everyItem]
    exact everyItem_yields rules (ih inside).1 value key closed
  | someItem _ ih =>
    obtain ⟨below, rfl, inside⟩ := covers.inner fun _ => rfl
    refine ⟨?_, nofun⟩
    intro value key closed
    rw [create_someItem]
    exact someItem_yields rules (ih inside).1 value key closed
  | keyed _ ih =>
    obtain ⟨below, rfl, inside⟩ := covers.inner fun _ => rfl
    refine ⟨?_, nofun⟩
    intro value key closed
    rw [create_keyed]
    exact (keyed_yields rules (ih inside).1 (ih inside).2 value key closed).bind
      fun accepted h => .pure h
  | @free id null =>
    obtain ⟨below, rfl⟩ := covers.pos (Store.depth?_free null)
    refine ⟨?_, nofun⟩
    intro value key closed
    rw [create_var]
    exact bindCell_yields rules upholds (fun bound => absurd null bound) value key closed
  | constrained bound _ ih =>
    obtain ⟨below, rfl, inside⟩ := covers.constraint bound
    refine ⟨?_, nofun⟩
    intro value key closed
    rw [create_var]
    exact bindCell_yields rules upholds (fun _ => (ih inside).1) value key closed

/-- The budget that the library works out covers every spec tree. -/
theorem create_yields_budget (ctx : Context) {I : World → Prop} (excuse : Fault → Prop)
    {P : MatchStatement} {s : Store} (rules : MatchRules s.constraint P)
    (upholds : World.Upholds s.constraint I) {leaf : Term → Prop}
    (atomic : ∀ t, leaf t → t.Atomic)
    (leaves : ∀ t, leaf t → ∀ budget, (interp ctx (budget + 1)).Meets I excuse P t) {spec : Term}
    (tree : SpecTree leaf s.constraint spec) (value key : Term) (closed : Bool) :
    ((interp ctx (s.budget spec [value, key])).create spec value key closed).Yields I excuse
      (P spec value key closed) := by
  obtain ⟨depth, deep⟩ := tree.exists_depth atomic
  have covers := Store.covers_budget deep [value, key]
  exact create_yields ctx excuse rules upholds atomic leaves tree covers value key closed

end SpecMatch
