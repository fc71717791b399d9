import Mathlib.Data.List.Find
import SpecMatch.Proofs.Evaluation.Budget
import SpecMatch.Proofs.Matching.Leaves
import SpecMatch.Proofs.Term.Rebuild

/-!
# Declared keys

A container spec declares the keys of a value under which its own keys find a child
(`Term.DeclaresKey`). Matching goes by these keys alone. The others come in when the results are put
together, and there a closed match differs from an open one (`create_closed_apart`). An open match
cannot tell two containers apart that answer alike to the keys of the spec, whatever kinds they are
and whatever else they hold (`create_sees_declared`).

Specs and objects of the host may do in these runs what they like, so the two runs are compared step
by step: the entries of the spec are matched in the same way in both, to the same `Checked`.
-/

namespace SpecMatch

/-- What a verdict is about. -/
def Verdict.payload : Verdict → Term
  | .left payload | .right payload => payload

@[simp] theorem Verdict.payload_when (b : Bool) (value : Term) :
    (when b value).payload = value := by
  cases b <;> rfl

@[simp] theorem payload_gather (value : Term) (verdicts : List Verdict) (complete : Bool) :
    (gather value verdicts complete).payload = value.withChildren (verdicts.map (·.toTerm)) :=
  Verdict.payload_when _ _

/-- A key of a value is declared if a key of the spec that is the same finds a child in it. -/
def Term.DeclaresKey (spec value key : Term) : Prop :=
  ∃ d ∈ spec.entries, d.1.sameKey key ∧ value.lookup d.1 ≠ .missing

/-- A verdict that a match gives on some level in some world. -/
def Context.MayAnswer (ctx : Context) : MatchStatement := fun spec value key closed verdict =>
  ∃ levels w w', (interp ctx levels).create spec value key closed w = .ok verdict w'

/-- What matching the entries of a spec finds are verdicts that their matches give. -/
theorem checkEntries_finds {ctx : Context} {budget : Nat} {value : Term} {entries : Entries}
    {checked : Checked} {w w' : World}
    (run : checkEntries (interp ctx budget) value entries w = .ok checked w') :
    checked.Finds ctx.MayAnswer value entries := by
  have meets (spec : Term) : (interp ctx budget).Meets (fun _ => True) (fun _ => True)
      ctx.MayAnswer spec := fun value key closed =>
    .of_answers (fun _ _ => trivial) fun v verdict v' _ ran => ⟨budget, v, v', ran⟩
  exact (checkEntries_yields (fun e _ => meets e.2) value).answers trivial run

section

variable {P : MatchStatement} {spec value : Term} {checked : Checked}

/-- The declared keys are those under which a verdict was found. -/
theorem Checked.Finds.declaresKey_iff (finds : checked.Finds P value spec.entries) {key : Term} :
    spec.DeclaresKey value key ↔ ∃ verdict, checked.get? key = some verdict := by
  constructor
  · rintro ⟨d, mem, same, there⟩
    exact finds.exists_get? mem there same
  · rintro ⟨verdict, found⟩
    obtain ⟨d, mem, same, there, -⟩ := finds.of_get? found
    exact ⟨d, mem, same, there⟩

theorem Checked.Finds.get?_undeclared (finds : checked.Finds P value spec.entries) {key : Term}
    (undeclared : ¬ spec.DeclaresKey value key) : checked.get? key = none := by
  rw [finds.declaresKey_iff] at undeclared
  exact Option.eq_none_iff_forall_ne_some.2 fun verdict found => undeclared ⟨verdict, found⟩

/-! ## Open and closed matches -/

/-- What an open and a closed match answer about the same value: results under the keys of the
value, in their order. A declared key has the same result in both, which an open match of the spec
under it has given. An undeclared one is accepted by the open match and rejected by the closed one,
which so rejects whenever there is one. -/
structure OpenAndClosed (ctx : Context) (spec value : Term) (opened closed : Verdict)
    (result result' : Term × Term → Term) : Prop where
  payload : opened.payload = value.withChildren (value.entries.map result)
  payload' : closed.payload = value.withChildren (value.entries.map result')
  entries : opened.payload.entries = value.entries.map fun e => (e.1, result e)
  entries' : closed.payload.entries = value.entries.map fun e => (e.1, result' e)
  declared : ∀ e ∈ value.entries, spec.DeclaresKey value e.1 → result e = result' e ∧
    ∃ d ∈ spec.entries, d.1.sameKey e.1 ∧ ∃ verdict,
      ctx.MayAnswer d.2 (value.lookup d.1) d.1 false verdict ∧ result e = verdict.toTerm
  undeclared : ∀ e ∈ value.entries, ¬ spec.DeclaresKey value e.1 →
    result e = .right e.2 ∧ result' e = .left e.2
  accepted : closed.accepted = true ↔
    opened.accepted = true ∧ ∀ e ∈ value.entries, spec.DeclaresKey value e.1

/-- A closed match gathers an acceptance if an open one does and every key is declared. -/
theorem Checked.Finds.accepted_closed_iff (finds : checked.Finds P value spec.entries) :
    (gather value (value.entries.map (entryVerdict checked true)) !checked.incomplete).accepted =
        true ↔
      (gather value (value.entries.map (entryVerdict checked false))
        !checked.incomplete).accepted = true ∧
      ∀ e ∈ value.entries, spec.DeclaresKey value e.1 := by
  simp only [gather, Verdict.accepted_when, Bool.and_eq_true, List.all_map, List.all_eq_true,
    Function.comp_apply]
  rw [and_assoc, ← forall₂_and]
  refine and_congr_right fun _ => forall₂_congr fun e _ => ?_
  by_cases declares : spec.DeclaresKey value e.1
  · obtain ⟨verdict, found⟩ := finds.declaresKey_iff.1 declares
    rw [entryVerdict_found found, entryVerdict_found found, and_iff_left declares]
  · have absent := finds.get?_undeclared declares
    rw [entryVerdict_undeclared absent, entryVerdict_undeclared absent]
    exact iff_of_false Bool.false_ne_true fun h => declares h.2

/-- What the two ways to gather make of the same findings. -/
theorem Checked.Finds.openAndClosed {ctx : Context}
    (finds : checked.Finds ctx.MayAnswer value spec.entries) (container : value.isContainer) :
    OpenAndClosed ctx spec value
      (gather value (value.entries.map (entryVerdict checked false)) !checked.incomplete)
      (gather value (value.entries.map (entryVerdict checked true)) !checked.incomplete)
      (fun e => (entryVerdict checked false e).toTerm)
      (fun e => (entryVerdict checked true e).toTerm) := by
  have payload (closed : Bool) :
      (gather value (value.entries.map (entryVerdict checked closed))
        !checked.incomplete).payload = value.withChildren
          (value.entries.map fun e => (entryVerdict checked closed e).toTerm) := by
    rw [payload_gather, List.map_map]
    rfl
  have entries (closed : Bool) := (congrArg Term.entries (payload closed)).trans
    (Term.entries_withChildren_map container _)
  refine ⟨payload false, payload true, entries false, entries true, fun e _ declares => ?_,
    fun e _ undeclared => ?_, finds.accepted_closed_iff⟩
  · obtain ⟨verdict, found⟩ := finds.declaresKey_iff.1 declares
    obtain ⟨d, mem, same, -, answers⟩ := finds.of_get? found
    rw [entryVerdict_found found, entryVerdict_found found]
    exact ⟨rfl, d, mem, same, verdict, answers, rfl⟩
  · have absent := finds.get?_undeclared undeclared
    rw [entryVerdict_undeclared absent, entryVerdict_undeclared absent]
    exact ⟨rfl, rfl⟩

/-- The payload has the keys of the value in the order of the value. -/
theorem keys_of_create {ctx : Context} {budget : Nat} (byEntries : spec.ByEntries)
    (container : value.isContainer) {key : Term} {closed : Bool} {verdict : Verdict} {w w' : World}
    (run : (interp ctx budget).create spec value key closed w = .ok verdict w') :
    verdict.payload.entries.map (·.1) = value.entries.map (·.1) := by
  cases budget with
  | zero => cases run
  | succ budget =>
    rw [create_byEntries ctx budget value key closed byEntries container, matchEntries,
      Eval.bind_apply] at run
    cases found : checkEntries (interp ctx budget) value spec.entries w with
    | ok checked w₁ =>
      rw [found] at run
      cases run
      rw [payload_gather, List.map_map, Term.entries_withChildren_map container, List.map_map]
      rfl
    | error fault w₁ =>
      rw [found] at run
      cases run

/-- A closed match differs from an open one in the undeclared keys alone. From the same world both
end in the same world, with the same fault or with answers that are the same but for these keys. -/
theorem create_closed_apart (ctx : Context) {spec value : Term} (byEntries : spec.ByEntries)
    (container : value.isContainer) (key : Term) (w : World) :
    Eval.EndAlike
      (fun opened closed => ∃ result result', OpenAndClosed ctx spec value opened closed result
        result')
      (create ctx spec value key false w) (create ctx spec value key true w) := by
  obtain ⟨levels, some_level⟩ := w.store.exists_budget_succ spec [value, key]
  rw [create_apply, create_apply, some_level, create_byEntries ctx _ _ _ _ byEntries container,
    create_byEntries ctx _ _ _ _ byEntries container]
  exact .of_answers fun checked w' run =>
    ⟨_, _, (checkEntries_finds run).openAndClosed container⟩

/-- A map that declares `a`, with more in the value there and beside it. -/
theorem closed_rejects_extra :
    let spec : Term := .map .plain [(.str "a", .map .plain [(.str "b", .builtin .isInt)])]
    let value : Term := .map .plain [(.str "c", .null),
      (.str "a", .map .plain [(.str "b", .int 1), (.str "d", .int 2)])]
    Eval.EndAlike
      (fun opened closed => ∃ result result',
        OpenAndClosed .bare spec value opened closed result result')
      (create .bare spec value .null false {}) (create .bare spec value .null true {}) ∧
    (∃ opened w', create .bare spec value .null false {} = .ok opened w' ∧ opened.accepted) := by
  intro spec value
  have byEntries : spec.ByEntries := trivial
  exact ⟨create_closed_apart .bare byEntries rfl .null {}, _, _, rfl, by decide +kernel⟩

/-! ## Values that answer alike -/

/-- Matching the entries of a spec looks at the value under the keys of the spec alone. -/
theorem checkEntries_congr_lookup (i : Interp) {value value' : Term} {entries : Entries}
    (agree : ∀ e ∈ entries, value.lookup e.1 = value'.lookup e.1) :
    checkEntries i value entries = checkEntries i value' entries := by
  induction entries with
  | nil => rfl
  | cons e rest ih =>
    obtain ⟨first, later⟩ := List.forall_mem_cons.1 agree
    rw [checkEntries, checkEntries, first, ih later]

/-- The verdict under a key of the value is the one under the key of the spec that declares it. -/
theorem Checked.Finds.get?_eq (finds : checked.Finds P value spec.entries) (keyed : spec.WellKeyed)
    {e : Term × Term} (mem : e ∈ spec.entries) {key : Term} (same : e.1.sameKey key) :
    checked.get? key = checked.get? e.1 := by
  have hashable : key.hashable := (Term.hashable_eq_of_same same).symm.trans (keyed.hashable e mem)
  have back : key.sameKey e.1 := Term.same_symm (keyed.hashable e mem) same
  unfold get?
  congr 1
  refine List.find?_congr fun c hc => ?_
  obtain ⟨sub, stands, -⟩ := finds.verdict c hc
  have hashable_c := keyed.hashable _ stands
  rw [Bool.eq_iff_iff]
  exact ⟨fun h => Term.same_trans hashable_c h back, fun h => Term.same_trans hashable_c h same⟩

/-- A child that a key of the spec finds stands in the payload as the verdict on it. -/
theorem Checked.Finds.exists_result (finds : checked.Finds P value spec.entries)
    (keyed : spec.WellKeyed) {e : Term × Term} (mem : e ∈ spec.entries)
    (there : value.lookup e.1 ≠ .missing) (closed complete : Bool) :
    ∃ verdict, checked.get? e.1 = some verdict ∧
      (gather value (value.entries.map (entryVerdict checked closed)) complete).payload.lookup?
        e.1 = some verdict.toTerm := by
  obtain ⟨d, -, -, same, stands⟩ := Term.lookup?_withChildren_map (Term.lookup?_of_lookup there)
    fun d => (entryVerdict checked closed d).toTerm
  obtain ⟨verdict, found⟩ := finds.exists_get? mem there same
  refine ⟨verdict, (finds.get?_eq keyed mem same).symm.trans found, ?_⟩
  rw [payload_gather, List.map_map]
  exact stands.trans (by rw [entryVerdict_found found])

/-- An open match accepts if nothing required is absent and every child that a key of the spec finds
is accepted. -/
theorem Checked.Finds.accepted_open_iff (finds : checked.Finds P value spec.entries)
    (keyed : spec.WellKeyed) :
    (gather value (value.entries.map (entryVerdict checked false)) !checked.incomplete).accepted =
        true ↔
      checked.incomplete = false ∧ ∀ e ∈ spec.entries, value.lookup e.1 ≠ .missing →
        ∃ verdict, checked.get? e.1 = some verdict ∧ verdict.accepted = true := by
  simp only [gather, Verdict.accepted_when, Bool.and_eq_true, Bool.not_eq_true', List.all_map,
    List.all_eq_true, Function.comp_apply]
  refine and_congr_right fun _ => ⟨fun accepted e mem there => ?_, fun accepted d hd => ?_⟩
  · obtain ⟨d, hd, -, same⟩ := Term.mem_entries_of_lookup? (Term.lookup?_of_lookup there)
    obtain ⟨verdict, found⟩ := finds.exists_get? mem there same
    have accepted := accepted d hd
    rw [entryVerdict_found found] at accepted
    exact ⟨verdict, (finds.get?_eq keyed mem same).symm.trans found, accepted⟩
  · cases found : checked.get? d.1 with
    | none =>
      rw [entryVerdict_undeclared found]
      rfl
    | some verdict =>
      obtain ⟨e, mem, same, there, -⟩ := finds.of_get? found
      obtain ⟨verdict', found', accepted⟩ := accepted e mem there
      rw [entryVerdict_found found]
      rw [← finds.get?_eq keyed mem same, found] at found'
      exact Option.some.inj found' ▸ accepted

/-- Two verdicts on containers accept alike and hold the same results under the keys of a spec that
find a child in the first container. -/
def SameUnderKeys (spec value : Term) (verdict verdict' : Verdict) : Prop :=
  verdict.accepted = verdict'.accepted ∧
    ∀ e ∈ spec.entries, value.lookup e.1 ≠ .missing → ∃ result,
      verdict.payload.lookup? e.1 = some result ∧ verdict'.payload.lookup? e.1 = some result

/-- The same findings are gathered alike for values that answer alike. -/
theorem Checked.Finds.sameUnderKeys {value' : Term}
    (finds : checked.Finds P value spec.entries) (finds' : checked.Finds P value' spec.entries)
    (keyed : spec.WellKeyed) (agree : ∀ e ∈ spec.entries, value.lookup e.1 = value'.lookup e.1) :
    SameUnderKeys spec value
      (gather value (value.entries.map (entryVerdict checked false)) !checked.incomplete)
      (gather value' (value'.entries.map (entryVerdict checked false)) !checked.incomplete) := by
  constructor
  · rw [Bool.eq_iff_iff, finds.accepted_open_iff keyed, finds'.accepted_open_iff keyed]
    refine and_congr_right fun _ => forall₂_congr fun e mem => ?_
    rw [agree e mem]
  · intro e mem there
    obtain ⟨verdict, found, stands⟩ :=
      finds.exists_result keyed mem there false !checked.incomplete
    obtain ⟨verdict', found', stands'⟩ :=
      finds'.exists_result keyed mem (agree e mem ▸ there) false !checked.incomplete
    obtain rfl := Option.some.inj (found.symm.trans found')
    exact ⟨verdict.toTerm, stands, stands'⟩

/-- An open match sees the declared keys alone. Two containers of any kinds that answer alike to the
keys of the spec are both accepted or both rejected, with the same results under these keys, or both
matches fail alike; and both end in the same world. This holds on every level; the library, which
gives a larger value more levels, keeps to it unless one of the matches runs out of them. -/
theorem create_sees_declared (ctx : Context) {spec value value' : Term}
    (byEntries : spec.ByEntries) (keyed : spec.WellKeyed) (container : value.isContainer)
    (container' : value'.isContainer)
    (agree : ∀ e ∈ spec.entries, value.lookup e.1 = value'.lookup e.1) (key : Term) (w : World) :
    (∀ levels, Eval.EndAlike (SameUnderKeys spec value)
      ((interp ctx levels).create spec value key false w)
      ((interp ctx levels).create spec value' key false w)) ∧
    let run := create ctx spec value key false w
    let run' := create ctx spec value' key false w
    Eval.EndAlike (SameUnderKeys spec value) run run' ∨
      (∃ v, run = .error .nestingLimit v) ∨ ∃ v, run' = .error .nestingLimit v := by
  have each (levels : Nat) : Eval.EndAlike (SameUnderKeys spec value)
      ((interp ctx levels).create spec value key false w)
      ((interp ctx levels).create spec value' key false w) := by
    cases levels with
    | zero => exact ⟨rfl, rfl⟩
    | succ levels =>
      have same := checkEntries_congr_lookup (interp ctx levels) agree
      rw [create_byEntries ctx _ _ _ _ byEntries container,
        create_byEntries ctx _ _ _ _ byEntries container', matchEntries, matchEntries, ← same]
      exact .of_answers fun checked w' run =>
        (checkEntries_finds run).sameUnderKeys (checkEntries_finds (same ▸ run)) keyed agree
  exact ⟨each, create_unless_limit ctx each⟩

/-- A field bag and a map with more in it in another order, matched by a map that calls a
recorder. -/
theorem bag_and_map_seen_alike :
    let spec : Term := .map .plain [(.str "a", .builtin .isInt), (.str "b", .recorder "seen" .null),
      (.str "c", .maybe (.builtin .isInt))]
    let value : Term := .fields [("a", .int 1), ("b", .str "x")]
    let value' : Term := .map .ordered [(.str "more", .null), (.str "b", .str "x"),
      (.str "a", .int 1)]
    Eval.EndAlike (SameUnderKeys spec value) (create .bare spec value .null false {})
        (create .bare spec value' .null false {}) ∧
      ∃ verdict w', create .bare spec value .null false {} = .ok verdict w' ∧
        verdict.accepted = true ∧ w'.store.calls.size = 1 := by
  intro spec value value'
  have byEntries : spec.ByEntries := trivial
  have keyed : spec.WellKeyed := by decide
  have agree : ∀ e ∈ spec.entries, value.lookup e.1 = value'.lookup e.1 := by
    simp only [spec, Term.entries, List.forall_mem_cons]
    exact ⟨rfl, rfl, rfl, List.forall_mem_nil _⟩
  have container : value.isContainer := rfl
  have container' : value'.isContainer := rfl
  obtain ⟨-, alike⟩ :=
    create_sees_declared .bare byEntries keyed container container' agree .null {}
  refine ⟨?_, _, _, rfl, rfl, rfl⟩
  rcases alike with alike | ⟨v, limit⟩ | ⟨v, limit⟩
  · exact alike
  · cases limit
  · cases limit

end

end SpecMatch
