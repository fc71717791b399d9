import SpecMatch.Proofs.Matching.Declared
import SpecMatch.Proofs.Matching.EntryOrder
import SpecMatch.Proofs.Matching.Keyless
import SpecMatch.Proofs.Term.Extension

/-!
# An absent child is a `null`

A spec that declares a key which the value lacks is asked about a `null` without a key. If the value
had a `null` under this key, the spec would be matched against it under the key, and the verdict
would be recorded. For a spec without key specs this comes to the same (`create_absent_as_null`):
the same verdict, the same calls and the same bindings, and the payload has one entry more.
-/

namespace SpecMatch

/-! ## What is found with one more child -/

section

variable {checked checked' : Checked} {key : Term} {verdict : Verdict}

/-- What was found if the child under a key was absent, and what if it was there with a verdict on
it: the verdict counts in both, but it is recorded in the second alone. -/
structure Checked.Gains (key : Term) (verdict : Verdict) (checked checked' : Checked) : Prop where
  incomplete : checked.incomplete = (checked'.incomplete || !verdict.accepted)
  found : checked'.get? key = some verdict
  other : ∀ d, ¬ key.sameKey d → checked.get? d = checked'.get? d

/-- Whatever else was found, one more verdict makes this difference. -/
theorem Checked.gains_extend (hashable : key.hashable) (checked : Checked) (verdict : Verdict) :
    Checked.Gains key verdict { checked with incomplete := checked.incomplete || !verdict.accepted }
      { checked with verdicts := (key, verdict) :: checked.verdicts } where
  incomplete := rfl
  found := by
    have same : key.sameKey key := Term.same_refl hashable
    rw [get?_cons, if_pos same]
  other d different := by
    rw [get?_cons, if_neg different]
    rfl

/-- Verdicts under other keys keep the difference. -/
theorem Checked.Gains.extend (gains : checked.Gains key verdict checked') {value value' k : Term}
    (same : value.lookup k = value'.lookup k) (different : ¬ k.sameKey key) (other : Verdict) :
    (checked.extend value k other).Gains key verdict (checked'.extend value' k other) := by
  by_cases missing : value.lookup k = .missing
  · rw [extend_missing missing, extend_missing (same ▸ missing)]
    exact {
      incomplete := by simp [gains.incomplete, Bool.or_right_comm]
      found := gains.found
      other := gains.other }
  · rw [extend_present missing, extend_present (same ▸ missing)]
    exact {
      incomplete := gains.incomplete
      found := by
        rw [get?_cons, if_neg different]
        exact gains.found
      other := fun d apart => by
        rw [get?_cons, get?_cons]
        split
        · rfl
        · exact gains.other d apart }

end

section

variable {ctx : Context} {constraint : Nat → Term} {levels : Nat} {value value' key inner : Term}

theorem Term.Gains.lookup_other {child x y : Term} (gains : Gains child key x y) {other : Term}
    (different : ¬ key.sameKey other) : y.lookup other = x.lookup other := by
  rw [lookup, lookup, gains.lookup?_other different]

theorem Term.Gains.lookup_lacks {child x y : Term} (gains : Gains child key x y) :
    x.lookup key = .missing := by
  rw [lookup, gains.lookup?_lacks]
  rfl

theorem Term.Gains.lookup_null {x y : Term} (gains : Gains .null key x y) :
    y.lookup key = .null := by
  rw [lookup, gains.lookup?_key]
  rfl

variable (gains : Term.Gains .null key value value')
include gains

theorem Term.Gains.lookup_present : value'.lookup key ≠ .missing := by
  simp [gains.lookup_null]

/-- The spec under the key is matched against `null` in both runs, in the second under the key. -/
theorem createUnder_gains (ignores : ctx.IgnoresKey constraint levels inner) :
    ((interp ctx levels).createUnder value (key, inner)).LogBlind (Store.Constrains constraint)
      ((interp ctx levels).createUnder value' (key, inner)) := by
  rw [Interp.createUnder, Interp.createUnder, Term.under_missing gains.lookup_lacks,
    Term.under_present gains.lookup_present, gains.lookup_null]
  exact ignores .null .null key false

/-- The two runs go through the entries of the spec alike, and find the same but for the verdict
under the key. -/
theorem checkEntries_gains (ignores : ctx.IgnoresKey constraint levels inner) {entries : Entries}
    (declared : (key, inner) ∈ entries) (hashable : ∀ e ∈ entries, e.1.hashable)
    (distinct : entries.Pairwise fun a b => ¬ a.1.sameKey b.1) {w w' : World}
    (hw : w.store.Constrains constraint) (same : w.store = w'.store) :
    Eval.EndBlind (fun checked checked' => ∃ verdict,
        ctx.MayAnswer inner .null key false verdict ∧ checked.Gains key verdict checked')
      (checkEntries (interp ctx levels) value entries w)
      (checkEntries (interp ctx levels) value' entries w') := by
  have invariant := Store.constrains_invariant constraint
  have itself := (interp_logBlind invariant ctx levels).create
  induction entries generalizing w w' with
  | nil => cases declared
  | cons e rest ih =>
    obtain ⟨apart, distinct⟩ := List.pairwise_cons.1 distinct
    obtain ⟨first, hashable⟩ := List.forall_mem_cons.1 hashable
    rw [checkEntries_cons, checkEntries_cons]
    rcases List.mem_cons.1 declared with rfl | declared
    · refine .seq (createUnder_gains gains ignores) hw same fun verdict v v' run kept store => ?_
      have others : checkEntries (interp ctx levels) value' rest =
          checkEntries (interp ctx levels) value rest :=
        checkEntries_congr_lookup _ fun d mem => gains.lookup_other (apart d mem)
      rw [others]
      have alike := checkEntries_related (Eval.logBlind_observing _).toCompositional value
        fun d (_ : d ∈ rest) => itself d.2 _ _ _
      refine .seq alike kept store fun checked u u' _ _ last => ⟨last, verdict, ?_, ?_⟩
      · rw [Interp.createUnder, Term.under_present gains.lookup_present, gains.lookup_null] at run
        exact ⟨levels, _, _, run⟩
      · rw [Checked.extend_missing gains.lookup_lacks, Checked.extend_present gains.lookup_present]
        exact checked.gains_extend first verdict
    · have different : ¬ e.1.sameKey key := apart _ declared
      have lookup : value'.lookup e.1 = value.lookup e.1 :=
        gains.lookup_other fun alike => different (Term.same_symm gains.hashable alike)
      have under : value'.under e.1 = value.under e.1 := by rw [Term.under, Term.under, lookup]
      rw [Interp.createUnder, Interp.createUnder, under]
      refine .seq (itself _ _ _ _) hw same fun other v v' _ kept store => ?_
      refine (ih declared hashable distinct kept store).map fun checked checked' found => ?_
      obtain ⟨verdict, answers, found⟩ := found
      exact ⟨verdict, answers, found.extend lookup.symm different other⟩

/-- What is gathered accepts alike, and has an entry more. -/
theorem Checked.Gains.gathered {checked checked' : Checked} {verdict : Verdict}
    (found : checked.Gains key verdict checked') (closed : Bool) :
    let answer := gather value (value.entries.map (entryVerdict checked closed))
      !checked.incomplete
    let answer' := gather value' (value'.entries.map (entryVerdict checked' closed))
      !checked'.incomplete
    answer.accepted = answer'.accepted ∧
      Term.Gains verdict.toTerm key answer.payload answer'.payload := by
  intro answer answer'
  have others : value.entries.map (entryVerdict checked' closed) =
      value.entries.map (entryVerdict checked closed) :=
    List.map_congr_left fun e mem => by
      rw [entryVerdict, entryVerdict, found.other e.1 (gains.fresh e mem)]
  have last : entryVerdict checked' closed (key, .null) = verdict := entryVerdict_found found.found
  have verdicts : value'.entries.map (entryVerdict checked' closed) =
      value.entries.map (entryVerdict checked closed) ++ [verdict] := by
    rw [gains.entries_eq, List.map_append, others, List.map_singleton, last]
  constructor
  · simp only [answer, answer', gather, Verdict.accepted_when, verdicts, List.all_append,
      List.all_cons, List.all_nil, found.incomplete, Bool.not_or, Bool.not_not, Bool.and_true]
    rw [Bool.and_right_comm, Bool.and_assoc]
  · rw [payload_gather, payload_gather, verdicts, List.map_append]
    exact gains.withChildren (by simp) verdict.toTerm

end

/-! ## Matches with one more child -/

/-- Two verdicts accept alike, and the payload of the second has one entry more, with a result that
a match of a spec against `null` has given. -/
def Context.GainsResult (ctx : Context) (spec key : Term) (verdict verdict' : Verdict) : Prop :=
  verdict.accepted = verdict'.accepted ∧ ∃ result, ctx.MayAnswer spec .null key false result ∧
    Term.Gains result.toTerm key verdict.payload verdict'.payload

section

variable {ctx : Context} {constraint : Nat → Term} {spec inner value value' k : Term}

/-- On every level the two runs end alike, whatever the specs under the other keys do. -/
theorem create_gains (ctx : Context) (byEntries : spec.ByEntries) (keyed : spec.WellKeyed)
    (declared : (k, inner) ∈ spec.entries) (keyless : KeylessTree Term.CoreLeaf constraint inner)
    (gains : Term.Gains .null k value value') (key : Term) (closed : Bool) {w : World}
    (hw : w.store.Constrains constraint) (levels : Nat) :
    Eval.EndBlind (ctx.GainsResult inner k) ((interp ctx levels).create spec value key closed w)
      ((interp ctx levels).create spec value' key closed w) := by
  cases levels with
  | zero => exact ⟨rfl, rfl⟩
  | succ levels =>
    obtain ⟨container, container'⟩ := gains.containers
    rw [create_byEntries ctx _ _ _ _ byEntries container,
      create_byEntries ctx _ _ _ _ byEntries container']
    refine (checkEntries_gains gains (keyless.ignores_key levels) declared keyed.hashable
      keyed.distinct hw rfl).map fun checked checked' found => ?_
    obtain ⟨result, answers, found⟩ := found
    obtain ⟨accepted, payload⟩ := found.gathered gains closed
    exact ⟨accepted, result, answers, payload⟩

/-- A container with an entry more has a budget that is at least as large. -/
theorem Term.Gains.budget_le (gains : Term.Gains .null k value value') (s : Store)
    (spec key : Term) : s.budget spec [value, key] ≤ s.budget spec [value', key] := by
  have data : value.isCallable = false ∧ value'.isCallable = false := by
    cases gains <;> exact ⟨rfl, rfl⟩
  have nested := gains.nesting_le
  simp only [Store.budget, List.filter_cons, data, Bool.false_eq_true, if_false, totalNesting]
  exact Nat.add_le_add_left (Nat.mul_le_mul_left _ (by omega)) _

/-- An entry of a spec is matched on a number of levels without a fault, whatever the variables are
bound to and whatever has been called before. -/
def Context.AnswersUnder (ctx : Context) (levels : Nat) (constraint : Nat → Term) (value : Term)
    (e : Term × Term) : Prop :=
  ∀ w, w.store.Constrains constraint →
    ∃ verdict w', (interp ctx levels).createUnder value e w = .ok verdict w'

theorem Context.AnswersUnder.yields {levels : Nat} {e : Term × Term}
    (answers : ctx.AnswersUnder levels constraint value e) :
    ((interp ctx levels).createUnder value e).Yields (World.Constrains constraint)
      (fun _ => False) fun _ => True := by
  intro w hw
  obtain ⟨verdict, w', run⟩ := answers w hw
  have kept : World.Constrains constraint (((interp ctx levels).createUnder value e).after w) :=
    create_keeps (World.constrains_invariant constraint) ctx levels _ _ _ _ w hw
  rw [Eval.after, run] at kept
  rw [run]
  exact ⟨kept, trivial⟩

theorem checkEntries_succeeds {i : Interp} {I : World → Prop} {entries : Entries}
    (each : ∀ e ∈ entries, (i.createUnder value e).Yields I (fun _ => False) fun _ => True) :
    (checkEntries i value entries).Yields I (fun _ => False) fun _ => True := by
  induction entries with
  | nil => exact .pure trivial
  | cons e rest ih =>
    obtain ⟨first, later⟩ := List.forall_mem_cons.1 each
    rw [checkEntries_cons]
    exact first.bind fun _ _ => (ih later).bind fun _ _ => .pure trivial

/-- A match answers if the matches of its entries do, where those that are spec trees need not be
asked for it. -/
theorem create_answers_of_others {w : World} (byEntries : spec.ByEntries)
    (declared : (k, inner) ∈ spec.entries)
    (core : SpecTree (fun t => t.CoreLeaf ∧ ctx.Answers t ∧ ctx.Resolves t) w.store.constraint
      inner) (container : value.isContainer) (key : Term) (closed : Bool)
    (others : ∀ e ∈ spec.entries, e ≠ (k, inner) → ctx.AnswersUnder
      (w.store.budget spec [value, key] - 1) w.store.constraint value e) :
    ∃ verdict w', create ctx spec value key closed w = .ok verdict w' := by
  have invariant := World.constrains_invariant w.store.constraint
  obtain ⟨depth, deep⟩ := core.exists_depth fun t leaf => leaf.1.atomic
  have meets := create_yields ctx (fun _ => False) (matchRules_true _)
    (World.constrains_upholds _) (fun t leaf => leaf.1.atomic)
    (fun t leaf => leaf_answers invariant.emit invariant.note leaf.1 leaf.2.1 leaf.2.2)
    core (Store.covers_entry declared deep [value, key])
  obtain ⟨levels, budget⟩ := w.store.exists_budget_succ spec [value, key]
  rw [budget, Nat.add_sub_cancel] at others meets
  have found : (checkEntries (interp ctx levels) value spec.entries).Yields
      (World.Constrains w.store.constraint) (fun _ => False) fun _ => True := by
    refine checkEntries_succeeds fun e mem => ?_
    by_cases own : e = (k, inner)
    · subst own
      exact meets _ _ _
    · exact (others e mem own).yields
  rw [create_apply, budget, create_byEntries ctx _ _ _ _ byEntries container]
  have answers : (matchEntries (interp ctx levels) spec value closed).Yields
      (World.Constrains w.store.constraint) (fun _ => False) fun _ => True :=
    found.bind fun _ _ => .pure trivial
  exact answers.succeeds fun _ => rfl

/-- An absent child is as good as a `null`. If a spec declares a key that the value lacks, and the
spec under it is built without key specs and functions of the host, then the value and the value
with a `null` under this key at its end are both accepted or both rejected, with the same bindings
and the same calls, and the payload of the second match has one entry more; or both fail alike,
unless the first runs out of levels. Neither fails if no spec under another key does. -/
theorem create_absent_as_null (ctx : Context) {w : World} (byEntries : spec.ByEntries)
    (keyed : spec.WellKeyed) (declared : (k, inner) ∈ spec.entries)
    (keyless : KeylessTree (fun t => t.CoreLeaf ∧ ctx.Answers t ∧ ctx.Resolves t)
      w.store.constraint inner) (gains : Term.Gains .null k value value') (key : Term)
    (closed : Bool) :
    let run := create ctx spec value key closed w
    let run' := create ctx spec value' key closed w
    ((∃ v, run = .error .nestingLimit v) ∨ Eval.EndBlind (ctx.GainsResult inner k) run run') ∧
    ((∀ e ∈ spec.entries, e ≠ (k, inner) → ctx.AnswersUnder
        (w.store.budget spec [value, key] - 1) w.store.constraint value e) →
      ∃ verdict verdict' v v', run = .ok verdict v ∧ run' = .ok verdict' v' ∧
        v.store = v'.store ∧ ctx.GainsResult inner k verdict verdict') := by
  intro run run'
  have core := keyless.mono fun t leaf => leaf.1
  -- With the budget of the larger value, the smaller one is matched in the same way.
  have alike : (∃ v, run = .error .nestingLimit v) ∨
      Eval.EndBlind (ctx.GainsResult inner k) run run' := by
    have larger := create_gains ctx byEntries keyed declared core gains key closed (fun _ => rfl)
      (w.store.budget spec [value', key])
    have below := interp_below ctx (gains.budget_le w.store spec key)
    rcases below.create spec value key closed w with limit | same
    · exact .inl limit
    · rw [← same] at larger
      exact .inr larger
  refine ⟨alike, fun others => ?_⟩
  obtain ⟨verdict, v, answered⟩ :=
    create_answers_of_others byEntries declared keyless.tree gains.containers.1 key closed others
  rcases alike with ⟨u, limit⟩ | ends
  · cases answered.symm.trans limit
  · simp only [run, answered] at ends
    obtain ⟨verdict', v', answered', same, result⟩ := ends.ok_left
    exact ⟨verdict, verdict', v, v', answered, answered', same, result⟩

/-- A variable that is asked for an absent child forgets what it was bound to and holds `null`, as
it does when the `null` is there. -/
theorem absent_child_binds_null :
    let w : World := { store := {
      cells := #[⟨"x", .maybe (.builtin .isInt), some (.int 5)⟩] } }
    let inner : Term := .allOf [.var 0, .negation (.someItem (.list [.str "y"]))]
    let spec : Term := .map .plain [(.str "j", inner), (.str "a", .recorder "seen" .null)]
    let value : Term := .fields [("a", .int 1)]
    let value' : Term := .fields [("a", .int 1), ("j", .null)]
    let run := create .bare spec value .null true
    let run' := create .bare spec value' .null true
    (∃ verdict verdict' v v', run w = .ok verdict v ∧ run' w = .ok verdict' v' ∧
      v.store = v'.store ∧ Context.bare.GainsResult inner (.str "j") verdict verdict') ∧
      ((run.after w).store.cell 0).value = some .null := by
  intro w inner spec value value' run run'
  have byEntries : spec.ByEntries := trivial
  have keyed : spec.WellKeyed := by decide
  have declared : (.str "j", inner) ∈ spec.entries := List.mem_cons_self
  have bound : w.store.constraint 0 ≠ .null := by simp [w, Store.constraint, Store.cell]
  have keyless : KeylessTree (fun t => t.CoreLeaf ∧ Context.bare.Answers t ∧
      Context.bare.Resolves t) w.store.constraint inner := by
    refine .allOf ?_
    simp only [List.forall_mem_cons]
    have isInt : (Term.builtin .isInt).CoreLeaf := by simp [Term.CoreLeaf]
    have text : Context.bare.Resolves (.str "y") := fun registered => by cases registered
    refine ⟨.constrained bound (.maybe (.leaf ⟨isInt, trivial, trivial⟩)),
      .negation (.someItem (.container rfl trivial (.array rfl) ?_)), List.forall_mem_nil _⟩
    simp only [Term.entries, Term.positions, List.forall_mem_cons]
    exact ⟨.leaf ⟨trivial, trivial, text⟩, List.forall_mem_nil _⟩
  have gains : Term.Gains .null (.str "j") value value' := .fields (by decide)
  obtain ⟨-, answers⟩ :=
    create_absent_as_null .bare byEntries keyed declared keyless gains .null true
  refine ⟨answers fun e mem other => ?_, rfl⟩
  simp only [spec, Term.entries, List.mem_cons, List.not_mem_nil, or_false] at mem
  obtain rfl := mem.resolve_left other
  intro u _
  obtain ⟨levels, left⟩ : ∃ n, w.store.budget spec [value, .null] - 1 = n + 1 := by
    have reserved := w.store.reserve_le_budget spec [value, .null]
    rw [reserve] at reserved
    exact ⟨w.store.budget spec [value, .null] - 2, by omega⟩
  rw [left]
  exact ⟨_, _, rfl⟩

end

end SpecMatch
