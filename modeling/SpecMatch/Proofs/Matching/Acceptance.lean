import SpecMatch.Proofs.Matching.Leaves
import SpecMatch.Proofs.Spec.Meaning

/-!
# Acceptance means that the spec holds

A core spec accepts a value exactly if it holds of it, where `Store.holds` knows nothing of
payloads (`create_accepted_eq_holds`). The heart of it is the case of a container against a
container: matching decides by the verdicts that it puts together again under the keys of the
value, the meaning by the keys of the spec (`Checked.Finds.accepted_eq`).
-/

namespace SpecMatch

/-! ## Containers -/

theorem Term.childHolds_missing {inner : Term → Term → Bool} {value key : Term}
    (absent : value.lookup key = .missing) : childHolds inner value key = inner .null .null := by
  simp [childHolds, absent]

theorem Term.childHolds_of_ne {inner : Term → Term → Bool} {value key : Term}
    (there : value.lookup key ≠ .missing) :
    childHolds inner value key = inner (value.lookup key) key := by
  unfold childHolds
  split
  · exact absurd ‹_› there
  · rfl

/-- An entry of a spec declares a key of the value if it has found a child under it. -/
theorem Term.declares_iff {spec value : Term} :
    spec.declares value = true ↔ ∀ d ∈ value.entries, ∃ e ∈ spec.entries,
      e.1.sameKey d.1 ∧ value.lookup e.1 ≠ .missing := by
  unfold declares
  simp only [List.all_eq_true, List.any_eq_true, Bool.and_eq_true, Bool.not_eq_true']
  refine forall₂_congr fun d _ => exists_congr fun e => and_congr_right fun _ =>
    and_congr_right fun _ => ?_
  cases value.lookup e.1 <;> simp

/-- Deciding by the verdicts under the keys of the value is deciding by the entries of the spec. -/
theorem Checked.Finds.accepted_eq {P : MatchStatement} {spec value : Term} {checked : Checked}
    (keyed : spec.WellKeyed) (finds : checked.Finds P value spec.entries)
    (meaning : Term → Term → Term → Bool)
    (meant : ∀ e ∈ spec.entries, ∀ child key verdict, P e.2 child key false verdict →
      verdict.accepted = meaning e.2 child key) (closed : Bool) :
    (gather value (value.entries.map (entryVerdict checked closed)) !checked.incomplete).accepted =
      (spec.entries.all (fun e => Term.childHolds (meaning e.2) value e.1) &&
        (!closed || spec.declares value)) := by
  unfold gather
  rw [Verdict.accepted_when, Bool.eq_iff_iff]
  simp only [Bool.and_eq_true, Bool.not_eq_true', List.all_map, List.all_eq_true,
    Function.comp_apply, Bool.or_eq_true, Term.declares_iff]
  constructor
  · rintro ⟨complete, accepted⟩
    refine ⟨fun e mem => ?_, ?_⟩
    · by_cases absent : value.lookup e.1 = .missing
      · obtain ⟨payload, h⟩ := finds.complete complete e mem absent
        rw [Term.childHolds_missing absent]
        exact (meant e mem _ _ _ h).symm
      · rw [Term.childHolds_of_ne absent]
        -- The child stands in an entry of the value, and its verdict is the one put there.
        obtain ⟨d, hd, -, same⟩ := Term.mem_entries_of_lookup? (Term.lookup?_of_lookup absent)
        obtain ⟨verdict, found⟩ := finds.exists_get? mem absent same
        obtain ⟨e', mem', same', -, h⟩ := finds.of_get? found
        obtain rfl := keyed.eq_of_sameKey mem mem' same same'
        rw [← meant e mem _ _ _ h]
        have accepted := accepted d hd
        rwa [entryVerdict_found found] at accepted
    · cases closed with
      | false => exact .inl rfl
      | true =>
        refine .inr ?_
        intro d hd
        have accepted := accepted d hd
        cases found : checked.get? d.1 with
        | none =>
          rw [entryVerdict_undeclared found] at accepted
          cases accepted
        | some verdict =>
          obtain ⟨e, mem, same, there, -⟩ := finds.of_get? found
          exact ⟨e, mem, same, there⟩
  · rintro ⟨each, declared⟩
    refine ⟨?_, fun d hd => ?_⟩
    · cases complete : checked.incomplete with
      | false => rfl
      | true =>
        obtain ⟨e, mem, absent, payload, h⟩ := finds.absent complete
        have holds := each e mem
        rw [Term.childHolds_missing absent, ← meant e mem _ _ _ h] at holds
        cases holds
    · cases found : checked.get? d.1 with
      | some verdict =>
        rw [entryVerdict_found found]
        obtain ⟨e, mem, -, there, h⟩ := finds.of_get? found
        have holds := each e mem
        rw [Term.childHolds_of_ne there, ← meant e mem _ _ _ h] at holds
        exact holds
      | none =>
        rw [entryVerdict_undeclared found]
        cases closed with
        | false => rfl
        | true =>
          obtain ⟨e, mem, same, there⟩ := (declared.resolve_left nofun) d hd
          obtain ⟨verdict, found'⟩ := finds.exists_get? mem there same
          rw [found] at found'
          cases found'

/-! ## Leaves -/

/-- Whether a leaf holds of a value, given how memories compare and which values the objects of the
host accept. -/
def Context.leafHolds (ctx : Context) (alike : String → String → Bool)
    (test : Handle → Term → Bool) (spec value : Term) : Bool :=
  match spec with
  | .cls c => c.admits value
  | .str s =>
    if ctx.registry.contains s then
      (ctx.registry.classOf? ctx.modules s).any (·.admits value)
    else Term.strictlyEqual alike spec value
  | .builtin .identity => !value.isLeft
  | .builtin f => f.test value
  | .comparison symbol operand => comparisonTruth alike symbol operand value
  | .oneOf options exact => membershipTruth alike options exact value
  | .object handle =>
    if handle.accepts then test handle value else Term.strictlyEqual alike spec value
  | _ => Term.strictlyEqual alike spec value

theorem Term.holdsWith_atomic {spec : Term} (atomic : spec.Atomic)
    (leafHolds : Term → Term → Bool) (cellHolds : Nat → Term → Term → Bool) (value key : Term)
    (closed : Bool) :
    holdsWith leafHolds cellHolds spec value key closed = leafHolds spec value := by
  cases spec <;> first | rfl | exact atomic.elim

/-- The verdict on a leaf accepts what the leaf holds of. -/
theorem LeafVerdict.accepted_eq {ctx : Context} {alike : String → String → Bool}
    {test : Handle → Term → Bool} {spec value key : Term} {closed : Bool} {verdict : Verdict}
    (core : spec.CoreLeaf)
    (h : LeafVerdict ctx (· = alike) (fun handle value b => b = test handle value) spec value key
      closed verdict) :
    verdict.accepted = ctx.leafHolds alike test spec value := by
  cases h with
  | cls => exact Verdict.accepted_when _ _
  | name registered resolved =>
    rw [Verdict.accepted_when, Context.leafHolds, if_pos registered, resolved]
    rfl
  | text unregistered known =>
    subst known
    rw [Verdict.accepted_when, Context.leafHolds, if_neg (Bool.eq_false_iff.1 unregistered)]
  | @test test _ _ _ identity _ =>
    rw [Verdict.accepted_when]
    cases test <;> first | rfl | contradiction
  | identity =>
    cases value with
    | bool b => cases b <;> rfl
    | _ => rfl
  | comparison known | oneOf known =>
    subst known
    exact Verdict.accepted_when _ _
  | acceptor accepts said =>
    rw [Verdict.accepted_when, Context.leafHolds, if_pos accepts, said]
  | literal reading known =>
    subst known
    rw [Verdict.accepted_when]
    cases spec with
    | cls _ | str _ | comparison _ _ | oneOf _ _ => cases reading
    | builtin f => cases f <;> cases reading
    | object handle =>
      cases accepts : handle.accepts with
      | false => rw [Context.leafHolds, if_neg (Bool.eq_false_iff.1 accepts)]
      | true =>
        rw [Term.reading_acceptor core.1 accepts] at reading
        cases reading
    | _ => rfl

/-! ## Specs -/

/-- A match accepts exactly if the spec holds, as far as constraints come to an end. -/
def AcceptsAs (s : Store) (leafHolds : Term → Term → Bool) : MatchStatement :=
  fun spec value key closed verdict =>
    ∀ budget, s.Covers budget spec → verdict.accepted = s.holds leafHolds spec value key closed

/-- If the verdicts accept as the entries hold, then all accept exactly if all hold. -/
theorem all_accepted_eq {entries : Entries} {verdicts : List Verdict} {holds : Term × Term → Bool}
    (each : entries.Forall₂ (fun e verdict => verdict.accepted = holds e) verdicts) :
    verdicts.all (·.accepted) = entries.all holds := by
  induction each with
  | nil => rfl
  | cons first _ ih => rw [List.all_cons, List.all_cons, first, ih]

/-- Acceptance follows the meaning through every form of spec. -/
theorem acceptsAs_rules (s : Store) (leafHolds : Term → Term → Bool) :
    MatchRules s.constraint (AcceptsAs s leafHolds) where
  allOf_accept all budget covers := by
    obtain ⟨below, rfl, inside⟩ := covers.members fun _ => rfl
    rw [Store.holds_allOf, eq_comm]
    simp only [Verdict.accepted, List.all_eq_true]
    intro spec mem
    obtain ⟨payload, h⟩ := all spec mem
    exact (h below (inside spec mem)).symm
  allOf_reject {specs value key closed spec payload} mem h budget covers := by
    obtain ⟨below, rfl, inside⟩ := covers.members fun _ => rfl
    rw [Store.holds_allOf, eq_comm]
    have rejected : false = s.holds leafHolds spec value key false := h below (inside spec mem)
    exact List.all_eq_false.2 ⟨spec, mem, by simp [← rejected]⟩
  anyOf_accept {specs value key closed spec payload} mem h budget covers := by
    obtain ⟨below, rfl, inside⟩ := covers.members fun _ => rfl
    rw [Store.holds_anyOf, eq_comm]
    have accepted : true = s.holds leafHolds spec value key false := h below (inside spec mem)
    exact List.any_eq_true.2 ⟨spec, mem, accepted.symm⟩
  anyOf_reject {specs value key closed} all budget covers := by
    obtain ⟨below, rfl, inside⟩ := covers.members fun _ => rfl
    rw [Store.holds_anyOf, eq_comm]
    simp only [Verdict.accepted, List.any_eq_false]
    intro spec mem
    obtain ⟨payload, h⟩ := all spec mem
    have rejected : false = s.holds leafHolds spec value key false := h below (inside spec mem)
    simp [← rejected]
  negation h budget covers := by
    obtain ⟨below, rfl, inside⟩ := covers.inner fun _ => rfl
    simp [h below inside]
  maybe_null _ _ := rfl
  maybe notNull h budget covers := by
    obtain ⟨below, rfl, inside⟩ := covers.inner fun _ => rfl
    rw [s.holds_maybe leafHolds _ _ notNull]
    exact h below inside
  strict h budget covers := by
    obtain ⟨below, rfl, inside⟩ := covers.inner fun _ => rfl
    simpa using h below inside
  everyItem_null h budget covers := by
    obtain ⟨below, rfl, inside⟩ := covers.inner fun _ => rfl
    simpa using h below inside
  everyItem_container {spec value key closed verdicts} container h budget covers := by
    obtain ⟨below, rfl, inside⟩ := covers.inner fun _ => rfl
    have notNull : value ≠ .null := by
      rintro rfl
      cases container
    rw [s.holds_everyItem leafHolds _ _ notNull, container, gather, Verdict.accepted_when]
    exact all_accepted_eq (h.imp fun e verdict h => h below inside)
  everyItem_scalar notNull scalar budget covers := by
    rw [s.holds_everyItem leafHolds _ _ notNull, scalar]
    rfl
  someItem_null h budget covers := by
    obtain ⟨below, rfl, inside⟩ := covers.inner fun _ => rfl
    simpa using h below inside
  someItem_accept {spec value key closed e payload} mem h budget covers := by
    obtain ⟨below, rfl, inside⟩ := covers.inner fun _ => rfl
    have notNull : value ≠ .null := by
      rintro rfl
      cases mem
    rw [s.holds_someItem leafHolds _ _ notNull, eq_comm]
    have accepted : true = s.holds leafHolds spec e.2 e.1 false := h below inside
    exact List.any_eq_true.2 ⟨e, mem, accepted.symm⟩
  someItem_reject {spec value key closed} notNull all budget covers := by
    obtain ⟨below, rfl, inside⟩ := covers.inner fun _ => rfl
    rw [s.holds_someItem leafHolds _ _ notNull, eq_comm]
    simp only [Verdict.accepted, List.any_eq_false]
    intro e mem
    obtain ⟨payload, h⟩ := all e mem
    have rejected : false = s.holds leafHolds spec e.2 e.1 false := h below inside
    simp [← rejected]
  keyed_path {path specs start length value key closed verdict} array h budget covers := by
    obtain ⟨below, rfl, inside⟩ := covers.inner fun _ => rfl
    -- A tuple of specs says the same as the list of them.
    rcases array with rfl | rfl
    · rw [s.holds_keyed_array leafHolds _ _ _ rfl, Verdict.accepted_when]
      exact h below inside
    · rw [s.holds_keyed_array leafHolds _ _ _ rfl, Verdict.accepted_when]
      rw [Store.Covers, s.depth?_eq] at inside
      refine h below ?_
      rw [Store.Covers, s.depth?_eq]
      exact inside
  keyed_other notArray h budget covers := by
    obtain ⟨below, rfl, inside⟩ := covers.inner fun _ => rfl
    rw [s.holds_keyed leafHolds _ _ _ notArray, Verdict.accepted_when]
    exact h below inside
  free null budget covers := by
    obtain ⟨depth, known, -⟩ := covers
    rw [s.holds_var leafHolds known]
    simp [Cell.free_iff.2 null, Verdict.accepted]
  constrained {id value key closed verdict} bound h budget covers := by
    obtain ⟨below, -, inside⟩ := covers.constraint bound
    obtain ⟨depth, known, -⟩ := covers
    have notFree : (s.cell id).free = false := Cell.free_eq_false_iff.2 bound
    rw [s.holds_var leafHolds known, notFree, Verdict.accepted_when, h below inside]
    rfl
  entries {spec value key closed checked} shape keyed container finds budget covers := by
    obtain ⟨below, rfl, inside⟩ := covers.entries shape
    rw [s.holds_container leafHolds value key closed shape, container, Bool.true_and]
    exact finds.accepted_eq keyed (fun spec child key => s.holds leafHolds spec child key false)
      (fun e mem _ _ _ h => h below (inside e mem)) closed
  scalar {spec value key closed} shape scalar budget covers := by
    rw [s.holds_container leafHolds value key closed shape, scalar]
    rfl

/-- The objects of the host accept by a test of the value, whatever was called before, and are not
compared by what they have been asked. -/
def Context.Decides (ctx : Context) (test : Handle → Term → Bool) : Term → Prop
  | .object handle => handle.accepts = true → handle.memory = none ∧ ∀ value calls, ∃ answer,
      ctx.host.respond handle (.accept value) calls = .answer answer ∧
        answer.truthy = test handle value
  | _ => True

theorem Context.Decides.answers {ctx : Context} {test : Handle → Term → Bool} {t : Term}
    (decides : ctx.Decides test t) : ctx.Answers t := by
  cases t with
  | object handle =>
    intro accepts value calls
    obtain ⟨answer, responds, -⟩ := (decides accepts).2 value calls
    exact ⟨answer, responds⟩
  | _ => trivial

/-- A context without type names, whose objects accept by a test and do nothing else. -/
def Context.testing (test : Handle → Term → Bool) : Context where
  registry := {}
  modules := []
  host := ⟨fun handle request _ =>
    match request with
    | .accept value => .answer (.bool (test handle value))
    | _ => .fail (.host "absent")⟩

theorem Context.testing_decides (test : Handle → Term → Bool) {t : Term}
    (forgets : t.memory? = none) : (Context.testing test).Decides test t := by
  cases t with
  | object handle => exact fun _ => ⟨forgets, fun value _ => ⟨.bool (test handle value), rfl, rfl⟩⟩
  | _ => trivial

/-- The constraints of variables and the comparison of memories are those of a store. -/
def World.Keeping (s : Store) (w : World) : Prop :=
  w.Constrains s.constraint ∧ w.store.alike = s.alike

theorem World.keeping_note (s : Store) {handle : Handle} (forgets : handle.memory = none)
    (request : Request) : (Eval.note (.object handle) request).Keeps (World.Keeping s) := by
  intro w hw
  have alike := w.store.alike_push (show (Term.object handle).memory? = none from forgets) request
  exact ⟨(World.constrains_invariant s.constraint).note _ _ w hw.1, alike.trans hw.2⟩

theorem World.keeping_upholds (s : Store) : World.Upholds s.constraint (World.Keeping s) where
  constrains _ hw := hw.1
  setCell id value key w hw :=
    ⟨(World.constrains_invariant s.constraint).setCell id value key w hw.1,
      (w.store.alike_updateCell id _).trans hw.2⟩
  resetCell id w hw := by
    refine ⟨(World.constrains_invariant s.constraint).resetCell id w hw.1, ?_⟩
    rw [store_after_resetCell, Store.alike_updateCell]
    exact hw.2

/-- A core spec whose names resolve answers, and it accepts exactly if it holds. -/
theorem create_holds (ctx : Context) (test : Handle → Term → Bool) (w : World) {spec : Term}
    (core : SpecTree (fun t => t.CoreLeaf ∧ ctx.Decides test t ∧ ctx.Resolves t)
      w.store.constraint spec) (value key : Term) (closed : Bool) :
    ∃ verdict w', create ctx spec value key closed w = .ok verdict w' ∧
      verdict.accepted =
        w.store.holds (ctx.leafHolds w.store.alike test) spec value key closed := by
  have atomic (t : Term) (leaf : t.CoreLeaf ∧ ctx.Decides test t ∧ ctx.Resolves t) : t.Atomic :=
    leaf.1.atomic
  have leaves (t : Term) (leaf : t.CoreLeaf ∧ ctx.Decides test t ∧ ctx.Resolves t)
      (budget : Nat) : (interp ctx (budget + 1)).Meets (World.Keeping w.store) (fun _ => False)
        (AcceptsAs w.store (ctx.leafHolds w.store.alike test)) t := by
    have meets : (interp ctx (budget + 1)).Meets (World.Keeping w.store) (fun _ => False)
        (LeafVerdict ctx (· = w.store.alike) (fun handle value b => b = test handle value)) t := by
      refine leaf_meets (fun w hw => hw.2) (fun _ _ _ hw => hw) leaf.1 (.inl leaf.2.2) ?_
      rintro handle rfl accepts value
      obtain ⟨forgets, answers⟩ := leaf.2.1 accepts
      exact request_yields_of_answer (World.keeping_note w.store forgets _) (answers value)
    intro value key closed
    refine (meets value key closed).imp fun verdict h budget covers => ?_
    exact (h.accepted_eq leaf.1).trans (Term.holdsWith_atomic (atomic t leaf) _ _ _ _ _).symm
  have yields := create_yields_budget ctx (fun _ => False) (acceptsAs_rules w.store _)
    (World.keeping_upholds w.store) atomic leaves core value key closed
  obtain ⟨verdict, w', run⟩ := yields.succeeds ⟨fun _ => rfl, rfl⟩
  obtain ⟨depth, deep⟩ := core.exists_depth atomic
  exact ⟨verdict, w', run,
    yields.answers ⟨fun _ => rfl, rfl⟩ run _ (Store.covers_budget deep [value, key])⟩

/-- A core spec accepts a value exactly if it holds of it, and it answers if its names resolve.
Objects of the host may take part if their acceptance is a test of the value. -/
theorem create_accepted_eq_holds (ctx : Context) (test : Handle → Term → Bool) (w : World)
    (spec value key : Term) (closed : Bool)
    (core : SpecTree (fun t => t.CoreLeaf ∧ ctx.Decides test t) w.store.constraint spec) :
    (∀ verdict w', create ctx spec value key closed w = .ok verdict w' →
      verdict.accepted =
        w.store.holds (ctx.leafHolds w.store.alike test) spec value key closed) ∧
    (SpecTree (fun t => t.CoreLeaf ∧ ctx.Decides test t ∧ ctx.Resolves t) w.store.constraint spec →
      ∃ verdict w', create ctx spec value key closed w = .ok verdict w') := by
  refine ⟨fun verdict w' run => ?_, fun resolved => ?_⟩
  · have leaves (t : Term) (leaf : t.CoreLeaf ∧ ctx.Decides test t) (budget : Nat) :
        (interp ctx (budget + 1)).Meets (World.Keeping w.store) (fun _ => True)
          (LeafVerdict ctx (· = w.store.alike) (fun handle value b => b = test handle value))
          t := by
      refine leaf_meets (fun w hw => hw.2) (fun event silent w hw => hw) leaf.1
        (.inr fun _ => trivial) ?_
      rintro handle rfl accepts value
      obtain ⟨forgets, answers⟩ := leaf.2 accepts
      exact request_yields_of_answer (World.keeping_note w.store forgets _) (answers value)
    obtain ⟨depth, deep⟩ := core.exists_depth fun t leaf => leaf.1.atomic
    have covers := Store.covers_budget deep [value, key]
    have meets := create_yields ctx (fun _ => True) (acceptsAs_rules w.store _)
      (World.keeping_upholds w.store) (fun t leaf => leaf.1.atomic)
      (fun t leaf budget value key closed =>
        (leaves t leaf budget value key closed).imp fun verdict h _ _ =>
          (h.accepted_eq leaf.1).trans
            (Term.holdsWith_atomic leaf.1.atomic _ _ value key closed).symm)
      core covers
    rw [create_apply] at run
    exact (meets value key closed).answers ⟨fun _ => rfl, rfl⟩ run _ covers
  · exact create_succeeds ctx w (resolved.mono fun t leaf => ⟨leaf.1, leaf.2.1.answers, leaf.2.2⟩)
      value key closed

/-- A record must have tags, each bound by a variable that accepts no null, and a name that an
object of the host accepts, and may have a size. -/
theorem tags_accepted_eq_holds :
    let test (_ : Handle) (value : Term) : Bool := value.classOf == .str
    let w : World := { store := { cells := #[⟨"tag", .negation (.builtin .isNull), none⟩] } }
    let named : Handle := ⟨0, .host "Named", false, true, none, none⟩
    let spec : Term := .map .plain [(.str "tags", .everyItem (.var 0)),
      (.str "name", .object named), (.str "size", .maybe (.comparison ">" (.int 2)))]
    let value : Term := .fields [("tags", .list [.str "a", .int 1]), ("name", .str "b"),
      ("shade", .null)]
    ∃ verdict w', create (.testing test) spec value .null false w = .ok verdict w' ∧
      verdict.accepted = true := by
  intro test w named spec value
  have leaf (t : Term) (core : t.CoreLeaf) (forgets : t.memory? = none)
      (resolves : (Context.testing test).Resolves t) :
      t.CoreLeaf ∧ (Context.testing test).Decides test t ∧ (Context.testing test).Resolves t :=
    ⟨core, Context.testing_decides test forgets, resolves⟩
  have tree : SpecTree (fun t => t.CoreLeaf ∧ (Context.testing test).Decides test t ∧
      (Context.testing test).Resolves t) w.store.constraint spec := by
    have bound : w.store.constraint 0 ≠ .null := by simp [w, Store.constraint, Store.cell]
    refine .container rfl trivial ⟨?_, ?_⟩ ?_
    · simp [spec, Term.entries, Term.hashable]
    · simp [spec, Term.entries, Term.sameKey, Term.same]
    · intro e mem
      simp only [spec, Term.entries, List.mem_cons, List.not_mem_nil, or_false] at mem
      rcases mem with rfl | rfl | rfl
      · have notNull := leaf (.builtin .isNull) (by simp [Term.CoreLeaf]) rfl trivial
        exact .everyItem (.constrained bound (.negation (.leaf notNull)))
      · exact .leaf (leaf (.object named) ⟨rfl, .inl rfl⟩ rfl trivial)
      · exact .maybe (.leaf (leaf (.comparison ">" (.int 2)) (.inr rfl) rfl trivial))
  obtain ⟨answers, total⟩ := create_accepted_eq_holds (.testing test) test w spec value .null
    false (tree.mono fun t leaf => ⟨leaf.1, leaf.2.1⟩)
  obtain ⟨verdict, w', run⟩ := total tree
  exact ⟨verdict, w', run, (answers verdict w' run).trans rfl⟩

end SpecMatch
