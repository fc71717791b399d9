import SpecMatch.Proofs.Matching.Declared
import SpecMatch.Proofs.Matching.Kinds
import SpecMatch.Proofs.Matching.Steady
import SpecMatch.Proofs.Spec.Reordering

/-!
# The order of a spec does not matter

Matching goes through the entries of a spec in their order and binds variables and asks recorders
and objects on the way, and yet the order has no influence on the answer (`create_ignores_order`). A
spec tree and a reordered one agree on every level (`SpecTree.agreesOn_reordered`): what variables
are bound to is never looked at, and what has been asked is looked at only where memories are
compared.

If something with a memory is asked by one entry and compared by another one, then the order of
these two does matter (`compared_memories_see_order`), so what a match compares must not be changed
by what it asks (`Steady`).
-/

namespace SpecMatch

/-- A world during a match that began with a store: variables have the given constraints, and only
leaves have been asked since. -/
def World.During (leaf : Term → Prop) (s : Store) (constraint : Nat → Term) (w : World) : Prop :=
  w.Constrains constraint ∧ s.Later leaf w.store

section

variable {leaf : Term → Prop} {s : Store} {constraint constraint' : Nat → Term}

theorem World.During.emit {event : Event} (silent : event.cell? = none) :
    (Eval.emit event).Keeps (World.During leaf s constraint) :=
  fun w hw => ⟨(World.constrains_invariant constraint).emit event silent w hw.1, hw.2⟩

theorem World.During.setCell (id : Nat) (value key : Term) :
    (SpecMatch.setCell id value key).Keeps (World.During leaf s constraint) :=
  fun w hw => ⟨(World.constrains_invariant constraint).setCell id value key w hw.1, hw.2⟩

theorem World.During.resetCell (id : Nat) :
    (SpecMatch.resetCell id).Keeps (World.During leaf s constraint) := by
  refine fun w hw => ⟨(World.constrains_invariant constraint).resetCell id w hw.1, ?_⟩
  rw [store_after_resetCell]
  exact hw.2

theorem World.During.note {t : Term} (asks : ¬ t.Inert) (there : leaf t) (request : Request) :
    (Eval.note t request).Keeps (World.During leaf s constraint) :=
  fun w hw => ⟨(World.constrains_invariant constraint).note t request w hw.1,
    hw.2.push there asks request⟩

/-! ## Leaves -/

theorem ask_agree (question : Question) (needed : Bool) :
    (Eval.ask question needed).Agree (World.During leaf s constraint)
      (World.During leaf s constraint') (Eval.ask question needed) :=
  ask_related (Eval.agree_compositional _ _) (.emit (.emit rfl) (.emit rfl)) needed

section

variable {t value : Term}
variable (indifferent : ∀ {constraint : Nat → Term} (w : World), w.During leaf s constraint →
  Term.Indifferent w.store.alike s.alike t value)
include indifferent

theorem matchLiteral_agree :
    (matchLiteral t value).Agree (World.During leaf s constraint)
      (World.During leaf s constraint') (matchLiteral t value) := by
  have reads {constraint : Nat → Term} (w : World) (during : w.During leaf s constraint) :
      Term.strictlyEqual w.store.alike t value = Term.strictlyEqual s.alike t value :=
    Term.strictlyEqual_congr (indifferent w during).same
  refine .read (fun w during => by dsimp only; rw [reads w during])
    (fun w during => by dsimp only; rw [reads w during]) ?_
  exact .seq (ask_agree _ _) fun _ => .answer _

theorem comparisonHolds_agree (symbol : String) :
    (comparisonHolds symbol t value).Agree (World.During leaf s constraint)
      (World.During leaf s constraint') (comparisonHolds symbol t value) := by
  unfold comparisonHolds
  by_cases equality : symbol == "=="
  · have reads {constraint : Nat → Term} (w : World) (during : w.During leaf s constraint) :
        Term.strictlyEqual w.store.alike value t = Term.strictlyEqual s.alike value t :=
      Term.strictlyEqual_congr (indifferent w during).same_symm
    simp only [if_pos equality]
    refine .read (fun w during => by rw [reads w during])
      (fun w during => by rw [reads w during]) ?_
    exact .seq (ask_agree _ _) fun _ => .answer _
  · simp only [if_neg equality]
    cases Relation.ofSymbol? symbol with
    | some relation =>
      have reads {constraint : Nat → Term} (w : World) (during : w.During leaf s constraint) :
          Term.orders? w.store.alike relation value t = Term.orders? s.alike relation value t :=
        (indifferent w during).orders? relation
      refine .read (fun w during => by dsimp only; rw [reads w during])
        (fun w during => by dsimp only; rw [reads w during]) ?_
      exact .seq (ask_agree _ _) fun _ => .answer _
    | none => exact .fail_read _ _

end

/-- Looking among options comes to the same if each of them compares the same. -/
theorem findOption_congr {alike alike' : String → String → Bool} {value : Term}
    {options : List Term} (indifferent : ∀ option ∈ options,
      Term.Indifferent alike alike' option value) (exact : Bool) :
    findOption alike exact value options = findOption alike' exact value options := by
  induction options with
  | nil => rfl
  | cons option rest ih =>
    obtain ⟨first, later⟩ := List.forall_mem_cons.1 indifferent
    have same :
        option.matchesOption alike exact value = option.matchesOption alike' exact value := by
      rw [Term.matchesOption, Term.matchesOption, first.same,
        Term.strictlyEqual_congr first.same]
    rw [findOption, findOption, same, ih later]

theorem isOneOf_agree {options : List Term} {value : Term}
    (indifferent : ∀ {constraint : Nat → Term} (w : World), w.During leaf s constraint →
      ∀ option ∈ options, Term.Indifferent w.store.alike s.alike option value) (exact : Bool) :
    (isOneOf options exact value).Agree (World.During leaf s constraint)
      (World.During leaf s constraint') (isOneOf options exact value) :=
  .read (fun w during => findOption_congr (indifferent w during) exact)
    (fun w during => findOption_congr (indifferent w during) exact)
    (findOption_related (Eval.agree_compositional _ _)
      (fun _ _ => .emit (.emit rfl) (.emit rfl)) _ _)

/-- The wording of this fault may show values of variables, but there is no answer. -/
theorem classNamed_agree {I I' : World → Prop} (name : String) (target : Term) :
    (Registry.classNamed name target).Agree I I' (Registry.classNamed name target) := by
  unfold Registry.classNamed
  split
  · exact .answer _
  · exact .fail_read _ _

variable {ctx : Context}

theorem request_agree {I I' : World → Prop} {i : Interp} {handle : Handle} {request : Request}
    (settled : ctx.Settled handle request) (keeps : (Eval.note (.object handle) request).Keeps I)
    (keeps' : (Eval.note (.object handle) request).Keeps I') :
    (ctx.request i handle request).Agree I I' (ctx.request i handle request) := by
  obtain ⟨response, plain, responds⟩ := settled
  let noted (response : Response) : Eval Term := do
    Eval.note (.object handle) request
    response.run i
  have agree : (noted response).Agree I I' (noted response) := by
    refine .seq (.note keeps keeps') fun _ => ?_
    cases response with
    | answer result => exact .answer result
    | fail fault => exact (Eval.agree_compositional I I').fail fault
    | ask => exact plain.elim
  exact .read (fun w _ => congrArg noted (responds w.store.calls))
    (fun w _ => congrArg noted (responds w.store.calls)) agree

variable {top topKey : Term}

/-- A leaf agrees with itself, whatever the constraints of variables are. -/
theorem leaf_agree {t value key : Term} (repeatable : ctx.Repeatable t) (there : leaf t)
    (steady : Steady leaf s top topKey) (comes : top.ComesTo topKey value key) (budget : Nat)
    (closed : Bool) :
    ((interp ctx (budget + 1)).create t value key closed).Agree (World.During leaf s constraint)
      (World.During leaf s constraint') ((interp ctx (budget + 1)).create t value key closed) := by
  have compositional := Eval.agree_compositional (World.During leaf s constraint)
    (World.During leaf s constraint')
  have note (asks : ¬ t.Inert) (request : Request) {constraint : Nat → Term} :
      (Eval.note t request).Keeps (World.During leaf s constraint) :=
    World.During.note asks there request
  have indifferent {operand : Term} (mem : operand ∈ t.operands) {constraint : Nat → Term}
      (w : World) (during : w.During leaf s constraint) :
      Term.Indifferent w.store.alike s.alike operand value :=
    steady value key comes t there operand mem w.store during.2
  refine leaf_related compositional repeatable ?_ key closed
  constructor
  · exact fun c => isInstance_related compositional (.emit (.emit rfl) (.emit rfl))
  · exact fun literal => matchLiteral_agree (indifferent literal)
  · exact fun name _ => resolve_related_of_named compositional
      (fun event silent _ => .emit (.emit silent) (.emit silent)) classNamed_agree ctx.registry
      ctx.modules name
  · rintro symbol operand rfl
    exact comparisonHolds_agree (indifferent (List.mem_singleton_self _)) symbol
  · rintro options exact rfl
    exact isOneOf_agree (fun w during option mem => indifferent mem w during) exact
  · exact fun asks request => .note (note asks request) (note asks request)
  · rintro handle rfl asks request
    exact request_agree (repeatable.2.resolve_left asks request) (note asks request)
      (note asks request)

/-! ## Variables -/

/-- A variable agrees with itself under two constraints that agree. -/
theorem bindCell_agree {id budget : Nat} {value key : Term}
    (null_iff : constraint id = .null ↔ constraint' id = .null)
    (on : constraint id ≠ .null →
      ((interp ctx budget).create (constraint id) value key false).Agree
        (World.During leaf s constraint) (World.During leaf s constraint')
        ((interp ctx budget).create (constraint' id) value key false)) :
    (bindCell (interp ctx budget) id value key).Agree (World.During leaf s constraint)
      (World.During leaf s constraint') (bindCell (interp ctx budget) id value key) := by
  let settle (allowed : Bool) : Eval Verdict :=
    if allowed then do setCell id value key; return .right value
    else do resetCell id; return .left value
  have settled : ∀ allowed : Bool, (settle allowed).Agree (World.During leaf s constraint)
      (World.During leaf s constraint') (settle allowed) :=
    settle_related (Eval.agree_compositional _ _) key key
      (.setCell (.setCell id value key) (.setCell id value key))
      (.resetCell (.resetCell id) (.resetCell id))
  by_cases null : constraint id = .null
  · have reads {constraint : Nat → Term} (null : constraint id = .null) (w : World)
        (during : w.During leaf s constraint) :
        (do settle (← if (w.store.cell id).free then pure true
          else (interp ctx budget).accepts (w.store.cell id).constraint value key)) =
            (pure true >>= settle) := by
      rw [if_pos (Cell.free_iff.2 ((during.1 id).trans null))]
    exact .read (reads null) (reads (null_iff.1 null)) (.seq (.answer true) settled)
  · have reads {constraint : Nat → Term} (bound : constraint id ≠ .null) (w : World)
        (during : w.During leaf s constraint) :
        (do settle (← if (w.store.cell id).free then pure true
          else (interp ctx budget).accepts (w.store.cell id).constraint value key)) =
            ((interp ctx budget).accepts (constraint id) value key >>= settle) := by
      rw [during.1 id, if_neg fun free => bound ((during.1 id).symm.trans (Cell.free_iff.1 free))]
    have agree := accepts_related (Eval.agree_compositional _ _) (on null)
    exact .read (reads null) (reads fun null' => null (null_iff.2 null')) (.seq agree settled)

/-! ## Specs -/

/-- Two specs agree on all that the match of a value comes to. -/
def Context.AgreesOn (ctx : Context) (leaf : Term → Prop) (s : Store) (top topKey : Term)
    (constraint constraint' : Nat → Term) (spec spec' : Term) : Prop :=
  ∀ budget value key closed, top.ComesTo topKey value key →
    ((interp ctx budget).create spec value key closed).Agree (World.During leaf s constraint)
      (World.During leaf s constraint') ((interp ctx budget).create spec' value key closed)

theorem agreesOn_of_succ {spec spec' : Term}
    (succ : ∀ budget value key closed, top.ComesTo topKey value key →
      ((interp ctx (budget + 1)).create spec value key closed).Agree
        (World.During leaf s constraint) (World.During leaf s constraint')
        ((interp ctx (budget + 1)).create spec' value key closed)) :
    ctx.AgreesOn leaf s top topKey constraint constraint' spec spec'
  | 0, _, _, _, _ => (Eval.agree_compositional _ _).fail _
  | budget + 1, value, key, closed, comes => succ budget value key closed comes

/-- Containers agree if the specs under their keys do. -/
theorem container_agreesOn {spec spec' : Term} (shape : spec.isContainer)
    (declarative : spec.Declarative) (keyed : spec.WellKeyed) (reordered : spec.Reordered spec')
    (each : ∀ e ∈ spec.entries, ∀ t, e.2.Reordered t →
      ctx.AgreesOn leaf s top topKey constraint constraint' e.2 t) :
    ctx.AgreesOn leaf s top topKey constraint constraint' spec spec' := by
  refine agreesOn_of_succ fun budget value key closed comes => ?_
  have shape' := reordered.isContainer_eq.trans shape
  have declarative' := reordered.declarative declarative keyed
  cases container : value.isContainer with
  | true =>
    rw [create_container ctx budget value key closed shape declarative container,
      create_container ctx budget value key closed shape' declarative' container]
    obtain ⟨f, inside, perm⟩ := reordered.exists_entries shape
    refine matchEntries_agree keyed perm (fun e mem => ?_) closed
    exact each e mem (f e) (inside e mem) budget _ _ _ (comes.under (keyed.hashable e mem))
  | false =>
    rw [create_container_scalar ctx budget value key closed shape declarative container,
      create_container_scalar ctx budget value key closed shape' declarative' container,
      matchLiteral_container_scalar shape container, matchLiteral_container_scalar shape' container]
    exact .answer _

/-- A key spec agrees with a reordered one if their paths do, a path that is a tuple as a list. -/
theorem keyed_agree {path path' : Term} (reordered : path.Reordered path')
    (on : ctx.AgreesOn leaf s top topKey constraint constraint' path path')
    (on_list : ∀ specs specs', path = .tuple specs → path' = .tuple specs' →
      ctx.AgreesOn leaf s top topKey constraint constraint' (.list specs) (.list specs'))
    (start : Int) (length : Option Int) {value key : Term} (comes : top.ComesTo topKey value key)
    (budget : Nat) :
    (keyed (interp ctx budget) path start length key).Agree (World.During leaf s constraint)
      (World.During leaf s constraint') (keyed (interp ctx budget) path' start length key) := by
  have compositional := Eval.agree_compositional (World.During leaf s constraint)
    (World.During leaf s constraint')
  by_cases array : path.form? = some .array
  · cases path with
    | list specs =>
      obtain ⟨specs', rfl⟩ := reordered.list_inv
      exact accepts_related compositional (on budget _ _ _ (comes.segment start length))
    | tuple specs =>
      obtain ⟨specs', rfl, -⟩ := reordered.tuple_inv
      have on := on_list specs specs' rfl rfl
      exact accepts_related compositional (on budget _ _ _ (comes.segment start length))
    | _ => cases array
  · rw [keyed_other array, keyed_other (reordered.form?_eq ▸ array)]
    exact accepts_related compositional (on budget _ _ _ (comes.cutKey start length))

/-- Every spec tree agrees with what it is reordered to. -/
theorem SpecTree.agreesOn_reordered (repeatable : ∀ t, leaf t → ctx.Repeatable t)
    (steady : Steady leaf s top topKey)
    (constraints : ∀ id, (constraint id).Reordered (constraint' id)) {spec spec' : Term}
    (tree : SpecTree leaf constraint spec) (reordered : spec.Reordered spec') :
    ctx.AgreesOn leaf s top topKey constraint constraint' spec spec' := by
  have compositional := Eval.agree_compositional (World.During leaf s constraint)
    (World.During leaf s constraint')
  -- A tuple as the path of a key spec is matched as a list, so a tuple is followed as both.
  suffices both : (∀ spec', spec.Reordered spec' →
        ctx.AgreesOn leaf s top topKey constraint constraint' spec spec') ∧
      ∀ specs specs', spec = .tuple specs → (Term.list specs).Reordered (.list specs') →
        ctx.AgreesOn leaf s top topKey constraint constraint' (.list specs) (.list specs')
    from both.1 spec' reordered
  clear reordered spec'
  induction tree with
  | leaf h =>
    constructor
    · intro spec' reordered
      obtain rfl := reordered.eq_of_atomic (repeatable _ h).atomic
      exact agreesOn_of_succ fun budget value key closed comes =>
        leaf_agree (repeatable _ h) h steady comes budget closed
    · rintro specs specs' rfl
      exact ((repeatable _ h).atomic).elim
  | container shape declarative keyed _ ih =>
    have each := fun e mem => (ih e mem).1
    refine ⟨fun spec' reordered =>
      container_agreesOn shape declarative keyed reordered each, ?_⟩
    rintro specs specs' rfl reordered
    have declarative_list : (Term.list specs).Declarative := trivial
    exact container_agreesOn rfl declarative_list (.array rfl) reordered each
  | allOf _ ih =>
    refine ⟨fun spec' reordered => ?_, nofun⟩
    obtain ⟨specs', rfl, each⟩ := reordered.join_inv .allOf
    refine agreesOn_of_succ fun budget value key closed comes => ?_
    rw [create_allOf, create_allOf]
    have inside := (List.forall₂_and_left _ _).2 ⟨fun t mem => (ih t mem).1, each⟩
    exact allOf_related compositional
      (inside.imp fun _ t' on => on.1 t' on.2 budget value key false comes)
  | anyOf _ ih =>
    refine ⟨fun spec' reordered => ?_, nofun⟩
    obtain ⟨specs', rfl, each⟩ := reordered.join_inv .anyOf
    refine agreesOn_of_succ fun budget value key closed comes => ?_
    rw [create_anyOf, create_anyOf]
    have inside := (List.forall₂_and_left _ _).2 ⟨fun t mem => (ih t mem).1, each⟩
    exact anyOf_related compositional
      (inside.imp fun _ t' on => on.1 t' on.2 budget value key false comes)
  | negation _ ih =>
    refine ⟨fun spec' reordered => ?_, nofun⟩
    obtain ⟨inner, rfl, inside⟩ := reordered.wrap_inv .negation
    refine agreesOn_of_succ fun budget value key closed comes => ?_
    rw [create_negation, create_negation]
    exact .seq (ih.1 inner inside budget value key false comes) fun _ => .answer _
  | maybe _ ih =>
    refine ⟨fun spec' reordered => ?_, nofun⟩
    obtain ⟨inner, rfl, inside⟩ := reordered.wrap_inv .maybe
    refine agreesOn_of_succ fun budget value key closed comes => ?_
    rw [create_maybe, create_maybe]
    exact maybe_related compositional (ih.1 inner inside budget value key false comes)
  | strict _ ih =>
    refine ⟨fun spec' reordered => ?_, nofun⟩
    obtain ⟨inner, rfl, inside⟩ := reordered.wrap_inv .strict
    refine agreesOn_of_succ fun budget value key closed comes => ?_
    rw [create_strict, create_strict]
    exact ih.1 inner inside budget value key true comes
  | everyItem _ ih =>
    refine ⟨fun spec' reordered => ?_, nofun⟩
    obtain ⟨inner, rfl, inside⟩ := reordered.wrap_inv .everyItem
    refine agreesOn_of_succ fun budget value key closed comes => ?_
    rw [create_everyItem, create_everyItem]
    have on := ih.1 inner inside budget
    exact everyItem_related compositional (fun _ => on _ _ _ comes.null)
      fun e mem => on _ _ _ (comes.entry mem)
  | someItem _ ih =>
    refine ⟨fun spec' reordered => ?_, nofun⟩
    obtain ⟨inner, rfl, inside⟩ := reordered.wrap_inv .someItem
    refine agreesOn_of_succ fun budget value key closed comes => ?_
    rw [create_someItem, create_someItem]
    have on := ih.1 inner inside budget
    exact someItem_related compositional (fun _ => on _ _ _ comes.null)
      fun e mem => on _ _ _ (comes.entry mem)
  | @keyed path start length _ ih =>
    refine ⟨fun spec' reordered => ?_, nofun⟩
    obtain ⟨inner, rfl, inside⟩ := reordered.wrap_inv (.keyed start length)
    refine agreesOn_of_succ fun budget value key closed comes => ?_
    rw [create_keyed, create_keyed]
    refine .seq (keyed_agree inside (ih.1 inner inside) ?_ start length comes budget) fun _ =>
      .answer _
    rintro specs specs' rfl rfl
    obtain ⟨_, same, as_lists⟩ := inside.tuple_inv
    cases same
    exact ih.2 specs specs' rfl as_lists
  | @free id null =>
    refine ⟨fun spec' reordered => ?_, nofun⟩
    obtain rfl := reordered.eq_of_var
    refine agreesOn_of_succ fun budget value key closed _ => ?_
    rw [create_var]
    exact bindCell_agree (constraints id).null_iff fun bound => absurd null bound
  | @constrained id _ _ ih =>
    refine ⟨fun spec' reordered => ?_, nofun⟩
    obtain rfl := reordered.eq_of_var
    refine agreesOn_of_succ fun budget value key closed comes => ?_
    rw [create_var]
    exact bindCell_agree (constraints id).null_iff fun _ =>
      ih.1 (constraint' id) (constraints id) budget value key false comes

end

end SpecMatch
