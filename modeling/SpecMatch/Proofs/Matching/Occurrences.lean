import SpecMatch.Proofs.Evaluation.Budget
import SpecMatch.Proofs.Matching.Bindings
import SpecMatch.Proofs.Term.Shape

/-!
# The last occurrence of a variable decides

A pattern is a spec of nested containers over leaves and variables (`Pattern`). Which occurrences of
variables its match reaches, and with what, is a recursion on the pattern and the value
(`Term.reached`) that knows nothing of acceptance: a match goes through all entries of a container
spec whatever the verdicts are.

A match settles the variables that it reaches one by one, in order, and does nothing else to
variables (`Pattern.settles`). So each variable ends as its last occurrence leaves it
(`create_settles_last`).
-/

namespace SpecMatch

/-! ## Patterns -/

/-- Nested containers over leaves and variables. There is no variable in the constraint of one. -/
inductive Pattern (leaf : Term → Prop) (constraint : Nat → Term) : Term → Prop
  | leaf {spec : Term} : leaf spec → Pattern leaf constraint spec
  | var {id : Nat} : (constraint id ≠ .null → VariableFree leaf (constraint id)) →
      Pattern leaf constraint (.var id)
  | container {spec : Term} : spec.isContainer → spec.Declarative → spec.WellKeyed →
      (∀ e ∈ spec.entries, Pattern leaf constraint e.2) → Pattern leaf constraint spec

/-- Patterns are spec trees. -/
theorem Pattern.tree {leaf : Term → Prop} (atomic : ∀ t, leaf t → t.Atomic)
    {constraint : Nat → Term} {spec : Term} (pattern : Pattern leaf constraint spec) :
    SpecTree leaf constraint spec := by
  induction pattern with
  | leaf h => exact .leaf h
  | @var id inner =>
    by_cases null : constraint id = .null
    · exact .free null
    · exact .constrained null ((inner null).of_variableFree atomic constraint)
  | container shape declarative keyed _ ih => exact .container shape declarative keyed ih

/-- Leaves that ask nothing of the host and whose names resolve. -/
def Context.Quiet (ctx : Context) (t : Term) : Prop :=
  t.CoreLeaf ∧ t.Inert ∧ ctx.Resolves t

namespace Context.Quiet

variable {ctx : Context} {t : Term}

theorem atomic (quiet : ctx.Quiet t) : t.Atomic := quiet.1.atomic

theorem repeatable (quiet : ctx.Quiet t) : ctx.Repeatable t := by
  obtain ⟨core, inert, -⟩ := quiet
  cases t with
  | object handle => exact ⟨core.1, .inl inert⟩
  | recorder name result => exact core.elim
  | _ => exact core

/-- There is nothing to be answered. -/
theorem answers (quiet : ctx.Quiet t) : ctx.Answers t := by
  cases t with
  | object handle =>
    intro accepts
    rw [quiet.2.1.1] at accepts
    cases accepts
  | _ => trivial

end Context.Quiet

/-! ## Occurrences -/

/-- An occurrence of a variable, with the value and the key that a match reaches it with. -/
structure Occurrence where
  id : Nat
  value : Term
  key : Term

namespace Term

/-- What is reached under a key: with the child there, or with `null` if there is none. -/
def reachedUnder (inner : Term → Term → List Occurrence) (value key : Term) : List Occurrence :=
  match value.lookup? key with
  | some child => inner child key
  | none => inner .null .null

mutual

/-- The occurrences of variables that are reached, in the order of the spec. Nothing is reached
inside a container spec unless there is a container. -/
def reached (spec value key : Term) : List Occurrence :=
  match spec with
  | .var id => [⟨id, value, key⟩]
  | .list items | .tuple items => if value.isContainer then reachedItems 0 items value else []
  | .map _ entries => if value.isContainer then reachedEntries entries value else []
  | .fields attributes => if value.isContainer then reachedAttributes attributes value else []
  | _ => []
termination_by structural spec

/-- The occurrences that are reached in the items of a spec, counted from `start`. -/
def reachedItems (start : Nat) (items : List Term) (value : Term) : List Occurrence :=
  match items with
  | [] => []
  | x :: xs =>
    reachedUnder (fun child key => reached x child key) value (.int start) ++
      reachedItems (start + 1) xs value
termination_by structural items

/-- The occurrences that are reached in the entries of a spec. -/
def reachedEntries (entries : List (Term × Term)) (value : Term) : List Occurrence :=
  match entries with
  | [] => []
  | (k, x) :: rest =>
    reachedUnder (fun child key => reached x child key) value k ++ reachedEntries rest value
termination_by structural entries

/-- The occurrences that are reached in the attributes of a spec. -/
def reachedAttributes (attributes : List (String × Term)) (value : Term) : List Occurrence :=
  match attributes with
  | [] => []
  | (n, x) :: rest =>
    reachedUnder (fun child key => reached x child key) value (.str n) ++
      reachedAttributes rest value
termination_by structural attributes

end

/-- The occurrences that are reached under the keys of a container spec. -/
def reachedBelow (entries : Entries) (value : Term) : List Occurrence :=
  entries.flatMap fun e => reachedUnder (reached e.2) value e.1

theorem reachedItems_eq (start : Nat) (items : List Term) (value : Term) :
    reachedItems start items value = reachedBelow (positions start items) value := by
  induction items generalizing start with
  | nil => rfl
  | cons x xs ih =>
    rw [reachedItems, ih]
    rfl

theorem reachedEntries_eq (entries : Entries) (value : Term) :
    reachedEntries entries value = reachedBelow entries value := by
  induction entries with
  | nil => rfl
  | cons e rest ih =>
    rw [reachedEntries, ih]
    rfl

theorem reachedAttributes_eq (attributes : Attributes) (value : Term) :
    reachedAttributes attributes value =
      reachedBelow (attributes.map fun a => (.str a.1, a.2)) value := by
  induction attributes with
  | nil => rfl
  | cons a rest ih =>
    rw [reachedAttributes, ih]
    rfl

/-- What a container spec reaches depends on its entries alone. -/
theorem reached_container {spec : Term} (shape : spec.isContainer) (value key : Term) :
    spec.reached value key = if value.isContainer then reachedBelow spec.entries value else [] := by
  cases spec with
  | list items | tuple items => rw [reached, reachedItems_eq]; rfl
  | map kind entries => rw [reached, reachedEntries_eq]; rfl
  | fields attributes => rw [reached, reachedAttributes_eq]; rfl
  | _ => cases shape

theorem Atomic.reached {spec : Term} (atomic : spec.Atomic) (value key : Term) :
    spec.reached value key = [] := by
  cases spec <;> first | rfl | exact atomic.elim

/-- What holds of everything that is reached holds of what is reached under a key. -/
theorem forall_reachedUnder {p : Occurrence → Prop} {inner : Term → Term → List Occurrence}
    {value : Term} (present : value.Present)
    (each : ∀ child key, child.Present → ∀ o ∈ inner child key, p o) (key : Term) :
    ∀ o ∈ reachedUnder inner value key, p o := by
  unfold reachedUnder
  split
  · next found => exact each _ _ (present.child found)
  · exact each _ _ present_null

end Term

/-- A pattern reaches its variables with parts of the value, or with `null`. -/
theorem Pattern.reached_present {leaf : Term → Prop} (atomic : ∀ t, leaf t → t.Atomic)
    {constraint : Nat → Term} {spec : Term} (pattern : Pattern leaf constraint spec)
    {value : Term} (present : value.Present) (key : Term) :
    ∀ o ∈ spec.reached value key, o.value ≠ .missing := by
  induction pattern generalizing value key with
  | leaf h =>
    rw [(atomic _ h).reached]
    exact List.forall_mem_nil _
  | var => exact List.forall_mem_singleton.2 present.here
  | container shape _ _ _ ih =>
    rw [Term.reached_container shape]
    split
    · refine List.forall_mem_flatMap.2 fun e mem => ?_
      exact Term.forall_reachedUnder present (fun child key h => ih e mem h key) e.1
    · exact List.forall_mem_nil _

/-! ## Settling variables -/

/-- The constraint of a variable, if there is one, accepts what an occurrence is reached with. -/
def Context.admits (ctx : Context) (w : World) (o : Occurrence) : Bool :=
  (w.store.cell o.id).free ||
    (accepts ctx (w.store.constraint o.id) o.value o.key).answer? w == some true

/-- An occurrence is settled by binding its variable or by resetting it. -/
def Context.settle (ctx : Context) (w : World) (o : Occurrence) : Step :=
  if ctx.admits w o then .bind o.id o.value o.key else .reset o.id

/-- An evaluation in a world like the given one answers, and settles occurrences one by one. -/
def Eval.Settles (ctx : Context) (w₀ : World) (occurrences : List Occurrence) {α : Type}
    (m : Eval α) : Prop :=
  ∀ w, w₀.AgreesWith w → ∃ a steps, m w = .ok a (w.perform steps) ∧
    w₀.AgreesWith (w.perform steps) ∧
    steps.filter (·.cell?.isSome) = occurrences.map (ctx.settle w₀)

section

variable {ctx : Context} {w₀ : World}

theorem Context.cell?_settle (w : World) (o : Occurrence) :
    (ctx.settle w o).cell? = some o.id := by
  unfold settle
  split <;> rfl

theorem Context.held?_settle {w : World} {o : Occurrence} (present : o.value ≠ .missing) :
    (ctx.settle w o).held? = if ctx.admits w o then some o.value else none := by
  unfold settle
  split
  · cases value : o.value <;> first | rfl | exact absurd value present
  · rfl

namespace Eval.Settles

theorem answer {α : Type} (a : α) : (pure a : Eval α).Settles ctx w₀ [] :=
  fun _ agrees => ⟨a, [], rfl, agrees, rfl⟩

theorem seq {α β : Type} {m : Eval α} {f : α → Eval β} {occurrences later : List Occurrence}
    (hm : m.Settles ctx w₀ occurrences) (hf : ∀ a, (f a).Settles ctx w₀ later) :
    (m >>= f).Settles ctx w₀ (occurrences ++ later) := by
  intro w agrees
  obtain ⟨a, steps, run, agrees', settled⟩ := hm w agrees
  obtain ⟨b, steps', run', agrees'', settled'⟩ := hf a _ agrees'
  refine ⟨b, steps ++ steps', ?_, ?_, ?_⟩
  · rw [Eval.bind_apply, run, World.perform_append]
    exact run'
  · rw [World.perform_append]
    exact agrees''
  · rw [List.filter_append, settled, settled', List.map_append]

/-- What comes after does not settle anything. -/
theorem andThen {α β : Type} {m : Eval α} {f : α → Eval β} {occurrences : List Occurrence}
    (hm : m.Settles ctx w₀ occurrences) (hf : ∀ a, (f a).Settles ctx w₀ []) :
    (m >>= f).Settles ctx w₀ occurrences := by
  rw [← List.append_nil occurrences]
  exact hm.seq hf

end Eval.Settles

/-- Telling events changes nothing but the log. -/
theorem World.AgreesWith.perform_tells {w₀ w : World} (agrees : w₀.AgreesWith w)
    {steps : List Step} (tells : ∀ s ∈ steps, ∃ event silent, s = .tell event silent) :
    w₀.AgreesWith (w.perform steps) ∧ steps.filter (·.cell?.isSome) = [] := by
  induction steps generalizing w with
  | nil => exact ⟨agrees, rfl⟩
  | cons s steps ih =>
    obtain ⟨⟨event, silent, rfl⟩, later⟩ := List.forall_mem_cons.1 tells
    exact ih agrees later

/-- Settling a variable changes no constraint. -/
theorem World.AgreesWith.settle {w : World} (agrees : w₀.AgreesWith w) (o : Occurrence) :
    w₀.AgreesWith (w.step (ctx.settle w₀ o)) := by
  refine agrees.trans ?_
  unfold Context.settle
  split
  · exact (w.unbound_step (.bind o.id o.value o.key)).symm
  · exact (w.unbound_step (.reset o.id)).symm

/-! ### Specs without variables -/

/-- Two budgets that cover a spec are as good as each other. -/
theorem create_eq_of_covers {spec : Term} (tree : SpecTree ctx.Quiet w₀.store.constraint spec)
    {budget : Nat} (covers : w₀.store.Covers budget spec) (value key : Term) (closed : Bool) :
    ∃ verdict w', (interp ctx budget).create spec value key closed w₀ = .ok verdict w' ∧
      create ctx spec value key closed w₀ = .ok verdict w' := by
  have core : SpecTree (fun t => t.CoreLeaf ∧ ctx.Answers t ∧ ctx.Resolves t)
      w₀.store.constraint spec := tree.mono fun _ quiet => ⟨quiet.1, quiet.answers, quiet.2.2⟩
  obtain ⟨verdict, w', run⟩ := create_succeeds_of_covers ctx w₀ core covers value key closed
  obtain ⟨verdict', w'', run'⟩ := create_succeeds ctx w₀ core value key closed
  refine ⟨verdict, w', run, ?_⟩
  rw [create_apply] at run' ⊢
  rcases Nat.le_total budget (w₀.store.budget spec [value, key]) with le | le
  · exact create_ok_of_budget_le ctx le run
  · exact (create_of_budget_le ctx le (by simp [run'])).symm.trans run

/-- A spec without variables answers the same in all worlds that agree, and settles nothing. -/
theorem variableFree_run {spec : Term} (tree : VariableFree ctx.Quiet spec) {budget : Nat}
    (covers : w₀.store.Covers budget spec) (value key : Term) (closed : Bool) {w : World}
    (agrees : w₀.AgreesWith w) : ∃ verdict steps,
      (interp ctx budget).create spec value key closed w = .ok verdict (w.perform steps) ∧
      w₀.AgreesWith (w.perform steps) ∧ steps.filter (·.cell?.isSome) = [] ∧
      (create ctx spec value key closed).answer? w₀ = some verdict := by
  have following := tree.of_variableFree (fun _ leaf => leaf.atomic) w₀.store.constraint
  obtain ⟨verdict, w', run, library⟩ := create_eq_of_covers following covers value key closed
  have oblivious : ((interp ctx budget).create spec value key closed).Oblivious
      w₀.store.constraint fun s => ∃ event silent, s = .tell event silent :=
    create_oblivious (fun event silent => ⟨event, silent, rfl⟩)
      (fun t leaf => ⟨leaf.repeatable, .inl leaf.2.1⟩) (fun _ self => absurd rfl self) tree _ _ _ _
  obtain ⟨answer, steps, tells, takes⟩ := oblivious w₀ fun _ => rfl
  obtain ⟨same, after⟩ := takes w agrees
  obtain ⟨agrees', settled⟩ := agrees.perform_tells tells
  refine ⟨verdict, steps, ?_, agrees', settled, (Eval.ok_iff.1 library).1⟩
  have answers := (takes w₀ (.refl w₀)).1.symm.trans (Eval.ok_iff.1 run).1
  exact Eval.ok_iff.2 ⟨same.trans answers, after⟩

/-! ### Variables -/

theorem bindCell_free {i : Interp} {id : Nat} (value key : Term) {w : World}
    (free : (w.store.cell id).free = true) :
    bindCell i id value key w = .ok (.right value) (w.step (.bind id value key)) := by
  rw [bindCell, Eval.bind_apply, Eval.store_apply]
  dsimp only
  rw [if_pos free]
  rfl

theorem bindCell_constrained {i : Interp} {id : Nat} {value key : Term} {w w' : World}
    (bound : (w.store.cell id).free = false) {verdict : Verdict}
    (run : i.create (w.store.cell id).constraint value key false w = .ok verdict w') :
    bindCell i id value key w = .ok (.when verdict.accepted value)
      (w'.step (if verdict.accepted then .bind id value key else .reset id)) := by
  rw [bindCell, Eval.bind_apply, Eval.store_apply]
  dsimp only
  rw [if_neg (Bool.eq_false_iff.1 bound), Interp.accepts, bind_assoc, Eval.bind_apply, run]
  cases accepted : verdict.accepted with
  | true => simp only [pure_bind, accepted]; rfl
  | false =>
    simp only [pure_bind, accepted]
    rw [if_neg Bool.false_ne_true, if_neg Bool.false_ne_true, Eval.bind_apply, World.step,
      Eval.after, resetCell_apply]
    rfl

/-- Whether a variable is bound is decided by its constraint in the world that all agree with. -/
theorem bindCell_settles {id budget : Nat} {value key : Term}
    (run : w₀.store.constraint id ≠ .null → ∀ w, w₀.AgreesWith w → ∃ verdict steps,
      (interp ctx budget).create (w₀.store.constraint id) value key false w =
        .ok verdict (w.perform steps) ∧
      w₀.AgreesWith (w.perform steps) ∧ steps.filter (·.cell?.isSome) = [] ∧
      (create ctx (w₀.store.constraint id) value key).answer? w₀ = some verdict) :
    (bindCell (interp ctx budget) id value key).Settles ctx w₀ [⟨id, value, key⟩] := by
  intro w agrees
  -- What the constraint does comes first, then the variable is settled.
  suffices ends : ∃ verdict steps, bindCell (interp ctx budget) id value key w =
      .ok verdict ((w.perform steps).step (ctx.settle w₀ ⟨id, value, key⟩)) ∧
      w₀.AgreesWith (w.perform steps) ∧ steps.filter (·.cell?.isSome) = [] by
    obtain ⟨verdict, steps, run, agrees', settled⟩ := ends
    refine ⟨verdict, steps ++ [ctx.settle w₀ ⟨id, value, key⟩], ?_, ?_, ?_⟩
    · rw [World.perform_append]
      exact run
    · rw [World.perform_append]
      exact agrees'.settle ⟨id, value, key⟩
    · have settles : (ctx.settle w₀ ⟨id, value, key⟩).cell?.isSome := by
        rw [Context.cell?_settle]
        rfl
      rw [List.filter_append, settled, List.filter_singleton, settles]
      rfl
  cases free : (w₀.store.cell id).free with
  | true =>
    refine ⟨.right value, [], ?_, agrees, rfl⟩
    have free' := (agrees.free id).symm.trans free
    rw [bindCell_free value key free', Context.settle, Context.admits, free]
    rfl
  | false =>
    obtain ⟨verdict, steps, run, agrees', settled, answer⟩ :=
      run (Cell.free_eq_false_iff.1 free) w agrees
    have accepts : (accepts ctx (w₀.store.constraint id) value key).answer? w₀ =
        some verdict.accepted := (Eval.run_bind_ok (Eval.ok_iff.2 ⟨answer, rfl⟩)).1
    have admits : ctx.admits w₀ ⟨id, value, key⟩ = verdict.accepted := by
      rw [Context.admits, free, accepts]
      cases verdict.accepted <;> rfl
    have bound := (agrees.free id).symm.trans free
    rw [Store.constraint, agrees.constraint id] at run
    refine ⟨.when verdict.accepted value, steps, ?_, agrees', settled⟩
    rw [bindCell_constrained bound run, Context.settle, admits]

/-! ### Patterns -/

theorem checkEntries_settles {i : Interp} {value : Term} {entries : Entries}
    (each : ∀ e ∈ entries, ∀ child key, child.Present →
      (i.create e.2 child key false).Settles ctx w₀ (e.2.reached child key))
    (present : value.Present) :
    (checkEntries i value entries).Settles ctx w₀ (Term.reachedBelow entries value) := by
  induction entries with
  | nil => exact .answer _
  | cons e rest ih =>
    have first := each e List.mem_cons_self
    have later := ih fun d mem => each d (List.mem_cons_of_mem e mem)
    have below : Term.reachedBelow (e :: rest) value =
        Term.reachedUnder e.2.reached value e.1 ++ Term.reachedBelow rest value := rfl
    rw [below, Term.reachedUnder]
    unfold checkEntries
    cases found : value.lookup? e.1 with
    | none =>
      have absent : value.lookup e.1 = .missing := by
        rw [Term.lookup, found]
        rfl
      rw [absent]
      exact ((first .null .null Term.present_null).andThen fun _ => .answer _).seq
        fun _ => later.andThen fun _ => .answer _
    | some child =>
      have there : value.lookup e.1 = child := by
        rw [Term.lookup, found]
        rfl
      have child_present := present.child found
      rw [there]
      dsimp only
      split
      · exact (child_present.here rfl).elim
      · exact (first child e.1 child_present).seq fun _ => later.andThen fun _ => .answer _

/-- A match of a pattern settles what it reaches, one after the other. -/
theorem Pattern.settles {spec : Term} (pattern : Pattern ctx.Quiet w₀.store.constraint spec)
    {budget : Nat} (covers : w₀.store.Covers budget spec) {value : Term}
    (present : value.Present) (key : Term) (closed : Bool) :
    ((interp ctx budget).create spec value key closed).Settles ctx w₀ (spec.reached value key) := by
  induction pattern generalizing budget value key closed with
  | @leaf spec h =>
    rw [h.atomic.reached]
    intro w agrees
    obtain ⟨verdict, steps, run, agrees', settled, -⟩ :=
      variableFree_run (.leaf h) covers value key closed agrees
    exact ⟨verdict, steps, run, agrees', settled⟩
  | @var id inner =>
    by_cases null : w₀.store.constraint id = .null
    · obtain ⟨below, rfl⟩ := covers.pos (w₀.store.depth?_free null)
      rw [create_var]
      exact bindCell_settles fun bound => absurd null bound
    · obtain ⟨below, rfl, inside⟩ := covers.constraint null
      rw [create_var]
      exact bindCell_settles fun _ w agrees =>
        variableFree_run (inner null) inside value key false agrees
  | container shape declarative _ _ ih =>
    obtain ⟨below, rfl, inside⟩ := covers.entries shape
    rw [Term.reached_container shape]
    cases container : value.isContainer with
    | true =>
      rw [create_container ctx below value key closed shape declarative container]
      refine (checkEntries_settles ?_ present).andThen fun _ => .answer _
      intro e mem child key present
      exact ih e mem (inside e mem) present key false
    | false =>
      rw [create_container_scalar ctx below value key closed shape declarative container,
        matchLiteral_container_scalar shape container]
      exact .answer _

end

/-- The last occurrence of a variable that a match reaches decides about it, whatever came before
and whatever the verdict on the whole is. -/
theorem create_settles_last (ctx : Context) (w : World) {spec : Term}
    (pattern : Pattern ctx.Quiet w.store.constraint spec) {value : Term}
    (present : value.Everywhere (· ≠ .missing)) (key : Term) (closed : Bool) :
    ∃ verdict w', create ctx spec value key closed w = .ok verdict w' ∧
      ∀ id < w.store.cells.size, (w'.store.cell id).value =
        match ((spec.reached value key).filter (·.id == id)).getLast? with
        | none => (w.store.cell id).value
        | some last => if ctx.admits w last then some last.value else none := by
  have atomic (t : Term) (leaf : ctx.Quiet t) : t.Atomic := leaf.atomic
  obtain ⟨depth, deep⟩ := (pattern.tree atomic).exists_depth atomic
  have covers := Store.covers_budget deep [value, key]
  obtain ⟨verdict, steps, run, -, settled⟩ :=
    pattern.settles covers present key closed w (.refl w)
  refine ⟨verdict, w.perform steps, run, fun id inside => ?_⟩
  have same : steps.filter (·.cell? == some id) =
      ((spec.reached value key).filter (·.id == id)).map (ctx.settle w) := by
    calc steps.filter (·.cell? == some id)
        = (steps.filter (·.cell?.isSome)).filter (·.cell? == some id) := by
          rw [List.filter_filter]
          refine List.filter_congr fun s _ => ?_
          cases s.cell? <;> simp
      _ = ((spec.reached value key).map (ctx.settle w)).filter (·.cell? == some id) := by
          rw [settled]
      _ = ((spec.reached value key).filter (·.id == id)).map (ctx.settle w) := by
          rw [List.filter_map]
          refine congrArg (List.map _) (List.filter_congr fun o _ => ?_)
          simp [Context.cell?_settle]
  rw [World.value_perform inside, same, List.getLast?_map]
  cases last : ((spec.reached value key).filter (·.id == id)).getLast? with
  | none => rfl
  | some o =>
    have mem := List.mem_of_getLast? last
    have reached := (List.mem_filter.1 mem).1
    exact Context.held?_settle (pattern.reached_present atomic present key o reached)

/-- One variable is bound and reset again, one is bound to `null` for want of a key, and one is not
reached. -/
theorem record_settles_last :
    let w : World := { store := { cells :=
      #[⟨"x", .builtin .isInt, none⟩, ⟨"y", .null, none⟩, ⟨"z", .null, some (.int 3)⟩] } }
    let spec : Term := .list [.var 0,
      .map .plain [(.str "a", .var 1), (.str "b", .list [.var 2])], .var 0]
    let value : Term := .list [.int 1, .map .plain [], .str "s"]
    Pattern Context.bare.Quiet w.store.constraint spec ∧ value.Everywhere (· ≠ .missing) ∧
      spec.reached value .null =
        [⟨0, .int 1, .int 0⟩, ⟨1, .null, .null⟩, ⟨0, .str "s", .int 2⟩] ∧
      ∃ verdict w', create Context.bare spec value .null false w = .ok verdict w' ∧
        (w'.store.cell 0).value = none ∧ (w'.store.cell 1).value = some .null ∧
        (w'.store.cell 2).value = some (.int 3) := by
  intro w spec value
  have isInt : Context.bare.Quiet (.builtin .isInt) := ⟨by simp [Term.CoreLeaf], trivial, trivial⟩
  have null (id : Nat) (free : w.store.constraint id = .null) :
      Pattern Context.bare.Quiet w.store.constraint (.var id) := .var fun bound => absurd free bound
  have x : Pattern Context.bare.Quiet w.store.constraint (.var 0) := .var fun _ => .leaf isInt
  have fields : Pattern Context.bare.Quiet w.store.constraint
      (.map .plain [(.str "a", .var 1), (.str "b", .list [.var 2])]) := by
    refine .container rfl trivial ⟨?_, ?_⟩ ?_
    · simp [Term.entries, Term.hashable]
    · simp [Term.entries, Term.sameKey, Term.same]
    · simp only [Term.entries, List.forall_mem_cons]
      refine ⟨null 1 rfl, .container rfl trivial (.array rfl) ?_, List.forall_mem_nil _⟩
      simp only [Term.entries, Term.positions, List.forall_mem_cons]
      exact ⟨null 2 rfl, List.forall_mem_nil _⟩
  have pattern : Pattern Context.bare.Quiet w.store.constraint spec := by
    refine .container rfl trivial (.array rfl) ?_
    simp only [spec, Term.entries, Term.positions, List.forall_mem_cons]
    exact ⟨x, fields, x, List.forall_mem_nil _⟩
  have scalar {t : Term} (there : t ≠ .missing) (entries : t.entries = []) : t.Present :=
    .intro there (by simp [entries])
  have present : value.Everywhere (· ≠ .missing) := by
    refine .intro (by simp [value]) ?_
    simp only [value, Term.entries, Term.positions, List.forall_mem_cons]
    exact ⟨scalar (by simp) rfl, scalar (by simp) rfl, scalar (by simp) rfl, List.forall_mem_nil _⟩
  obtain ⟨verdict, w', run, each⟩ :=
    create_settles_last Context.bare w pattern present .null false
  have reached : spec.reached value .null =
      [⟨0, .int 1, .int 0⟩, ⟨1, .null, .null⟩, ⟨0, .str "s", .int 2⟩] := rfl
  rw [reached] at each
  have rejects : Context.bare.admits w ⟨0, .str "s", .int 2⟩ = false := by decide +kernel
  have x_ends := (each 0 (by decide)).trans (if_neg (Bool.eq_false_iff.1 rejects))
  exact ⟨pattern, present, reached, verdict, w', run, x_ends, each 1 (by decide),
    each 2 (by decide)⟩

end SpecMatch
