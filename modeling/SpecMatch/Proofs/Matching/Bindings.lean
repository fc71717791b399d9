import SpecMatch.Proofs.Evaluation.Steps
import SpecMatch.Proofs.Matching.Leaves
import SpecMatch.Proofs.Matching.Trees

/-!
# Old bindings never influence a match

A match of a spec tree is oblivious (`create_oblivious`): from worlds that differ in nothing but the
values of variables it takes the same steps to the same answer. Objects of the host may take part if
what they answer depends on nothing but what they are asked (`Context.Repeatable`).

`create_ignores_bindings` says so of the library, with the variables that a match evaluates
(`Evaluates`) ending the same way and the others as they were.
-/

namespace SpecMatch

/-! ## Leaves -/

/-- A leaf that asks no object of the host and no recorder. -/
def Term.Inert : Term → Prop
  | .recorder .. => False
  | .object handle => handle.accepts = false ∧ handle.arity = none
  | _ => True

/-- What an object answers to a request does not depend on the calls before. -/
def Context.Settled (ctx : Context) (handle : Handle) (request : Request) : Prop :=
  ∃ response : Response, response.Plain ∧ ∀ calls, ctx.host.respond handle request calls = response

/-- Leaves whose outcome depends on nothing but their arguments: core leaves, recorders, and objects
that decide acceptance or are called as predicates and always answer alike. -/
def Context.Repeatable (ctx : Context) : Term → Prop
  | .recorder .. => True
  | .object handle => handle.binds = false ∧
    ((Term.object handle).Inert ∨ ∀ request, ctx.Settled handle request)
  | t => t.CoreLeaf

namespace Context.Repeatable

variable {ctx : Context} {t : Term}

theorem atomic (leaf : ctx.Repeatable t) : t.Atomic := by
  cases t <;> trivial

/-- A leaf that is neither a recorder nor an object is a core leaf. -/
theorem core (leaf : ctx.Repeatable t) (recorder : ∀ name result, t ≠ .recorder name result)
    (object : ∀ handle, t ≠ .object handle) : t.CoreLeaf := by
  cases t with
  | recorder name result => exact absurd rfl (recorder name result)
  | object handle => exact absurd rfl (object handle)
  | _ => exact leaf

end Context.Repeatable

/-- What a leaf asks of the world when it is matched against a value. A relation between evaluations
holds of each of these with itself. -/
structure Context.LeafSteps (ctx : Context) (R : ∀ α : Type, Eval α → Eval α → Prop) (i : Interp)
    (t value : Term) : Prop where
  instances : ∀ c, R Bool (isInstance c value) (isInstance c value)
  literal : t ∈ t.operands → R Verdict (matchLiteral t value) (matchLiteral t value)
  resolve : ∀ name, t = .str name →
    R Class (ctx.registry.resolve ctx.modules name) (ctx.registry.resolve ctx.modules name)
  comparison : ∀ symbol operand, t = .comparison symbol operand →
    R Bool (comparisonHolds symbol operand value) (comparisonHolds symbol operand value)
  oneOf : ∀ options exact, t = .oneOf options exact →
    R Bool (isOneOf options exact value) (isOneOf options exact value)
  note : ¬ t.Inert → ∀ request, R Unit (Eval.note t request) (Eval.note t request)
  request : ∀ handle, t = .object handle → ¬ t.Inert → ∀ request,
    R Term (ctx.request i handle request) (ctx.request i handle request)

/-- A relation that passes through sequencing and holds of what a leaf asks of the world holds of
its matches. -/
theorem leaf_related {R : ∀ α : Type, Eval α → Eval α → Prop} (hR : Eval.Compositional R)
    {ctx : Context} {t : Term} (leaf : ctx.Repeatable t) {budget : Nat} {value : Term}
    (steps : ctx.LeafSteps R (interp ctx budget) t value) (key : Term) (closed : Bool) :
    R Verdict ((interp ctx (budget + 1)).create t value key closed)
      ((interp ctx (budget + 1)).create t value key closed) := by
  cases t with
  | cls c =>
    rw [create_cls]
    exact hR.seq (steps.instances c) fun _ => hR.answer _
  | str s =>
    rw [create_name]
    split
    · exact hR.seq (steps.resolve s rfl) fun c =>
        hR.seq (steps.instances c) fun _ => hR.answer _
    · exact steps.literal (List.mem_singleton_self _)
  | builtin f =>
    by_cases identity : f = .identity
    · subst identity
      rw [create_identity]
      exact hR.answer _
    · rw [create_test ctx budget value key closed f identity leaf]
      exact hR.answer _
  | comparison symbol operand =>
    rw [create_comparison]
    exact hR.seq (steps.comparison symbol operand rfl) fun _ => hR.answer _
  | oneOf options exact =>
    rw [create_oneOf]
    exact hR.seq (steps.oneOf options exact rfl) fun _ => hR.answer _
  | recorder name result =>
    have noted := steps.note id (.call [value, key])
    exact hR.seq (hR.seq noted fun _ => hR.answer _) fun _ => hR.answer _
  | object handle =>
    obtain ⟨binds, -⟩ := leaf
    by_cases inert : (Term.object handle).Inert
    · rw [create_literal ctx budget value key closed (Term.reading_object binds inert.1 inert.2)]
      exact steps.literal (by simp [Term.operands, inert.1, inert.2])
    · have request := steps.request handle rfl inert
      cases accepts : handle.accepts with
      | true =>
        rw [create_acceptor ctx budget value key closed binds accepts]
        exact hR.seq (request _) fun _ => hR.answer _
      | false =>
        have callable : handle.arity.isSome := by
          rw [Option.isSome_iff_ne_none]
          exact fun none => inert ⟨accepts, none⟩
        have reading : (Term.object handle).reading value = .function := by
          simp [Term.reading, binds, accepts, callable]
        rw [create_succ, createAt, reading]
        refine hR.seq ?_ fun _ => hR.answer _
        -- Calling an object with a number of arguments that it does not take is a fault.
        unfold callAt
        split
        · exact hR.fail _
        · split
          · exact request _
          · exact hR.fail _
  | null | bool _ | int _ | float _ | bytes _ | missing | circle _ | square _ | left _ | right _
  | action _ | «foreign» _ _ =>
    rw [create_literal ctx budget value key closed rfl]
    exact steps.literal (List.mem_singleton_self _)
  | _ => exact leaf.elim

section

variable {constraint : Nat → Term} {may : Step → Prop}

variable (tell : ∀ event silent, may (.tell event silent))
include tell

theorem isInstance_oblivious (c : Class) (x : Term) :
    (isInstance c x).Oblivious constraint may :=
  isInstance_related (Eval.oblivious_compositional constraint may) (.emit (tell _ rfl))

theorem ask_oblivious (question : Question) (needed : Bool) :
    (Eval.ask question needed).Oblivious constraint may :=
  ask_related (Eval.oblivious_compositional constraint may) (.emit (tell _ rfl)) needed

theorem matchLiteral_oblivious (spec value : Term) :
    (matchLiteral spec value).Oblivious constraint may :=
  .read (fun _ _ agrees => by rw [agrees.alike]) fun _ _ =>
    .seq (ask_oblivious tell _ _) fun _ => .answer _

theorem comparisonHolds_oblivious (symbol : String) (operand value : Term) :
    (comparisonHolds symbol operand value).Oblivious constraint may := by
  refine .read (fun _ _ agrees => by rw [agrees.alike]) fun w _ => ?_
  dsimp only
  split
  · exact .seq (ask_oblivious tell _ _) fun _ => .answer _
  · split
    · exact .seq (ask_oblivious tell _ _) fun _ => .answer _
    · exact .fail _

theorem isOneOf_oblivious (options : List Term) (exact : Bool) (value : Term) :
    (isOneOf options exact value).Oblivious constraint may :=
  .read (fun _ _ agrees => by rw [agrees.alike]) fun _ _ =>
    findOption_related (Eval.oblivious_compositional constraint may)
      (fun _ _ => .emit (tell _ rfl)) _ exact

omit tell

/-- The wording of this fault may show values of variables, but there is no answer. -/
theorem classNamed_oblivious (name : String) (target : Term) :
    (Registry.classNamed name target).Oblivious constraint may := by
  unfold Registry.classNamed
  split
  · exact .answer _
  · exact fun _ _ => ⟨none, [], List.forall_mem_nil _, fun _ _ => ⟨rfl, rfl⟩⟩

variable {ctx : Context}

theorem request_oblivious {i : Interp} {handle : Handle} {request : Request}
    (settled : ctx.Settled handle request) (note : may (.note (.object handle) request)) :
    (ctx.request i handle request).Oblivious constraint may := by
  obtain ⟨response, plain, responds⟩ := settled
  refine .read (fun _ _ agrees => by rw [agrees.calls]) fun w _ => ?_
  dsimp only
  rw [responds]
  refine .seq (.note note) fun _ => ?_
  cases response with
  | answer result => exact .answer result
  | fail fault => exact .fail fault
  | ask => exact plain.elim

/-- Leaves are oblivious if what they ask is asked without regard to what was called before. -/
theorem leaf_oblivious (tell : ∀ event silent, may (.tell event silent)) {t : Term}
    (leaf : ctx.Repeatable t) (note : t.Inert ∨ ∀ request, may (.note t request)) (budget : Nat) :
    (interp ctx (budget + 1)).RelatedOn (fun _ m _ => m.Oblivious constraint may)
      (interp ctx (budget + 1)) t := by
  intro value key closed
  have compositional := Eval.oblivious_compositional constraint may
  refine leaf_related compositional leaf ?_ key closed
  constructor
  · exact fun c => isInstance_oblivious tell c value
  · exact fun _ => matchLiteral_oblivious tell _ _
  · exact fun name _ => resolve_related_of_named compositional (fun event silent _ =>
      .emit (tell event silent)) classNamed_oblivious ctx.registry ctx.modules name
  · exact fun symbol operand _ => comparisonHolds_oblivious tell symbol operand value
  · exact fun options exact _ => isOneOf_oblivious tell options exact value
  · exact fun asks request => .note (note.resolve_left asks request)
  · rintro handle rfl asks request
    have settled := leaf.2.resolve_left asks
    exact request_oblivious (settled request) (note.resolve_left asks request)

/-! ## Variables -/

theorem bindCell_oblivious {id budget : Nat} (bind : ∀ value key, may (.bind id value key))
    (reset : may (.reset id))
    {value key : Term} (on : constraint id ≠ .null →
      ((interp ctx budget).create (constraint id) value key false).Oblivious constraint may) :
    (bindCell (interp ctx budget) id value key).Oblivious constraint may := by
  refine .read (fun w w' agrees => ?_) fun w constrains => ?_
  · dsimp only
    rw [agrees.constraint id, agrees.free id]
  · have settle := settle_related (Eval.oblivious_compositional constraint may) key key
      (.bind (bind value key)) (.reset reset)
    dsimp only
    by_cases free : (w.store.cell id).free
    · rw [if_pos free]
      exact .seq (.answer true) settle
    · rw [if_neg free, constrains id]
      have bound : constraint id ≠ .null := by
        rw [← constrains id]
        exact fun null => free (Cell.free_iff.2 null)
      exact .seq (.seq (on bound) fun _ => .answer _) settle

/-! ## Specs -/

/-- Every match of a spec tree is oblivious. The variables of the tree are those that the match may
settle, and the leaves those that it may ask. -/
theorem create_oblivious (tell : ∀ event silent, may (.tell event silent)) {leaf : Term → Prop}
    (leaves : ∀ t, leaf t → ctx.Repeatable t ∧ (t.Inert ∨ ∀ request, may (.note t request)))
    {within : Nat → Term} (cells : ∀ id, within id ≠ .var id → within id = constraint id ∧
      (∀ value key, may (.bind id value key)) ∧ may (.reset id))
    {spec : Term} (tree : SpecTree leaf within spec) (budget : Nat) (value key : Term)
    (closed : Bool) :
    ((interp ctx budget).create spec value key closed).Oblivious constraint may := by
  refine SpecTree.related (Eval.oblivious_compositional constraint may) ctx ctx
    (fun t h => (leaves t h).1.atomic) ?_ ?_ tree budget value key closed .start
  · intro t h budget x k closed _
    obtain ⟨repeatable, note⟩ := leaves t h
    exact leaf_oblivious tell repeatable note budget x k closed
  · intro id other budget x k on
    obtain ⟨same, bind, reset⟩ := cells id other
    rw [same] at on
    exact bindCell_oblivious bind reset on

end

/-! ## Predicates that answer -/

/-- An object that is asked takes what it is given and always answers. -/
def Context.Replies (ctx : Context) : Term → Prop
  | .object handle => (Term.object handle).Inert ∨
    (handle.accepts = true ∨ handle.arity.all (·.admits 2)) ∧
      ∀ request calls, ∃ answer, ctx.host.respond handle request calls = .answer answer
  | _ => True

/-- Leaves answer if their names resolve and their objects do. -/
theorem repeatable_answers {ctx : Context} {I : World → Prop} {excuse : Fault → Prop}
    (emit : ∀ event : Event, event.cell? = none → (Eval.emit event).Keeps I)
    (note : ∀ receiver request, (Eval.note receiver request).Keeps I) {t : Term}
    (leaf : ctx.Repeatable t) (replies : ctx.Replies t) (resolves : ctx.Resolves t)
    (budget : Nat) : (interp ctx (budget + 1)).Meets I excuse (fun _ _ _ _ _ => True) t := by
  cases t with
  | recorder name result =>
    intro value key closed
    have noted : (Eval.note (.recorder name result) (.call [value, key])).Yields I excuse
        fun _ => True := fun w hw => ⟨note _ _ w hw, trivial⟩
    have called : (callAt ctx (interp ctx budget) (.recorder name result) [value, key]).Yields I
        excuse fun _ => True := noted.bind fun _ _ => .pure trivial
    exact called.bind fun _ _ => .pure trivial
  | object handle =>
    obtain ⟨binds, -⟩ := leaf
    rcases replies with inert | ⟨takes, answers⟩
    · have core : (Term.object handle).CoreLeaf := ⟨binds, .inr inert.2⟩
      refine leaf_answers emit note core (fun accepts => ?_) resolves budget
      rw [inert.1] at accepts
      cases accepts
    · cases accepts : handle.accepts with
      | true =>
        have core : (Term.object handle).CoreLeaf := ⟨binds, .inl accepts⟩
        exact leaf_answers emit note core (fun _ _ => answers _) resolves budget
      | false =>
        cases arity : handle.arity with
        | none =>
          have core : (Term.object handle).CoreLeaf := ⟨binds, .inr arity⟩
          exact leaf_answers emit note core (fun _ _ => answers _) resolves budget
        | some a =>
          have admits : a.admits 2 := by simpa [accepts, arity] using takes
          intro value key closed
          rw [create_predicate ctx budget value key closed binds accepts arity admits]
          have called : (ctx.request (interp ctx budget) handle (.call [value, key])).Yields I
              excuse fun _ => True := by
            refine request_yields_of_answer (note _ _) fun calls => ?_
            obtain ⟨answer, responds⟩ := answers (.call [value, key]) calls
            exact ⟨answer, responds, trivial⟩
          exact called.bind fun _ _ => .pure trivial
  | _ =>
    refine leaf_answers emit note (leaf.core ?_ ?_) trivial resolves budget
    · exact fun _ _ same => by cases same
    · exact fun _ same => by cases same

/-- A match whose names resolve and whose objects answer does not fail. -/
theorem create_replies {ctx : Context} {w : World} {spec : Term}
    (core : SpecTree (fun t => ctx.Repeatable t ∧ ctx.Replies t ∧ ctx.Resolves t)
      w.store.constraint spec) (value key : Term) (closed : Bool) :
    ∃ verdict w', create ctx spec value key closed w = .ok verdict w' := by
  have invariant := World.constrains_invariant w.store.constraint
  have yields := create_yields_budget ctx (fun _ => False) (matchRules_true _)
    (World.constrains_upholds _) (fun t leaf => leaf.1.atomic)
    (fun t leaf => repeatable_answers invariant.emit invariant.note leaf.1 leaf.2.1 leaf.2.2)
    core value key closed
  exact yields.succeeds fun _ => rfl

/-! ## Noninterference -/

/-- A match evaluates a variable if it binds or resets it in one of the steps that it takes,
whatever the variables are bound to. -/
def Evaluates (ctx : Context) (spec value key : Term) (closed : Bool) (s : Store) (id : Nat) :
    Prop :=
  ∃ answer, ∃ steps : List Step,
    (create ctx spec value key closed).Takes { store := s } answer steps ∧
      ∃ step ∈ steps, step.cell? = some id

section

variable {ctx : Context} {spec : Term} {w w' : World} {value key : Term} {closed : Bool}

/-- The library answers alike by the same steps from all worlds that agree. -/
theorem create_takes (core : SpecTree ctx.Repeatable w.store.constraint spec)
    (value key : Term) (closed : Bool) :
    ∃ answer steps, (create ctx spec value key closed).Takes w answer steps := by
  have oblivious : ((interp ctx (w.store.budget spec [value, key])).create spec value key
      closed).Oblivious w.store.constraint fun _ => True :=
    create_oblivious (fun _ _ => trivial) (fun _ leaf => ⟨leaf, .inr fun _ => trivial⟩)
      (fun _ _ => ⟨rfl, fun _ _ => trivial, trivial⟩) core _ _ _ _
  obtain ⟨answer, steps, -, takes⟩ := oblivious w fun _ => rfl
  refine ⟨answer, steps, fun w' agrees => ?_⟩
  rw [Eval.answer?, Eval.after, create_apply, ← agrees.budget]
  exact takes w' agrees

theorem World.agreesWith_primed (w : World) : w.AgreesWith { store := w.store.primed } :=
  w.store.unbound_primed.symm

/-- A variable that is bound beforehand is told about when it is evaluated: it is bound again or it
is reset. -/
theorem Eval.Takes.tells_iff {α : Type} {m : Eval α} {answer : Option α} {steps : List Step}
    (takes : m.Takes w answer steps) {id : Nat} (inside : id < w.store.cells.size) :
    (m.after { store := w.store.primed }).Tells id ↔ ∃ step ∈ steps, step.cell? = some id := by
  let primed : World := { store := w.store.primed }
  have agrees : w.AgreesWith primed := w.agreesWith_primed
  have inside' : id < primed.store.cells.size := agrees.size ▸ inside
  have bound : (primed.store.cell id).value.isSome := by
    rw [Store.cell_primed inside]
    rfl
  have silent : ¬ primed.Tells id := by simp [primed, World.Tells]
  rw [(takes primed agrees).2, World.tells_perform_iff inside' (.inl bound), or_iff_right silent]

/-- The variables that a match evaluates are those that its log tells about if all variables are
bound before. -/
theorem evaluates_iff_tells (core : SpecTree ctx.Repeatable w.store.constraint spec) {id : Nat}
    (inside : id < w.store.cells.size) :
    Evaluates ctx spec value key closed w.store id ↔
      ((create ctx spec value key closed).after { store := w.store.primed }).Tells id := by
  constructor
  · rintro ⟨answer, steps, takes, settles⟩
    exact (takes.tells_iff inside).2 settles
  · intro tells
    obtain ⟨answer, steps, takes⟩ := create_takes core value key closed
    exact ⟨answer, steps, takes, (takes.tells_iff inside).1 tells⟩

/-- All steps that a match can be said to take settle the variables that it evaluates. -/
theorem Eval.Takes.evaluates_iff {answer : Option Verdict} {steps : List Step}
    (takes : (create ctx spec value key closed).Takes w answer steps) {id : Nat}
    (inside : id < w.store.cells.size) :
    Evaluates ctx spec value key closed w.store id ↔ ∃ step ∈ steps, step.cell? = some id := by
  refine ⟨?_, fun settles => ⟨answer, steps, takes, settles⟩⟩
  rintro ⟨answer', steps', takes', settles⟩
  exact (takes.tells_iff inside).1 ((takes'.tells_iff inside).2 settles)

end

end SpecMatch
