import SpecMatch.Proofs.Matching.Rules

/-!
# Leaves

The leaves of a core spec are classes, texts, the tests of the library, comparisons, memberships,
objects that decide acceptance themselves, and literals (`Term.CoreLeaf`). `LeafVerdict` gives the
verdict on each kind without the world: what an evaluation reads of it, how memories compare and
what objects of the host answer, is a parameter.
-/

namespace SpecMatch

/-- The leaves of a core spec. Functions of the host, handlers and variables are none. -/
def Term.CoreLeaf : Term → Prop
  | .null | .bool _ | .int _ | .float _ | .str _ | .bytes _ | .missing | .circle _ | .square _
  | .left _ | .right _ | .action _ | .foreign .. | .cls _ | .oneOf .. => True
  | .builtin f => f ≠ .descend
  | .comparison symbol _ => symbol = "==" ∨ (Relation.ofSymbol? symbol).isSome
  | .object handle => handle.binds = false ∧ (handle.accepts = true ∨ handle.arity = none)
  | _ => False

/-- What a leaf compares with a value. -/
def Term.operands : Term → List Term
  | .comparison _ operand => [operand]
  | .oneOf options _ => options
  | .cls _ | .builtin _ | .recorder .. => []
  | .object handle => if handle.accepts || handle.arity.isSome then [] else [.object handle]
  | t => [t]

theorem Term.CoreLeaf.atomic {spec : Term} (core : spec.CoreLeaf) : spec.Atomic := by
  cases spec <;> trivial

/-- The specs of containers, connectives, quantifiers, key specs and variables over core leaves. -/
abbrev CoreSpec (constraint : Nat → Term) : Term → Prop := SpecTree Term.CoreLeaf constraint

/-! ## Names of types -/

/-- The attribute that an import path leads to. -/
def Modules.attribute? (modules : Modules) (path : String) : Option Term :=
  match ImportPath.parse? path with
  | none => none
  | some ⟨module, member⟩ =>
    if module.startsWith "." then none
    else match modules.find module with
      | .error _ => none
      | .ok found => found.attributes.get? member

/-- The class that a term is. -/
def Term.class? : Term → Option Class
  | .cls c => some c
  | _ => none

/-- The class that a type name stands for. -/
def Registry.classOf? (r : Registry) (modules : Modules) (name : String) : Option Class :=
  match r.targets.get? (.str name) with
  | some (.str path) => (modules.attribute? path).bind Term.class?
  | some target => target.class?
  | none => none

section

variable {I : World → Prop} {excuse : Fault → Prop}

theorem classNamed_yields (name : String) (target : Term)
    (excused : target.class?.isSome ∨ ∀ fault, excuse fault) :
    (Registry.classNamed name target).Yields I excuse fun c => target.class? = some c := by
  unfold Registry.classNamed
  split
  · exact .pure rfl
  · next notClass =>
    have none : target.class?.isSome = false := by
      unfold Term.class?
      split
      · exact absurd rfl (notClass _)
      · rfl
    exact Eval.Yields.store.bind fun s _ => .throw (excused.resolve_left (by simp [none]) _)

/-- The faults of resolving a name: that there is no class for it, and that its path starts with a
dot. -/
def Fault.OfName (name : String) (fault : Fault) : Prop :=
  (∃ reason, fault = .unresolvedType name reason) ∨ fault = .misuse .relativeModule

theorem classNamed_faults (name : String) (target : Term) :
    (Registry.classNamed name target).Yields I (Fault.OfName name) fun _ => True := by
  unfold Registry.classNamed
  split
  · exact .pure trivial
  · exact Eval.Yields.store.bind fun s _ => .throw (.inl ⟨_, rfl⟩)

theorem Eval.Yields.emit {event : Event} (keeps : (Eval.emit event).Keeps I) :
    (Eval.emit event).Yields I excuse fun _ => True :=
  fun w hw => ⟨keeps w hw, trivial⟩

variable (emit : ∀ event : Event, event.cell? = none → (Eval.emit event).Keeps I)
include emit

theorem Eval.Yields.ask (question : Question) (needed : Bool) :
    (Eval.ask question needed).Yields I excuse fun _ => True := by
  unfold Eval.ask
  split
  · exact .emit (emit _ rfl)
  · exact .pure trivial

theorem isInstance_yields (c : Class) (x : Term) :
    (isInstance c x).Yields I excuse fun holds => c.admits x = holds :=
  (Eval.Yields.ask emit _ _).bind fun _ _ => .pure rfl

/-- Importing finds what the path leads to, or fails if it leads nowhere. -/
theorem importPath_yields (modules : Modules) (name path : String)
    (excused : (modules.attribute? path).isSome ∨ ∀ fault, excuse fault) :
    (Registry.importPath modules name path).Yields I excuse fun target =>
      modules.attribute? path = some target := by
  unfold Modules.attribute? at excused ⊢
  unfold Registry.importPath
  cases parsed : ImportPath.parse? path with
  | none =>
    rw [parsed] at excused
    exact .throw (excused.resolve_left nofun _)
  | some parts =>
    rw [parsed] at excused
    dsimp only at excused ⊢
    by_cases dot : parts.module.startsWith "."
    · rw [if_pos dot] at excused ⊢
      exact .throw (excused.resolve_left nofun _)
    · rw [if_neg dot] at excused ⊢
      rw [if_neg dot]
      cases found : modules.find parts.module with
      | error failure =>
        rw [found] at excused
        exact (Eval.Yields.emit (emit _ rfl)).bind fun _ _ =>
          .throw (excused.resolve_left nofun _)
      | ok home =>
        rw [found] at excused
        dsimp only at excused ⊢
        cases member : home.attributes.get? parts.name with
        | none =>
          rw [member] at excused
          exact (Eval.Yields.emit (emit _ rfl)).bind fun _ _ =>
            .throw (excused.resolve_left nofun _)
        | some target => exact (Eval.Yields.emit (emit _ rfl)).bind fun _ _ => .pure rfl

theorem importPath_faults (modules : Modules) (name path : String) :
    (Registry.importPath modules name path).Yields I (Fault.OfName name) fun _ => True := by
  unfold Registry.importPath
  have told (event : Event) (silent : event.cell? = none) :
      (Eval.emit event).Yields I (Fault.OfName name) fun _ => True := .emit (emit event silent)
  split
  · exact .throw (.inl ⟨_, rfl⟩)
  · split
    · exact .throw (.inr rfl)
    · split
      · exact (told _ rfl).bind fun _ _ => .throw (.inl ⟨_, rfl⟩)
      · split
        · exact (told _ rfl).bind fun _ _ => .throw (.inl ⟨_, rfl⟩)
        · exact (told _ rfl).bind fun _ _ => .pure trivial

/-- Resolving a name fails with nothing else. -/
theorem resolve_faults (r : Registry) (modules : Modules) (name : String) :
    (r.resolve modules name).Yields I (Fault.OfName name) fun _ => True := by
  unfold Registry.resolve
  split
  · exact .throw (.inl ⟨_, rfl⟩)
  · exact .throw (.inl ⟨_, rfl⟩)
  · exact (importPath_faults emit modules name _).bind fun _ _ => classNamed_faults name _
  · exact classNamed_faults name _

/-- Resolving a name finds its class, or fails if it has none. -/
theorem resolve_yields (r : Registry) (modules : Modules) (name : String)
    (excused : (r.classOf? modules name).isSome ∨ ∀ fault, excuse fault) :
    (r.resolve modules name).Yields I excuse fun c => r.classOf? modules name = some c := by
  unfold Registry.classOf? at excused ⊢
  unfold Registry.resolve
  split
  · next absent =>
    rw [absent] at excused
    exact .throw (excused.resolve_left nofun _)
  · next null =>
    rw [null] at excused
    exact .throw (excused.resolve_left nofun _)
  · next path found =>
    rw [found] at excused ⊢
    dsimp only at excused ⊢
    have leads : (modules.attribute? path).isSome ∨ ∀ fault, excuse fault := by
      refine excused.imp (fun resolves => ?_) id
      cases h : modules.attribute? path with
      | none =>
        rw [h] at resolves
        cases resolves
      | some target => rfl
    have imported := importPath_yields emit modules name path leads
    refine imported.bind ?_
    intro target h
    rw [h] at excused ⊢
    exact classNamed_yields name target excused
  · next target notNull notPath found =>
    rw [found] at excused ⊢
    cases target with
    | null => exact absurd rfl notNull
    | str path => exact absurd rfl (notPath path)
    | _ => exact classNamed_yields name _ excused

end

/-! ## Objects of the host -/

section

variable {ctx : Context} {I : World → Prop} {excuse : Fault → Prop} {handle : Handle}
variable {request : Request}

/-- An object that answers plainly changes nothing but the calls. -/
theorem request_yields_of_answer {i : Interp} {post : Term → Prop}
    (note : (Eval.note (.object handle) request).Keeps I)
    (plain : ∀ calls, ∃ answer, ctx.host.respond handle request calls = .answer answer ∧
      post answer) : (ctx.request i handle request).Yields I excuse post := by
  refine Eval.Yields.store.bind ?_
  intro s _
  have noted : (Eval.note (.object handle) request).Yields I excuse fun _ => True :=
    fun w hw => ⟨note w hw, trivial⟩
  refine noted.bind ?_
  intro _ _
  obtain ⟨answer, responds, h⟩ := plain s.calls
  rw [responds]
  exact .pure h

/-- Whatever an object calls back for, an invariant of the world is kept. -/
theorem request_yields_of_invariant (hI : World.Invariant I) (budget : Nat) :
    (ctx.request (interp ctx budget) handle request).Yields I (fun _ => True) fun _ => True :=
  .of_answers (request_related hI.congruence (hI.interp ctx budget) ctx handle request)
    fun _ _ _ _ _ => trivial

end

/-! ## The verdicts on leaves -/

/-- Whether a comparison holds, given how memories compare. -/
def comparisonTruth (alike : String → String → Bool) (symbol : String) (operand value : Term) :
    Bool :=
  if symbol == "==" then Term.strictlyEqual alike value operand
  else (Relation.ofSymbol? symbol).any fun relation =>
    (Term.orders? alike relation value operand).getD false

/-- Whether a value is among the options, given how memories compare. -/
def membershipTruth (alike : String → String → Bool) (options : List Term) (exact : Bool)
    (value : Term) : Bool :=
  options.any (·.matchesOption alike exact value)

/-- The verdicts on the leaves of a core spec. The ways in which memories may compare are `known`,
and what an object of the host may say of a value is `said`. -/
inductive LeafVerdict (ctx : Context) (known : (String → String → Bool) → Prop)
    (said : Handle → Term → Bool → Prop) : MatchStatement
  | cls {c : Class} {value key : Term} {closed : Bool} :
      LeafVerdict ctx known said (.cls c) value key closed (.when (c.admits value) value)
  | name {s : String} {c : Class} {value key : Term} {closed : Bool} :
      ctx.registry.contains s = true → ctx.registry.classOf? ctx.modules s = some c →
        LeafVerdict ctx known said (.str s) value key closed (.when (c.admits value) value)
  | text {s : String} {alike : String → String → Bool} {value key : Term} {closed : Bool} :
      ctx.registry.contains s = false → known alike →
        LeafVerdict ctx known said (.str s) value key closed
          (.when (Term.strictlyEqual alike (.str s) value) value)
  | test {test : Builtin} {value key : Term} {closed : Bool} :
      test ≠ .identity → test ≠ .descend →
        LeafVerdict ctx known said (.builtin test) value key closed (.when (test.test value) value)
  | identity {value key : Term} {closed : Bool} :
      LeafVerdict ctx known said (.builtin .identity) value key closed (.ofOutcome value value)
  | comparison {symbol : String} {operand : Term} {alike : String → String → Bool}
      {value key : Term} {closed : Bool} : known alike →
        LeafVerdict ctx known said (.comparison symbol operand) value key closed
          (.when (comparisonTruth alike symbol operand value) value)
  | oneOf {options : List Term} {exact : Bool} {alike : String → String → Bool}
      {value key : Term} {closed : Bool} : known alike →
        LeafVerdict ctx known said (.oneOf options exact) value key closed
          (.when (membershipTruth alike options exact value) value)
  | acceptor {handle : Handle} {accepted : Bool} {value key : Term} {closed : Bool} :
      handle.accepts = true → said handle value accepted →
        LeafVerdict ctx known said (.object handle) value key closed (.when accepted value)
  | literal {spec : Term} {alike : String → String → Bool} {value key : Term} {closed : Bool} :
      spec.reading value = .literal → known alike →
        LeafVerdict ctx known said spec value key closed
          (.when (Term.strictlyEqual alike spec value) value)

/-- A context without type names, whose objects fail whatever they are asked. -/
def Context.bare : Context where
  registry := {}
  modules := []
  host := ⟨fun _ _ _ => .fail (.host "absent")⟩

/-- A spec resolves if the class of a registered name can be found. -/
def Context.Resolves (ctx : Context) : Term → Prop
  | .str s => ctx.registry.contains s = true → (ctx.registry.classOf? ctx.modules s).isSome
  | _ => True

section

variable {ctx : Context} {I : World → Prop} {excuse : Fault → Prop}
variable {known : (String → String → Bool) → Prop} {said : Handle → Term → Bool → Prop}

theorem findOption_yields
    (emit : ∀ event : Event, event.cell? = none → (Eval.emit event).Keeps I)
    (alike : String → String → Bool) (exact : Bool) (value : Term) (options : List Term) :
    (findOption alike exact value options).Yields I excuse fun found =>
      membershipTruth alike options exact value = found := by
  induction options with
  | nil => exact .pure rfl
  | cons option rest ih =>
    refine (Eval.Yields.ask emit _ _).bind fun _ _ => ?_
    rw [membershipTruth, List.any_cons]
    cases option.matchesOption alike exact value with
    | true => exact .pure rfl
    | false => exact ih

section

variable (alike : ∀ w, I w → known w.store.alike)
variable (emit : ∀ event : Event, event.cell? = none → (Eval.emit event).Keeps I)
include alike emit

theorem matchLiteral_yields {spec value key : Term} {closed : Bool}
    (literal : ∀ {alike}, known alike → LeafVerdict ctx known said spec value key
      closed (.when (Term.strictlyEqual alike spec value) value)) :
    (matchLiteral spec value).Yields I excuse
      (LeafVerdict ctx known said spec value key closed) := by
  refine Eval.Yields.store.bind ?_
  rintro s ⟨w, hw, rfl⟩
  exact (Eval.Yields.ask emit _ _).bind fun _ _ => .pure (literal (alike w hw))

theorem comparisonHolds_yields {symbol : String}
    (meant : symbol = "==" ∨ (Relation.ofSymbol? symbol).isSome) (operand value : Term) :
    (comparisonHolds symbol operand value).Yields I excuse fun holds =>
      ∃ alike, known alike ∧ comparisonTruth alike symbol operand value = holds := by
  refine Eval.Yields.store.bind ?_
  rintro s ⟨w, hw, rfl⟩
  dsimp only
  by_cases equality : symbol == "=="
  · rw [if_pos equality]
    exact (Eval.Yields.ask emit _ _).bind fun _ _ => .pure ⟨_, alike w hw, if_pos equality⟩
  · rw [if_neg equality]
    obtain ⟨relation, h⟩ := Option.isSome_iff_exists.1
      (meant.resolve_left fun eq => equality (beq_iff_eq.2 eq))
    rw [h]
    exact (Eval.Yields.ask emit _ _).bind fun _ _ =>
      .pure ⟨_, alike w hw, by rw [comparisonTruth, if_neg equality, h]; rfl⟩

theorem isOneOf_yields (options : List Term) (exact : Bool) (value : Term) :
    (isOneOf options exact value).Yields I excuse fun holds =>
      ∃ alike, known alike ∧ membershipTruth alike options exact value = holds := by
  refine Eval.Yields.store.bind ?_
  rintro s ⟨w, hw, rfl⟩
  exact (findOption_yields emit _ exact value options).imp fun _ found => ⟨_, alike w hw, found⟩

end

/-- Core leaves are matched as `LeafVerdict` says, if objects of the host say what they may and
names resolve or every fault is excused. -/
theorem leaf_meets (alike : ∀ w, I w → known w.store.alike)
    (emit : ∀ event : Event, event.cell? = none → (Eval.emit event).Keeps I)
    {spec : Term} (core : spec.CoreLeaf) (names : ctx.Resolves spec ∨ ∀ fault, excuse fault)
    {budget : Nat}
    (objects : ∀ handle, spec = .object handle → handle.accepts = true → ∀ value,
      (ctx.request (interp ctx budget) handle (.accept value)).Yields I excuse
        fun answer => said handle value answer.truthy) :
    (interp ctx (budget + 1)).Meets I excuse (LeafVerdict ctx known said) spec := by
  intro value key closed
  cases spec with
  | cls c =>
    rw [create_cls]
    exact (isInstance_yields emit c value).bind fun _ holds => .pure (holds ▸ .cls)
  | str s =>
    rw [create_name]
    cases registered : ctx.registry.contains s with
    | true =>
      rw [if_pos rfl]
      refine (resolve_yields emit ctx.registry ctx.modules s
        (names.imp (fun resolves => resolves registered) id)).bind fun c h => ?_
      exact (isInstance_yields emit c value).bind fun _ holds => .pure (holds ▸ .name registered h)
    | false =>
      rw [if_neg Bool.false_ne_true]
      exact matchLiteral_yields alike emit (.text registered)
  | builtin f =>
    by_cases identity : f = .identity
    · subst identity
      rw [create_identity]
      exact .pure .identity
    · rw [create_test ctx budget value key closed f identity core]
      exact .pure (.test identity core)
  | comparison symbol operand =>
    rw [create_comparison]
    refine (comparisonHolds_yields alike emit core operand value).bind ?_
    rintro holds ⟨alike, known, rfl⟩
    exact .pure (.comparison known)
  | oneOf options exact =>
    rw [create_oneOf]
    refine (isOneOf_yields alike emit options exact value).bind ?_
    rintro holds ⟨alike, known, rfl⟩
    exact .pure (.oneOf known)
  | object handle =>
    obtain ⟨binds, ability⟩ := core
    cases accepts : handle.accepts with
    | true =>
      rw [create_acceptor ctx budget value key closed binds accepts]
      exact (objects handle rfl accepts value).bind fun answer h => .pure (.acceptor accepts h)
    | false =>
      have arity : handle.arity = none := ability.resolve_left (by rw [accepts]; nofun)
      have reading : (Term.object handle).reading value = .literal :=
        Term.reading_object binds accepts arity
      rw [create_literal ctx budget value key closed reading]
      exact matchLiteral_yields alike emit (.literal reading)
  | null | bool _ | int _ | float _ | bytes _ | missing | circle _ | square _ | left _ | right _
  | action _ | «foreign» _ _ =>
    rw [create_literal ctx budget value key closed rfl]
    exact matchLiteral_yields alike emit (.literal rfl)
  | _ => exact core.elim

end

/-! ## Core specs always answer -/

/-- Objects of the host answer plainly what they are asked about a value. -/
def Context.Answers (ctx : Context) : Term → Prop
  | .object handle => handle.accepts = true → ∀ value calls, ∃ answer,
      ctx.host.respond handle (.accept value) calls = .answer answer
  | _ => True

theorem World.constrains_upholds (constraint : Nat → Term) :
    World.Upholds constraint (World.Constrains constraint) where
  constrains _ hw := hw
  setCell := (World.constrains_invariant constraint).setCell
  resetCell := (World.constrains_invariant constraint).resetCell

/-- Nothing needs to be said of verdicts. -/
theorem matchRules_true (constraint : Nat → Term) :
    MatchRules constraint fun _ _ _ _ _ => True := by
  constructor <;> intros <;> trivial

/-- Core leaves answer if their names resolve and their objects do. -/
theorem leaf_answers {ctx : Context} {I : World → Prop} {excuse : Fault → Prop}
    (emit : ∀ event : Event, event.cell? = none → (Eval.emit event).Keeps I)
    (note : ∀ receiver request, (Eval.note receiver request).Keeps I) {t : Term}
    (core : t.CoreLeaf) (answers : ctx.Answers t) (resolves : ctx.Resolves t) (budget : Nat) :
    (interp ctx (budget + 1)).Meets I excuse (fun _ _ _ _ _ => True) t := by
  have meets : (interp ctx (budget + 1)).Meets I excuse
      (LeafVerdict ctx (fun _ => True) (fun _ _ _ => True)) t := by
    refine leaf_meets (fun _ _ => trivial) emit core (.inl resolves) ?_
    rintro handle rfl accepts value
    refine request_yields_of_answer (note _ _) ?_
    intro calls
    obtain ⟨answer, responds⟩ := answers accepts value calls
    exact ⟨answer, responds, trivial⟩
  exact fun value key closed => (meets value key closed).imp fun _ _ => trivial

section

variable (ctx : Context) (w : World) {spec : Term}
variable (core : SpecTree (fun t => t.CoreLeaf ∧ ctx.Answers t ∧ ctx.Resolves t)
  w.store.constraint spec)
include core

/-- Matching a core spec does not fail with a budget that covers it, if its names resolve and its
objects answer plainly. -/
theorem create_succeeds_of_covers {budget : Nat} (covers : w.store.Covers budget spec)
    (value key : Term) (closed : Bool) :
    ∃ verdict w', (interp ctx budget).create spec value key closed w = .ok verdict w' := by
  have invariant := World.constrains_invariant w.store.constraint
  have yields := create_yields ctx (fun _ => False) (matchRules_true _)
    (World.constrains_upholds _) (fun t leaf => leaf.1.atomic)
    (fun t leaf => leaf_answers invariant.emit invariant.note leaf.1 leaf.2.1 leaf.2.2)
    core covers value key closed
  exact yields.succeeds fun _ => rfl

/-- With the budget of the library, it never fails. -/
theorem create_succeeds (value key : Term) (closed : Bool) :
    ∃ verdict w', create ctx spec value key closed w = .ok verdict w' := by
  obtain ⟨depth, deep⟩ := core.exists_depth fun t leaf => leaf.1.atomic
  have covers := Store.covers_budget deep [value, key]
  exact create_succeeds_of_covers ctx w core covers value key closed

end

end SpecMatch
