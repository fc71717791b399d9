import SpecMatch.Proofs.Evaluation.Objection
import SpecMatch.Proofs.Matching.Leaves
import SpecMatch.Proofs.Matching.Trees

/-!
# What a match asks

Classes are asked for their instances, and objects how they compare. A match asks what the leaves of
its spec ask (`Context.Poses`) about what it comes to, and nothing else (`create_asks`). In
particular nothing is asked while a name is resolved (`resolve_asks_nothing`).
-/

namespace SpecMatch

/-- The questions that a leaf asks about a value. -/
inductive Context.Poses (ctx : Context) : Term → Term → Question → Prop
  | cls {c : Class} {x : Term} : Poses ctx (.cls c) x (.admits c x)
  | name {s : String} {c : Class} {x : Term} : ctx.registry.classOf? ctx.modules s = some c →
      Poses ctx (.str s) x (.admits c x)
  | comparison {symbol : String} {operand x : Term} :
      Poses ctx (.comparison symbol operand) x (.compares symbol x operand)
  | option {options : List Term} (exact : Bool) {option x : Term} : option ∈ options →
      Poses ctx (.oneOf options exact) x (.equals option x)
  | literal {t x : Term} : t ∈ t.operands → Poses ctx t x (.equals t x)

/-! ## Names -/

theorem Eval.Tells.classNamed {P : LogEntry → Prop} (name : String) (target : Term) :
    (Registry.classNamed name target).Tells P := by
  unfold Registry.classNamed
  split
  · exact .of_log_eq fun _ => rfl
  · exact .of_log_eq fun _ => rfl

theorem resolve_asks_nothing (r : Registry) (modules : Modules) (name : String) :
    (r.resolve modules name).Tells (·.event.question? = none) :=
  resolve_related_of_named (Eval.tells_compositional _) (fun _ _ quiet => .emit fun _ => quiet)
    Eval.Tells.classNamed r modules name

/-- So no name is refused. -/
theorem resolve_heeding (r : Registry) (modules : Modules) (name : String)
    (refuses : Question → Option Fault) :
    (r.resolve modules name).heeding (.refusing refuses) = r.resolve modules name :=
  ((resolve_asks_nothing r modules name).imp fun e quiet => by
    rw [Objection.refusing, quiet, Option.bind_none]).heeding

theorem isInstance_answers (c : Class) (x : Term) (w : World) :
    ∃ holds w', isInstance c x w = .ok holds w' := by
  unfold isInstance Eval.ask
  split
  · exact ⟨_, _, rfl⟩
  · exact ⟨_, _, rfl⟩

/-- A class answers, or it refuses to before anything is done. -/
theorem isInstance_heeding (c : Class) (x : Term) (refuses : Question → Option Fault) (w : World) :
    (isInstance c x).heeding (.refusing refuses) w = isInstance c x w ∨
      ∃ fault, refuses (.admits c x) = some fault ∧
        (isInstance c x).heeding (.refusing refuses) w = .error fault w := by
  have told : (isInstance c x).told w =
      if c.isOpen then [⟨.asked (.admits c x), w.store⟩] else [] := by
    refine Eval.told_of_append ?_
    rw [isInstance, Eval.ask]
    split
    · exact Array.toList_push
    · exact (List.append_nil _).symm
  rw [Eval.heeding, told]
  cases c.isOpen with
  | true =>
    cases refused : refuses (.admits c x) with
    | some fault =>
      refine .inr ⟨fault, rfl, ?_⟩
      simp [Objection.first?, Objection.refusing, Event.question?, refused]
    | none =>
      exact .inl (by simp [Objection.first?, Objection.refusing, Event.question?, refused])
  | false => exact .inl rfl

/-- A name is resolved to its class. -/
theorem classOf?_of_resolve {r : Registry} {modules : Modules} {name : String} {c : Class}
    {w w' : World} (run : r.resolve modules name w = .ok c w') :
    r.classOf? modules name = some c :=
  have yields : (r.resolve modules name).Yields (fun _ => True) (fun _ => True)
      fun c => r.classOf? modules name = some c :=
    resolve_yields (fun _ _ _ _ => trivial) r modules name (.inr fun _ => trivial)
  yields.answers trivial run

/-! ## Leaves -/

/-- Since the log had a length, nothing was asked but certain questions. The constraints of
variables are given. -/
structure World.AsksOnly (constraint : Nat → Term) (asks : Question → Prop) (length : Nat)
    (w : World) : Prop where
  constrains : w.Constrains constraint
  later : length ≤ w.log.size
  asked : ∀ e ∈ w.log.toList.drop length, ∀ question, e.event.question? = some question →
    asks question

section

variable {constraint : Nat → Term} {asks : Question → Prop} {length : Nat}

theorem World.AsksOnly.push {w w' : World} (hw : w.AsksOnly constraint asks length)
    (constrains : w'.Constrains constraint) {e : LogEntry} (told : w'.log = w.log.push e)
    (h : ∀ question, e.event.question? = some question → asks question) :
    w'.AsksOnly constraint asks length where
  constrains := constrains
  later := by
    rw [told, Array.size_push]
    exact Nat.le_succ_of_le hw.later
  asked := by
    rw [told, Array.toList_push, List.drop_append_of_le_length hw.later]
    exact List.forall_mem_append.2 ⟨hw.asked, List.forall_mem_singleton.2 h⟩

theorem World.AsksOnly.emit {event : Event}
    (h : ∀ question, event.question? = some question → asks question) :
    (Eval.emit event).Keeps (World.AsksOnly constraint asks length) :=
  fun _ hw => hw.push hw.constrains rfl h

theorem World.AsksOnly.setCell (id : Nat) (value key : Term) :
    (SpecMatch.setCell id value key).Keeps (World.AsksOnly constraint asks length) := fun w hw =>
  hw.push ((World.constrains_invariant constraint).setCell id value key w hw.constrains) rfl
    fun _ asked => by cases asked

theorem World.AsksOnly.resetCell (id : Nat) :
    (SpecMatch.resetCell id).Keeps (World.AsksOnly constraint asks length) := by
  intro w hw
  have constrains := (World.constrains_invariant constraint).resetCell id w hw.constrains
  rw [Eval.after, resetCell_apply] at constrains ⊢
  by_cases bound : (w.store.cell id).value.isSome
  · rw [if_pos bound] at constrains ⊢
    exact hw.push constrains rfl fun _ asked => by cases asked
  · rw [if_neg bound] at constrains ⊢
    exact ⟨constrains, hw.later, hw.asked⟩

theorem classNamed_asksOnly (name : String) (target : Term) :
    (Registry.classNamed name target).Keeps (World.AsksOnly constraint asks length) := by
  unfold Registry.classNamed
  split
  · exact .answer _
  · exact fun _ hw => hw

variable {ctx : Context} {budget : Nat}

/-- A leaf asks what it poses. -/
theorem leaf_asks {t value : Term} (core : t.CoreLeaf) (answers : ctx.Answers t)
    (poses : ∀ question, ctx.Poses t value question → asks question) (key : Term)
    (closed : Bool) :
    ((interp ctx (budget + 1)).create t value key closed).Keeps
      (World.AsksOnly constraint asks length) := by
  have compositional := Eval.keeps_compositional (World.AsksOnly constraint asks length)
  have asked {question : Question} (posed : ctx.Poses t value question) :
      (Eval.emit (.asked question)).Keeps (World.AsksOnly constraint asks length) := by
    refine .emit fun _ same => ?_
    cases same
    exact poses _ posed
  have store : Eval.store.Keeps (World.AsksOnly constraint asks length) := fun _ hw => hw
  have literal (stands : t ∈ t.operands) :
      (matchLiteral t value).Keeps (World.AsksOnly constraint asks length) :=
    matchLiteral_related compositional store (asked (.literal stands))
  cases t with
  | cls c =>
    rw [create_cls]
    exact .seq (isInstance_related compositional (asked .cls)) fun _ => .answer _
  | str s =>
    rw [create_name]
    split
    · have resolved : (ctx.registry.resolve ctx.modules s).Keeps
          (World.AsksOnly constraint asks length) :=
        resolve_related_of_named compositional
          (fun _ _ quiet => .emit fun _ same => by rw [quiet] at same; cases same)
          classNamed_asksOnly ctx.registry ctx.modules s
      refine resolved.bind fun w c w' _ run => ?_
      have named : ctx.registry.classOf? ctx.modules s = some c :=
        classOf?_of_resolve run
      exact .seq (isInstance_related compositional (asked (.name named))) fun _ => .answer _
    · exact literal (List.mem_singleton_self _)
  | builtin f =>
    by_cases identity : f = .identity
    · subst identity
      rw [create_identity]
      exact .answer _
    · rw [create_test ctx budget value key closed f identity core]
      exact .answer _
  | comparison symbol operand =>
    rw [create_comparison]
    exact .seq (comparisonHolds_related compositional store (asked .comparison)) fun _ =>
      .answer _
  | oneOf options exact =>
    rw [create_oneOf]
    have held := isOneOf_related compositional store value
      (fun _ mem => asked (.option exact mem)) exact
    exact .seq held fun _ => .answer _
  | object handle =>
    obtain ⟨binds, ability⟩ := core
    cases accepts : handle.accepts with
    | true =>
      rw [create_acceptor ctx budget value key closed binds accepts]
      refine .seq (.seq store fun s => .seq (fun w hw => ?_) fun _ => ?_) fun _ => .answer _
      · exact ⟨hw.constrains, hw.later, hw.asked⟩
      · obtain ⟨answer, responds⟩ := answers accepts value s.calls
        rw [responds]
        exact .answer answer
    | false =>
      have arity : handle.arity = none := ability.resolve_left (by rw [accepts]; nofun)
      rw [create_literal ctx budget value key closed (Term.reading_object binds accepts arity)]
      exact literal (by simp [Term.operands, accepts, arity])
  | null | bool _ | int _ | float _ | bytes _ | missing | circle _ | square _ | left _ | right _
  | action _ | «foreign» _ _ =>
    rw [create_literal ctx budget value key closed rfl]
    exact literal (List.mem_singleton_self _)
  | _ => exact core.elim

/-! ## Specs -/

theorem bindCell_asks {id : Nat} {value key : Term} (on : constraint id ≠ .null →
      ((interp ctx budget).create (constraint id) value key false).Keeps
        (World.AsksOnly constraint asks length)) :
    (bindCell (interp ctx budget) id value key).Keeps (World.AsksOnly constraint asks length) := by
  have store : Eval.store.Keeps (World.AsksOnly constraint asks length) := fun _ hw => hw
  have compositional := Eval.keeps_compositional (World.AsksOnly constraint asks length)
  have settle := settle_related compositional key key (.setCell id value key) (.resetCell id)
  refine store.bind fun w s _ hw run => ?_
  cases run
  dsimp only
  by_cases free : (w.store.cell id).free
  · rw [if_pos free]
    exact .seq (.answer true) settle
  · have bound : constraint id ≠ .null := by
      rw [← hw.constrains id]
      exact fun null => free (Cell.free_iff.2 null)
    rw [if_neg free, hw.constrains id]
    exact .seq (.seq (on bound) fun _ => .answer _) settle

end

/-- A match asks what its leaves pose about what it comes to. -/
theorem create_asks {ctx : Context} {leaf : Term → Prop} {w : World}
    (leaves : ∀ t, leaf t → t.CoreLeaf ∧ ctx.Answers t) {spec : Term}
    (tree : SpecTree leaf w.store.constraint spec) (value key : Term) (closed : Bool) :
    ∀ e ∈ (create ctx spec value key closed).told w, ∀ question,
      e.event.question? = some question →
        ∃ t x k, leaf t ∧ value.ComesTo key x k ∧ ctx.Poses t x question := by
  let asks (question : Question) : Prop :=
    ∃ t x k, leaf t ∧ value.ComesTo key x k ∧ ctx.Poses t x question
  have keeps : ((interp ctx (w.store.budget spec [value, key])).create spec value key closed).Keeps
      (World.AsksOnly w.store.constraint asks w.log.size) := by
    refine SpecTree.related (Eval.keeps_compositional _) ctx ctx
      (fun t there => (leaves t there).1.atomic) ?_ ?_ tree _ value key closed .start
    · exact fun t there _ x k closed comes => leaf_asks (leaves t there).1 (leaves t there).2
        (fun _ posed => ⟨t, x, k, there, comes, posed⟩) k closed
    · exact fun _ _ _ _ _ => bindCell_asks
  have start : w.AsksOnly w.store.constraint asks w.log.size := by
    refine ⟨fun _ => rfl, Nat.le_refl _, ?_⟩
    rw [List.drop_of_length_le (Nat.le_of_eq Array.length_toList)]
    exact List.forall_mem_nil _
  have asked := (keeps w start).asked
  rw [Eval.told, Eval.after, create_apply]
  exact asked

end SpecMatch
