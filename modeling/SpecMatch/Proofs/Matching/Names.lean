import SpecMatch.Proofs.Evaluation.LogBlind
import SpecMatch.Proofs.Matching.Bindings

/-!
# A match looks up the names of its spec and no others

The registry is asked about the texts among the leaves of a spec. Two registries that agree on these
(`Registry.AgreesOn`) are as good as each other, whatever texts there are in the value, among the
keys and in operands (`create_ignores_other_names`). The two runs may tell different things about
how a name was imported, so they are compared up to the log (`Eval.LogBlind`).
-/

namespace SpecMatch

/-- Two registries agree on a name: neither has it, or both have it and it resolves to the same
class or fails in the same way. -/
def Registry.AgreesOn (modules : Modules) (r r' : Registry) (name : String) : Prop :=
  r.contains name = r'.contains name ∧ (r.contains name = true →
    ∀ w, (r.resolve modules name).outcome w = (r'.resolve modules name).outcome w)

/-- The same context with other type names in force. -/
def Context.under (ctx : Context) (r : Registry) : Context := { ctx with registry := r }

/-! ## Leaves -/

/-- What leaves the store as it is keeps what holds of the store. -/
theorem Eval.keeps_observing (I : Store → Prop) :
    Eval.Observing fun _ m _ => m.Keeps fun w => I w.store where
  toCompositional := Eval.keeps_compositional _
  store _ hw := hw
  emit _ _ _ hw := hw

/-- Resolving a name does nothing but tell. -/
theorem Registry.store_after_resolve (r : Registry) (modules : Modules) (name : String)
    (w : World) : ((r.resolve modules name).after w).store = w.store :=
  resolve_related (Eval.keeps_observing (· = w.store)) r modules name w rfl

section

variable {I : Store → Prop} {ctx : Context} {r : Registry}

theorem resolve_logBlind {name : String} (registered : ctx.registry.contains name)
    (agree : ctx.registry.AgreesOn ctx.modules r name) :
    (ctx.registry.resolve ctx.modules name).LogBlind I (r.resolve ctx.modules name) := by
  intro w w' hw same
  obtain ⟨outcome, -, -⟩ := resolve_related (Eval.logBlind_observing fun _ => True) r ctx.modules
    name w w' trivial same
  refine ⟨(agree.2 registered w).trans outcome, ?_, ?_⟩
  · rw [Registry.store_after_resolve, Registry.store_after_resolve, same]
  · rwa [Registry.store_after_resolve]

theorem name_logBlind {name : String} (agree : ctx.registry.AgreesOn ctx.modules r name)
    (budget : Nat) :
    (interp ctx (budget + 1)).RelatedOn (fun _ m m' => m.LogBlind I m')
      (interp (ctx.under r) (budget + 1)) (.str name) := by
  intro value key closed
  have observing := Eval.logBlind_observing I
  rw [create_name, create_name]
  show Eval.LogBlind I _ (if r.contains name then _ else _)
  rw [← agree.1]
  split
  · next registered =>
    exact .seq (resolve_logBlind registered agree) fun c =>
      observing.seq (isInstance_related observing.toCompositional (observing.asked _)) fun _ =>
        observing.answer _
  · exact matchLiteral_related observing.toCompositional observing.store (observing.asked _)

/-- An object that answers plainly does so in any context. -/
theorem request_under {handle : Handle}
    (answers : ∀ request calls, ∃ answer, ctx.host.respond handle request calls = .answer answer)
    (i i' : Interp) (request : Request) :
    ctx.request i handle request = (ctx.under r).request i' handle request := by
  funext w
  obtain ⟨answer, responds⟩ := answers request w.store.calls
  have run (i : Interp) : (ctx.host.respond handle request w.store.calls).run i =
      (.pure answer : Eval Term) := by
    rw [responds]
    rfl
  show (ctx.host.respond handle request w.store.calls).run i _ =
    (ctx.host.respond handle request w.store.calls).run i' _
  rw [run, run]

/-- A leaf that is no name is matched in the same way under any registry. -/
theorem create_leaf_under {t : Term} (leaf : ctx.Repeatable t) (replies : ctx.Replies t)
    (noName : ∀ s, t ≠ .str s) (budget : Nat) (value key : Term) (closed : Bool) :
    (interp ctx (budget + 1)).create t value key closed =
      (interp (ctx.under r) (budget + 1)).create t value key closed := by
  cases t with
  | str s => exact absurd rfl (noName s)
  | builtin f =>
    by_cases identity : f = .identity
    · subst identity
      rfl
    · rw [create_test _ _ _ _ _ f identity leaf, create_test _ _ _ _ _ f identity leaf]
  | object handle =>
    obtain ⟨binds, -⟩ := leaf
    have literal (accepts : handle.accepts = false) (arity : handle.arity = none) :
        (interp ctx (budget + 1)).create (.object handle) value key closed =
          (interp (ctx.under r) (budget + 1)).create (.object handle) value key closed := by
      have reading : (Term.object handle).reading value = .literal :=
        Term.reading_object binds accepts arity
      rw [create_literal _ _ _ _ _ reading, create_literal _ _ _ _ _ reading]
    rcases replies with inert | ⟨takes, answers⟩
    · exact literal inert.1 inert.2
    · have asked := request_under (r := r) answers (interp ctx budget)
        (interp (ctx.under r) budget)
      cases accepts : handle.accepts with
      | true =>
        rw [create_acceptor _ _ _ _ _ binds accepts, create_acceptor _ _ _ _ _ binds accepts, asked]
      | false =>
        cases arity : handle.arity with
        | none => exact literal accepts arity
        | some a =>
          have admits : a.admits 2 := by simpa [accepts, arity] using takes
          rw [create_predicate _ _ _ _ _ binds accepts arity admits,
            create_predicate _ _ _ _ _ binds accepts arity admits, asked]
  | _ => first | rfl | exact leaf.elim

/-- A leaf is matched alike under two registries if they agree on it should it be a name. -/
theorem leaf_logBlind (hI : World.Invariant fun w => I w.store) {t : Term}
    (leaf : ctx.Repeatable t) (replies : ctx.Replies t)
    (agree : ∀ s, t = .str s → ctx.registry.AgreesOn ctx.modules r s) (budget : Nat) :
    (interp ctx (budget + 1)).RelatedOn (fun _ m m' => m.LogBlind I m')
      (interp (ctx.under r) (budget + 1)) t := by
  by_cases name : ∃ s, t = .str s
  · obtain ⟨s, rfl⟩ := name
    exact name_logBlind (agree s rfl) budget
  · intro value key closed
    rw [create_leaf_under leaf replies (fun s same => name ⟨s, same⟩)]
    exact (interp_logBlind hI (ctx.under r) (budget + 1)).create t value key closed

end

/-! ## Variables -/

/-- The variables of a store have the given constraints. -/
def Store.Constrains (constraint : Nat → Term) (s : Store) : Prop :=
  ∀ id, s.constraint id = constraint id

theorem Store.constrains_invariant (constraint : Nat → Term) :
    World.Invariant fun w => w.store.Constrains constraint :=
  World.constrains_invariant constraint

/-- Two matches of a variable come to the same if those of its constraint do. -/
theorem bindCell_logBlind {constraint : Nat → Term} {i i' : Interp} {id : Nat}
    {value key key' : Term}
    (on : constraint id ≠ .null → (i.create (constraint id) value key false).LogBlind
      (Store.Constrains constraint) (i'.create (constraint id) value key' false)) :
    (bindCell i id value key).LogBlind (Store.Constrains constraint)
      (bindCell i' id value key') := by
  have invariant := Store.constrains_invariant constraint
  have congruence := Eval.logBlind_congruence invariant
  refine .read ?_
  intro s constrains
  have settle := settle_related congruence.toCompositional key key'
    (setCell_logBlind invariant id value key key') (congruence.resetCell id)
  dsimp only
  by_cases free : (s.cell id).free
  · rw [if_pos free, if_pos free]
    exact .seq (congruence.answer true) settle
  · rw [if_neg free, if_neg free]
    have same : (s.cell id).constraint = constraint id := constrains id
    have bound : constraint id ≠ .null := by
      rw [← same]
      exact fun null => free (Cell.free_iff.2 null)
    rw [same]
    exact .seq (accepts_related congruence.toCompositional (on bound)) settle

/-! ## Specs -/

section

variable {ctx : Context} {r : Registry} {names : String → Prop} {constraint : Nat → Term}
variable {spec : Term}

/-- The leaves of a spec whose texts are among some names. -/
def Context.LeafNaming (ctx : Context) (names : String → Prop) (t : Term) : Prop :=
  ctx.Repeatable t ∧ ctx.Replies t ∧ ∀ s, t = .str s → names s

/-- Every match of a spec tree is the same under two registries that agree on its names. -/
theorem create_logBlind (agree : ∀ s, names s → ctx.registry.AgreesOn ctx.modules r s)
    (tree : SpecTree (ctx.LeafNaming names) constraint spec) (budget : Nat) :
    (interp ctx budget).RelatedOn (fun _ m m' => m.LogBlind (Store.Constrains constraint) m')
      (interp (ctx.under r) budget) spec := by
  intro value key closed
  have congruence := Eval.logBlind_congruence (Store.constrains_invariant constraint)
  refine SpecTree.related congruence.toCompositional ctx (ctx.under r)
    (fun t leaf => leaf.1.atomic) ?_ ?_ tree budget value key closed .start
  · rintro t ⟨leaf, replies, named⟩ budget x k closed _
    exact leaf_logBlind (Store.constrains_invariant constraint) leaf replies
      (fun s same => agree s (named s same)) budget x k closed
  · exact fun id _ budget x k on => bindCell_logBlind on

/-- A fault of resolving one of some names. -/
def Registry.FailsOn (modules : Modules) (r : Registry) (names : String → Prop) (fault : Fault) :
    Prop :=
  ∃ s w, names s ∧ r.contains s ∧ (r.resolve modules s).outcome w = .error fault

/-- A name is matched, or it cannot be resolved. -/
theorem name_answers {I : World → Prop} (invariant : World.Invariant I) {s : String}
    (named : names s) (budget : Nat) :
    (interp ctx (budget + 1)).Meets I (ctx.registry.FailsOn ctx.modules names)
      (fun _ _ _ _ _ => True) (.str s) := by
  intro value key closed
  rw [create_name]
  split
  · next registered =>
    have resolved : (ctx.registry.resolve ctx.modules s).Yields I
        (ctx.registry.FailsOn ctx.modules names) fun _ => True := by
      intro w hw
      have kept := resolve_related invariant.congruence.toObserving ctx.registry ctx.modules s w hw
      unfold Eval.after at kept
      cases run : ctx.registry.resolve ctx.modules s w with
      | ok c w' =>
        rw [run] at kept
        exact ⟨kept, trivial⟩
      | error fault w' => exact ⟨s, w, named, registered, by rw [Eval.outcome, run]⟩
    exact resolved.bind fun c _ =>
      (isInstance_yields invariant.emit c value).bind fun _ _ => .pure trivial
  · exact Eval.Yields.store.bind fun _ _ =>
      (Eval.Yields.ask invariant.emit _ _).bind fun _ _ => .pure trivial

/-- A match answers unless one of its names cannot be resolved. -/
theorem create_fails_on_names {w : World}
    (tree : SpecTree (ctx.LeafNaming names) w.store.constraint spec) (value key : Term)
    (closed : Bool) :
    (∃ verdict, (create ctx spec value key closed).outcome w = .ok verdict) ∨
      ∃ fault, (create ctx spec value key closed).outcome w = .error fault ∧
        ctx.registry.FailsOn ctx.modules names fault := by
  have invariant := World.constrains_invariant w.store.constraint
  have leaves (t : Term) (leaf : ctx.LeafNaming names t) (budget : Nat) :
      (interp ctx (budget + 1)).Meets (World.Constrains w.store.constraint)
        (ctx.registry.FailsOn ctx.modules names) (fun _ _ _ _ _ => True) t := by
    obtain ⟨repeatable, replies, named⟩ := leaf
    by_cases name : ∃ s, t = .str s
    · obtain ⟨s, rfl⟩ := name
      exact name_answers invariant (named s rfl) budget
    · have resolves : ctx.Resolves t := by
        cases t with
        | str s => exact absurd ⟨s, rfl⟩ name
        | _ => trivial
      exact repeatable_answers invariant.emit invariant.note repeatable replies resolves budget
  have yields := create_yields_budget ctx (ctx.registry.FailsOn ctx.modules names)
    (matchRules_true _) (World.constrains_upholds _) (fun t leaf => leaf.1.atomic) leaves tree
    value key closed w fun _ => rfl
  rw [Eval.outcome, create_apply]
  cases run : (interp ctx (w.store.budget spec [value, key])).create spec value key closed w with
  | ok verdict w' => exact .inl ⟨verdict, rfl⟩
  | error fault w' =>
    rw [run] at yields
    exact .inr ⟨fault, rfl, yields⟩

/-- A match depends on the registry only through the texts among the leaves of its spec. Under two
registries that agree on these it comes to the same answer, or to the same failure to resolve one
of them, with the same calls and the same bindings. -/
theorem create_ignores_other_names (ctx : Context) (r : Registry)
    (agree : ∀ s, names s → ctx.registry.AgreesOn ctx.modules r s) {w : World}
    (tree : SpecTree (ctx.LeafNaming names) w.store.constraint spec) (value key : Term)
    (closed : Bool) :
    let run := create ctx spec value key closed
    let run' := create (ctx.under r) spec value key closed
    run.outcome w = run'.outcome w ∧ (run.after w).store = (run'.after w).store ∧
      ((∃ verdict, run.outcome w = .ok verdict) ∨ ∃ fault, run.outcome w = .error fault ∧
        ctx.registry.FailsOn ctx.modules names fault) := by
  intro run run'
  obtain ⟨outcome, store, -⟩ := create_logBlind agree tree (w.store.budget spec [value, key]) value
    key closed w w (fun _ => rfl) rfl
  exact ⟨outcome, store, create_fails_on_names tree value key closed⟩

/-- The value and an operand are full of names on which the registries do not agree. -/
theorem other_names_make_no_difference :
    let registry : Registry := ⟨[(.str "Text", .cls .str), (.str "other", .cls .int)]⟩
    let ctx : Context := { Context.bare with registry := registry }
    let r : Registry := ⟨[(.str "key", .str "no.such:path"), (.str "Text", .cls .str)]⟩
    let constraint : Term := .anyOf [.str "Text", .builtin .isInt]
    let w : World := { store := { cells := #[⟨"x", constraint, none⟩] } }
    let spec : Term := .map .plain [
      (.str "key", .list [.str "Text", .comparison "==" (.str "other"), .maybe (.str "absent")]),
      (.str "other", .allOf [.var 0, .keyed (.str "absent") 0 none])]
    let value : Term := .fields [("key", .tuple [.str "other", .str "other", .str "absent"]),
      ("other", .str "key")]
    (∀ s, (s = "Text" ∨ s = "absent") → registry.AgreesOn [] r s) ∧
      (∃ s, ¬ registry.AgreesOn [] r s) ∧
      ∃ verdict, (create ctx spec value).outcome w = .ok verdict ∧
        (create (ctx.under r) spec value).outcome w = .ok verdict := by
  intro registry ctx r constraint w spec value
  have agree : ∀ s, (s = "Text" ∨ s = "absent") → registry.AgreesOn [] r s := by
    rintro s (rfl | rfl)
    · exact ⟨rfl, fun _ _ => rfl⟩
    · exact ⟨rfl, fun registered => by cases registered⟩
  have disagree : ¬ registry.AgreesOn [] r "other" := by
    rintro ⟨contains, -⟩
    cases contains
  have name {s : String} (named : s = "Text" ∨ s = "absent") :
      SpecTree (ctx.LeafNaming fun s => s = "Text" ∨ s = "absent") w.store.constraint (.str s) := by
    refine .leaf ⟨trivial, trivial, ?_⟩
    rintro t ⟨⟩
    exact named
  have bound : w.store.constraint 0 ≠ .null := by simp [w, constraint, Store.constraint, Store.cell]
  have tree : SpecTree (ctx.LeafNaming fun s => s = "Text" ∨ s = "absent") w.store.constraint
      spec := by
    refine .container rfl trivial (by decide) ?_
    simp only [spec, Term.entries, List.forall_mem_cons]
    refine ⟨.container rfl trivial (.array rfl) ?_, .allOf ?_, List.forall_mem_nil _⟩
    · simp only [Term.entries, Term.positions, List.forall_mem_cons]
      have comparison : (Term.comparison "==" (.str "other")).CoreLeaf := .inl rfl
      refine ⟨name (.inl rfl), .leaf ⟨comparison, trivial, ?_⟩, .maybe (name (.inr rfl)),
        List.forall_mem_nil _⟩
      rintro t ⟨⟩
    · simp only [List.forall_mem_cons]
      refine ⟨.constrained bound (.anyOf ?_), .keyed (name (.inr rfl)), List.forall_mem_nil _⟩
      simp only [List.forall_mem_cons]
      have isInt : (Term.builtin .isInt).CoreLeaf := by simp [Term.CoreLeaf]
      refine ⟨name (.inl rfl), .leaf ⟨isInt, trivial, ?_⟩, List.forall_mem_nil _⟩
      rintro t ⟨⟩
  obtain ⟨same, -, answers⟩ := create_ignores_other_names ctx r agree tree value .null false
  refine ⟨agree, ⟨"other", disagree⟩, ?_⟩
  rcases answers with ⟨verdict, answer⟩ | ⟨fault, fails, s, v, named, registered, unresolved⟩
  · exact ⟨verdict, answer, same ▸ answer⟩
  · rcases named with rfl | rfl
    · cases unresolved
    · cases registered

end

end SpecMatch
