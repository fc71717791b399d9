import SpecMatch.Proofs.Evaluation.Budget
import SpecMatch.Proofs.Evaluation.Steps
import SpecMatch.Proofs.Matching.Leaves

/-!
# How many matches stand in one another

Every level of a budget is one match inside another, so what a match needs of its budget is how many
matches stand in one another at the deepest place of its run. For a core spec the depth of the spec
is enough (`create_within_depth`). The value has no part in this: a step from a container to its
children takes the spec along only where the spec has a level of its own for it.
-/

namespace SpecMatch

/-- An object that is asked about a value decides on its own, without a match of the library; it may
fail, though not for want of levels. -/
def Context.DecidesAlone (ctx : Context) : Term → Prop
  | .object handle => handle.accepts = true → ∀ value calls,
      let response := ctx.host.respond handle (.accept value) calls
      response.Plain ∧ response ≠ .fail .nestingLimit
  | _ => True

/-- An object that answers plainly decides on its own. -/
theorem Context.Answers.decidesAlone {ctx : Context} {t : Term} (answers : ctx.Answers t) :
    ctx.DecidesAlone t := by
  cases t with
  | object handle =>
    intro accepts value calls
    obtain ⟨answer, responds⟩ := answers accepts value calls
    rw [responds]
    exact ⟨trivial, nofun⟩
  | _ => trivial

section

variable {ctx : Context} {constraint : Nat → Term}

/-- Asking such an object needs no level. -/
theorem request_within_limit {handle : Handle} {request : Request}
    (alone : ∀ calls, let response := ctx.host.respond handle request calls
      response.Plain ∧ response ≠ .fail .nestingLimit) (i : Interp) :
    (ctx.request i handle request).Yields (World.Constrains constraint) (· ≠ .nestingLimit)
      fun _ => True := by
  refine Eval.Yields.store.bind ?_
  intro s _
  have noted : (Eval.note (.object handle) request).Yields (World.Constrains constraint)
      (· ≠ .nestingLimit) fun _ => True :=
    fun w hw => ⟨(World.constrains_invariant constraint).note _ _ w hw, trivial⟩
  refine noted.bind ?_
  intro _ _
  obtain ⟨plain, other⟩ := alone s.calls
  cases responds : ctx.host.respond handle request s.calls with
  | answer result => exact .pure trivial
  | fail fault =>
    rw [responds] at other
    exact .throw fun limit => other (congrArg Response.fail limit)
  | ask function arguments resume =>
    rw [responds] at plain
    exact plain.elim

/-- A leaf is matched on one level. -/
theorem leaf_within_limit {t : Term} (core : t.CoreLeaf) (alone : ctx.DecidesAlone t)
    (below : Nat) :
    (interp ctx (below + 1)).Meets (World.Constrains constraint) (· ≠ .nestingLimit)
      (fun _ _ _ _ _ => True) t := by
  have invariant := World.constrains_invariant constraint
  have matched (spec value : Term) : (matchLiteral spec value).Yields (World.Constrains constraint)
      (· ≠ .nestingLimit) fun _ => True :=
    Eval.Yields.store.bind fun _ _ =>
      (Eval.Yields.ask invariant.emit _ _).bind fun _ _ => .pure trivial
  cases t with
  | str name =>
    intro value key closed
    rw [create_name]
    split
    · have resolved := resolve_faults (I := World.Constrains constraint) invariant.emit
        ctx.registry ctx.modules name
      have excused : ∀ fault, Fault.OfName name fault → fault ≠ .nestingLimit := by
        rintro _ (⟨reason, rfl⟩ | rfl) <;> nofun
      exact (resolved.excused excused).bind fun c _ =>
        (isInstance_yields invariant.emit c value).bind fun _ _ => .pure trivial
    · exact matched _ _
  | object handle =>
    obtain ⟨binds, ability⟩ := core
    intro value key closed
    cases accepts : handle.accepts with
    | true =>
      rw [create_acceptor ctx below value key closed binds accepts]
      exact (request_within_limit (alone accepts value) _).bind fun _ _ => .pure trivial
    | false =>
      have arity : handle.arity = none := ability.resolve_left (by rw [accepts]; nofun)
      rw [create_literal ctx below value key closed (Term.reading_object binds accepts arity)]
      exact matched _ _
  | _ => exact leaf_answers invariant.emit invariant.note core trivial trivial below

/-- With as many levels as the spec is deep, a match does not run out of them. -/
theorem create_within_limit {w : World} {spec : Term}
    (core : SpecTree (fun t => t.CoreLeaf ∧ ctx.DecidesAlone t) w.store.constraint spec)
    {budget : Nat} (covers : w.store.Covers budget spec) (value key : Term) (closed : Bool)
    (w' : World) :
    (interp ctx budget).create spec value key closed w ≠ .error .nestingLimit w' := by
  have yields := create_yields ctx (· ≠ .nestingLimit) (matchRules_true _)
    (World.constrains_upholds _) (fun t leaf => leaf.1.atomic)
    (fun t leaf => leaf_within_limit leaf.1 leaf.2) core covers value key closed
  exact fun limit => yields.faults (fun _ => rfl) limit rfl

end

/-- No more matches stand in one another than the spec is deep, whatever the value is. On that many
levels a match comes to its end, and it answers if names resolve and objects do; what a further
level would do is never asked for, so with any larger budget, that of the library included, the
match has the same outcome and the same effects. -/
theorem create_within_depth (ctx : Context) (w : World) {spec : Term}
    (core : SpecTree (fun t => t.CoreLeaf ∧ ctx.DecidesAlone t) w.store.constraint spec) :
    ∃ depth, w.store.depth? spec = some depth ∧ ∀ (value key : Term) (closed : Bool),
      let run := (interp ctx depth).create spec value key closed w
      (∀ w', run ≠ .error .nestingLimit w') ∧
      (SpecTree (fun t => t.CoreLeaf ∧ ctx.Answers t ∧ ctx.Resolves t) w.store.constraint spec →
        ∃ verdict w', run = .ok verdict w') ∧
      (∀ base, (interpAbove ctx base depth).create spec value key closed w = run) ∧
      (∀ budget, depth ≤ budget → (interp ctx budget).create spec value key closed w = run) ∧
      create ctx spec value key closed w = run := by
  obtain ⟨depth, deep⟩ := core.exists_depth fun t leaf => leaf.1.atomic
  have covers : w.store.Covers depth spec := ⟨depth, deep, Nat.le_refl depth⟩
  refine ⟨depth, deep, fun value key closed => ?_⟩
  have within := create_within_limit core covers value key closed
  have larger (budget : Nat) (le : depth ≤ budget) :=
    create_of_budget_le ctx le within
  refine ⟨within, fun answering => ?_, fun base => create_interpAbove ctx base within, larger, ?_⟩
  · exact create_succeeds_of_covers ctx w answering covers value key closed
  · obtain ⟨known, same, le⟩ := Store.covers_budget deep [value, key]
    cases deep.symm.trans same
    exact larger _ le

/-- A table is matched by a spec of depth nine, some of it in a constraint. Nine levels are enough,
although its cells hold lists that are nested much deeper, and eight are not. -/
theorem deep_cells_matched_within_depth :
    let ctx : Context := { Context.bare with registry := ⟨[(.str "Text", .cls .str)]⟩ }
    let w : World := { store := { cells :=
      #[⟨"row", .everyItem (.negation (.keyed (.list [.str "Text"]) (-1) none)), none⟩] } }
    let spec : Term := .strict (.map .plain [(.str "rows", .list [.var 0]),
      (.str "name", .maybe (.str "Text"))])
    let nested (levels : Nat) : Term := Nat.rec .null (fun _ x => .list [x]) levels
    let value : Term := .map .ordered [(.str "rows", .tuple [.list [nested 40, nested 50]])]
    w.store.depth? spec = some 9 ∧
      ∃ verdict w', (interp ctx 9).create spec value .null false w = .ok verdict w' ∧
        create ctx spec value .null false w = .ok verdict w' ∧
        ∃ w', (interp ctx 8).create spec value .null false w = .error .nestingLimit w' := by
  intro ctx w spec nested value
  have text : (Term.str "Text").CoreLeaf ∧ ctx.Answers (.str "Text") ∧
      ctx.Resolves (.str "Text") := ⟨trivial, trivial, fun _ => rfl⟩
  have bound : w.store.constraint 0 ≠ .null := by simp [w, Store.constraint, Store.cell]
  have names : SpecTree (fun t => t.CoreLeaf ∧ ctx.Answers t ∧ ctx.Resolves t) w.store.constraint
      (.list [.str "Text"]) := by
    refine .container rfl trivial (.array rfl) ?_
    simp only [Term.entries, Term.positions, List.forall_mem_cons]
    exact ⟨.leaf text, List.forall_mem_nil _⟩
  have rows : SpecTree (fun t => t.CoreLeaf ∧ ctx.Answers t ∧ ctx.Resolves t) w.store.constraint
      (.list [.var 0]) := by
    refine .container rfl trivial (.array rfl) ?_
    simp only [Term.entries, Term.positions, List.forall_mem_cons]
    exact ⟨.constrained bound (.everyItem (.negation (.keyed names))), List.forall_mem_nil _⟩
  have tree : SpecTree (fun t => t.CoreLeaf ∧ ctx.Answers t ∧ ctx.Resolves t) w.store.constraint
      spec := by
    refine .strict (.container rfl trivial ⟨?_, ?_⟩ ?_)
    · simp [Term.entries, Term.hashable]
    · simp [Term.entries, Term.sameKey, Term.same]
    · intro e mem
      simp only [Term.entries, List.mem_cons, List.not_mem_nil, or_false] at mem
      rcases mem with rfl | rfl
      · exact rows
      · exact .maybe (.leaf text)
  have alone := tree.mono fun t leaf => (⟨leaf.1, leaf.2.1.decidesAlone⟩ : _ ∧ ctx.DecidesAlone t)
  obtain ⟨depth, deep, each⟩ := create_within_depth ctx w alone
  have nine : w.store.depth? spec = some 9 := by decide +kernel
  cases deep.symm.trans nine
  obtain ⟨-, answers, -, -, same⟩ := each value .null false
  obtain ⟨verdict, w', run⟩ := answers tree
  exact ⟨nine, verdict, w', run, same.trans run, _, rfl⟩

end SpecMatch
