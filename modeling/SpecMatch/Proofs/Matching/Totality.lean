import SpecMatch.Proofs.Matching.Questions
import SpecMatch.Proofs.Term.Rebuild

/-!
# Matching fails only where an answer is refused

Without objections a core spec always answers, whatever value and key it is given
(`create_succeeds`). Terms that cannot be ordered are rejected, a key that cannot be hashed finds
nothing, and a key that cannot be cut is no key. What is left are type names that lead to no class
and objects of the host that fail; these are the hypotheses.

But a class may refuse to say whether something is an instance of it, and an object to be compared,
and nothing stands in the way of such a refusal. A match has a verdict exactly if nothing that it
asks is refused, and otherwise it ends in a refusal (`create_ends_unless_refused`). The library has
such classes itself (`protocol_refuses`).

A match puts a container together from the verdicts on its children by replacing them. Putting it
together from pairs, which might fail, does the same (`rebuild_eq_gather`).
-/

namespace SpecMatch

/-- The payload that a match gathers for a container can be rebuilt from the verdicts under the keys
of the container. -/
theorem rebuild_eq_gather (s : Store) {x : Term} (container : x.isContainer) (keyed : x.WellKeyed)
    {verdicts : List Verdict} (length : verdicts.length = x.entries.length) (complete : Bool) :
    ∃ payload, s.rebuild x (x.rekeyed (verdicts.map (·.toTerm))) = .ok payload ∧
      gather x verdicts complete = .when (complete && verdicts.all (·.accepted)) payload := by
  have results : (verdicts.map (·.toTerm)).length = x.entries.length :=
    (List.length_map _).trans length
  exact ⟨_, Term.rebuild_rekeyed container keyed results s.describe .null, rfl⟩

/-- An evaluation asks a question. -/
def Eval.Asks {α : Type} (m : Eval α) (w : World) (question : Question) : Prop :=
  ∃ e ∈ m.told w, e.event.question? = some question

/-- What is refused is a question that is asked. -/
theorem Objection.refusing_eq_some_iff {refuses : Question → Option Fault} {e : LogEntry}
    {fault : Fault} : Objection.refusing refuses e = some fault ↔
      ∃ question, e.event.question? = some question ∧ refuses question = some fault :=
  Option.bind_eq_some_iff

/-- A core spec whose names resolve has a verdict on every value under every key, unless something
that it asks is refused, and then it ends in such a refusal. What it asks is what its leaves pose
about what the match comes to. No container that it puts together on the way fails to be rebuilt. -/
theorem create_ends_unless_refused (ctx : Context) (w : World) {leaf : Term → Prop}
    (leaves : ∀ t, leaf t → t.CoreLeaf ∧ ctx.Answers t ∧ ctx.Resolves t) {spec : Term}
    (core : SpecTree leaf w.store.constraint spec) (refuses : Question → Option Fault)
    (value key : Term) (closed : Bool) :
    let matching := create ctx spec value key closed
    let run := matching.heeding (.refusing refuses) w
    ((∃ verdict w', run = .ok verdict w') ↔
        ∀ question, matching.Asks w question → refuses question = none) ∧
      (∀ fault w', run = .error fault w' →
        ∃ question, matching.Asks w question ∧ refuses question = some fault) ∧
      (∀ question, matching.Asks w question →
        ∃ t x k, leaf t ∧ value.ComesTo key x k ∧ ctx.Poses t x question) ∧
      ∀ x : Term, x.isContainer → x.WellKeyed → ∀ verdicts : List Verdict,
        verdicts.length = x.entries.length → ∀ complete, ∃ payload,
          w.store.rebuild x (x.rekeyed (verdicts.map (·.toTerm))) = .ok payload ∧
            gather x verdicts complete = .when (complete && verdicts.all (·.accepted)) payload := by
  intro matching run
  obtain ⟨verdict, w', answers⟩ := create_succeeds ctx w (core.mono leaves) value key closed
  refine ⟨⟨?_, fun free => ⟨verdict, w', ?_⟩⟩, fun fault u ends => ?_, ?_,
    fun _ container keyed _ length complete => rebuild_eq_gather w.store container keyed length
      complete⟩
  · rintro ⟨_, _, ends⟩ question ⟨e, mem, asked⟩
    have free := (Eval.heeding_eq_ok_iff.1 ends).2 e mem
    rwa [Objection.refusing, asked] at free
  · refine Eval.heeding_eq_ok_iff.2 ⟨answers, fun e mem => ?_⟩
    cases asked : e.event.question? with
    | none => rw [Objection.refusing, asked, Option.bind_none]
    | some question =>
      rw [Objection.refusing, asked, Option.bind_some, free question ⟨e, mem, asked⟩]
  · obtain ⟨-, same⟩ | ⟨before, e, after, fault', split, -, objects, cut⟩ :=
      Eval.heeding_cases (.refusing refuses) matching w
    · cases (same.symm.trans ends).symm.trans answers
    · cases cut.symm.trans ends
      obtain ⟨question, asked, refused⟩ := Objection.refusing_eq_some_iff.1 objects
      exact ⟨question, ⟨e, split ▸ List.mem_append_cons_self, asked⟩, refused⟩
  · rintro question ⟨e, mem, asked⟩
    exact create_asks (fun t there => ⟨(leaves t there).1, (leaves t there).2.1⟩) core value key
      closed e mem question asked

/-- Nothing fits: a list is compared with a number, looked up under a tuple and a text, and its key
cannot be cut. But nothing that the library refuses is asked. -/
theorem misfits_never_fail :
    let ctx : Context := { Context.bare with registry := ⟨[(.str "Text", .cls .str)]⟩ }
    let w : World := { store := { cells := #[⟨"part", .negation (.left (.int 1)), none⟩] } }
    let spec : Term := .strict (.map .plain [
      (.int 0, .anyOf [.str "Text", .comparison ">" (.int 2), .action (.list [])]),
      (.tuple [.str "a"], .maybe (.everyItem (.var 0))),
      (.str "b", .keyed (.list [.builtin .isInt, .var 0]) (-2) (some (-1)))])
    let value : Term := .list [.list [.str "x"], .fields [("b", .null)]]
    (∃ verdict w', (create ctx spec value (.list []) false).heeding
        (.refusing Question.refusal?) w = .ok verdict w') ∧
      ∃ payload,
        w.store.rebuild value (value.rekeyed [.left .null, .right .null]) = .ok payload := by
  intro ctx w spec value
  -- The leaves that stand for none of the classes that refuse.
  let leaf (t : Term) : Prop := (t.CoreLeaf ∧ ctx.Answers t ∧ ctx.Resolves t) ∧
    ∀ x question, ctx.Poses t x question → Question.refusal? question = none
  have literal {t : Term} (core : t.CoreLeaf) (answers : ctx.Answers t) (resolves : ctx.Resolves t)
      (other : (t matches .str _ | .cls _) = false) : SpecTree leaf w.store.constraint t := by
    refine .leaf ⟨⟨core, answers, resolves⟩, fun x question posed => ?_⟩
    cases posed with
    | cls | name => cases other
    | comparison | option _ | literal _ => rfl
  have text : SpecTree leaf w.store.constraint (.str "Text") := by
    refine .leaf ⟨⟨trivial, trivial, fun _ => rfl⟩, fun x question posed => ?_⟩
    cases posed with
    | name found =>
      cases found
      rfl
    | literal _ => rfl
  have bound : w.store.constraint 0 ≠ .null := by simp [w, Store.constraint, Store.cell]
  have part : SpecTree leaf w.store.constraint (.var 0) :=
    .constrained bound (.negation (literal trivial trivial trivial rfl))
  have tree : SpecTree leaf w.store.constraint spec := by
    refine .strict (.container rfl trivial ⟨?_, ?_⟩ ?_)
    · simp [Term.entries, Term.hashable, Term.hashableAll]
    · simp [Term.entries, Term.sameKey, Term.same, Term.number?]
    · intro e mem
      simp only [Term.entries, List.mem_cons, List.not_mem_nil, or_false] at mem
      rcases mem with rfl | rfl | rfl
      · refine .anyOf ?_
        simp only [List.forall_mem_cons]
        have larger : (Term.comparison ">" (.int 2)).CoreLeaf := .inr rfl
        exact ⟨text, literal larger trivial trivial rfl, literal trivial trivial trivial rfl,
          List.forall_mem_nil _⟩
      · exact .maybe (.everyItem part)
      · refine .keyed (.container rfl trivial (.array rfl) ?_)
        simp only [Term.entries, Term.positions, List.forall_mem_cons]
        have isInt : (Term.builtin .isInt).CoreLeaf := by simp [Term.CoreLeaf]
        exact ⟨literal isInt trivial trivial rfl, part, List.forall_mem_nil _⟩
  obtain ⟨verdict_iff, -, posed, rebuilds⟩ := create_ends_unless_refused ctx w
    (fun _ there => there.1) tree Question.refusal? value (.list []) false
  obtain ⟨payload, rebuilt, -⟩ :=
    rebuilds value rfl (.array rfl) [.left .null, .right .null] rfl true
  refine ⟨verdict_iff.2 fun question asked => ?_, payload, rebuilt⟩
  obtain ⟨t, x, k, there, -, poses⟩ := posed question asked
  exact there.2 x question poses

/-- A class that describes how something is called refuses to say what its instances are, and that
ends the match of its name without a verdict. -/
theorem protocol_refuses :
    let ctx : Context := { Context.bare with
      registry := ⟨[(.str "H", .cls (.protocol "Handler"))]⟩ }
    let run := (create ctx (.str "H") (.int 5) .null false).heeding (.refusing Question.refusal?) {}
    SpecTree (fun t => t.CoreLeaf ∧ ctx.Answers t ∧ ctx.Resolves t) (World.store {}).constraint
        (.str "H") ∧
      run = .error (.misuse .instanceCheck) {} ∧ ¬ ∃ verdict w', run = .ok verdict w' := by
  intro ctx run
  have ends : run = .error (.misuse .instanceCheck) {} := rfl
  refine ⟨.leaf ⟨trivial, trivial, fun _ => rfl⟩, ends, ?_⟩
  rintro ⟨verdict, w', answers⟩
  cases ends.symm.trans answers

end SpecMatch
