import SpecMatch.Proofs.Evaluation.Budget
import SpecMatch.Proofs.Matching.Leaves

/-!
# Every element, pointwise

A quantifier matches one spec against every element of a container in a loop of its own. The map
that holds this spec under every key of the container is matched entry by entry. Both come to the
same (`create_everyItem_eq_pointwise`), whatever the spec does: the entries of the map find the
elements of the container one after the other under the same keys (`checkEntries_pointwise`), so
nothing is absent and nothing is undeclared, and the verdicts are put together in the order in which
they were found (`map_entryVerdict_zip`).
-/

namespace SpecMatch

/-- The map that holds one spec under every key of a container, in its order. -/
def Term.pointwise (x spec : Term) : Term := .map .plain (x.entries.map fun e => (e.1, spec))

/-- One spec under the keys of entries that are found in a container is matched as against each of
them. -/
theorem checkEntries_pointwise (i : Interp) (spec : Term) {x : Term} {entries : Entries}
    (found : ∀ e ∈ entries, x.lookup e.1 = e.2) (present : ∀ e ∈ entries, e.2 ≠ .missing) :
    checkEntries i x (entries.map fun e => (e.1, spec)) =
      (do return { verdicts := (entries.map (·.1)).zip (← matchEach i spec entries) }) := by
  induction entries with
  | nil => rfl
  | cons e rest ih =>
    obtain ⟨here, found⟩ := List.forall_mem_cons.1 found
    obtain ⟨there, present⟩ := List.forall_mem_cons.1 present
    rw [List.map_cons, checkEntries, here, matchEach]
    split
    · exact absurd ‹_› there
    · simp only [ih found present, bind_assoc, pure_bind, List.map_cons, List.zip_cons_cons]

/-- Under the keys of entries that differ from one another, each verdict is found in its place. -/
theorem map_entryVerdict_zip {entries : Entries} (hashable : ∀ e ∈ entries, e.1.hashable)
    (distinct : entries.Pairwise fun a b => ¬ a.1.sameKey b.1) {verdicts : List Verdict}
    (length : verdicts.length = entries.length) (closed : Bool) :
    entries.map (entryVerdict { verdicts := (entries.map (·.1)).zip verdicts } closed) =
      verdicts := by
  induction entries generalizing verdicts with
  | nil => exact (List.eq_nil_of_length_eq_zero length).symm
  | cons e rest ih =>
    obtain ⟨first, hashable⟩ := List.forall_mem_cons.1 hashable
    obtain ⟨other, distinct⟩ := List.pairwise_cons.1 distinct
    cases verdicts with
    | nil => cases length
    | cons verdict verdicts =>
      rw [List.map_cons]
      congr 1
      · have same : e.1.sameKey e.1 := Term.same_refl first
        exact entryVerdict_found ((Checked.get?_cons _ _ _ _ _).trans (if_pos same))
      · -- The verdict in front is under another key, so the rest is looked up behind it.
        refine Eq.trans (List.map_congr_left fun d mem => ?_)
          (ih hashable distinct (Nat.succ.inj length))
        rw [entryVerdict, entryVerdict, List.map_cons, List.zip_cons_cons,
          Checked.get?_cons, if_neg (other d mem)]

/-- Every element gets a verdict. -/
theorem length_of_matchEach {i : Interp} {spec : Term} {entries : Entries}
    {verdicts : List Verdict} {w w' : World}
    (run : matchEach i spec entries w = .ok verdicts w') : verdicts.length = entries.length := by
  have meets : i.Meets (fun _ => True) (fun _ => True) (fun _ _ _ _ _ => True) spec :=
    fun _ _ _ => .of_answers (fun _ _ => trivial) fun _ _ _ _ _ => trivial
  exact ((matchEach_yields meets entries).answers trivial run).length_eq.symm

theorem everyItem_container (i : Interp) (spec key : Term) {x : Term} (container : x.isContainer) :
    everyItem i spec x key = (do return gather x (← matchEach i spec x.entries)) := by
  unfold everyItem
  split
  · cases container
  · rw [if_pos container]

/-- Matching the pointwise map against the container is matching every element of it. -/
theorem matchEntries_pointwise (i : Interp) (spec key : Term) {x : Term}
    (container : x.isContainer) (keyed : x.WellKeyed) (present : ∀ e ∈ x.entries, e.2 ≠ .missing)
    (closed : Bool) : matchEntries i (x.pointwise spec) x closed = everyItem i spec x key := by
  have found : ∀ e ∈ x.entries, x.lookup e.1 = e.2 := fun e mem => by
    rw [Term.lookup, keyed.lookup?_eq mem]
    rfl
  have entries : (x.pointwise spec).entries = x.entries.map fun e => (e.1, spec) := rfl
  rw [everyItem_container i spec key container, matchEntries, entries,
    checkEntries_pointwise i spec found present]
  funext w
  simp only [bind_assoc, pure_bind]
  rw [Eval.bind_apply, Eval.bind_apply]
  cases run : matchEach i spec x.entries w with
  | ok verdicts w' =>
    dsimp only
    rw [map_entryVerdict_zip keyed.hashable keyed.distinct (length_of_matchEach run)]
    rfl
  | error fault w' => rfl

/-- Every element of a container is matched as by the map that holds the spec under each of its
keys: to the same answer or fault and in the same world, and whether that map is matched open or
closed.
This holds on every level; the library, which gives the two specs levels of their own, keeps to it
unless one of the matches runs out of them. -/
theorem create_everyItem_eq_pointwise (ctx : Context) (spec : Term) {x : Term}
    (container : x.isContainer) (keyed : x.WellKeyed) (present : ∀ e ∈ x.entries, e.2 ≠ .missing)
    (key : Term) (closed closed' : Bool) (w : World) :
    (∀ levels, (interp ctx levels).create (.everyItem spec) x key closed w =
      (interp ctx levels).create (x.pointwise spec) x key closed' w) ∧
    let run := create ctx (.everyItem spec) x key closed w
    let run' := create ctx (x.pointwise spec) x key closed' w
    run = run' ∨ (∃ v, run = .error .nestingLimit v) ∨ ∃ v, run' = .error .nestingLimit v := by
  have each (levels : Nat) : (interp ctx levels).create (.everyItem spec) x key closed w =
      (interp ctx levels).create (x.pointwise spec) x key closed' w := by
    cases levels with
    | zero => rfl
    | succ levels =>
      have byEntries : (x.pointwise spec).ByEntries := trivial
      rw [create_everyItem, create_byEntries ctx _ _ _ _ byEntries container,
        matchEntries_pointwise _ spec key container keyed present]
  exact ⟨each, create_unless_limit ctx each⟩

/-- A variable takes every value of a map in turn, under keys of several kinds, and the last one,
which it does not accept, resets it. -/
theorem values_bound_pointwise :
    let w : World := { store := { cells := #[⟨"x", .builtin .isString, none⟩] } }
    let x : Term := .map .ordered [(.str "a", .str "one"), (.null, .str "two"),
      (.tuple [.str "b"], .int 3)]
    let spec : Term := .allOf [.var 0, .recorder "seen" .null]
    create .bare (.everyItem spec) x .null false w =
        create .bare (.map .plain [(.str "a", spec), (.null, spec), (.tuple [.str "b"], spec)]) x
          .null true w ∧
      ∃ verdict w', create .bare (.everyItem spec) x .null false w = .ok verdict w' ∧
        verdict.accepted = false ∧ w'.store.calls.size = 2 ∧ (w'.store.cell 0).value = none := by
  intro w x spec
  have keyed : x.WellKeyed := by decide
  have present : ∀ e ∈ x.entries, e.2 ≠ .missing := by
    simp [x, Term.entries]
  obtain ⟨-, alike⟩ := create_everyItem_eq_pointwise .bare spec rfl keyed present .null false true w
  refine ⟨?_, _, _, rfl, rfl, rfl, rfl⟩
  rcases alike with same | ⟨v, limit⟩ | ⟨v, limit⟩
  · exact same
  · cases limit
  · cases limit

end SpecMatch
