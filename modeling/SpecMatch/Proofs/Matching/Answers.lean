import Mathlib.Data.List.Forall2
import SpecMatch.Proofs.Matching.Leaves
import SpecMatch.Proofs.Term.Shape

/-!
# How answers are put together

Whatever the spec, there are four ways in which a match answers about a value: the value as a
whole, a rejection inside a rejection, an acceptance inside an acceptance, and the verdicts on the
children gathered under their keys. `AnswerRules` lists them, and a statement about values and
verdicts that is closed under them holds of every match of a core spec (`create_answers`).
-/

namespace SpecMatch

/-- A value of plain data: containers hold no key twice, and no verdict stands in it. -/
def Term.Plain (value : Term) : Prop :=
  value.Everywhere fun x => x.WellKeyed ∧ x.isVerdict = false

theorem Term.Plain.scalar {value : Term} (scalar : value.isContainer = false)
    (noVerdict : value.isVerdict = false) : value.Plain :=
  Term.Everywhere.scalar scalar ⟨.scalar scalar, noVerdict⟩

/-- A statement about values and verdicts is closed under the ways in which a match answers. -/
structure AnswerRules (Q : Term → Verdict → Prop) : Prop where
  whole {value : Term} (accepted : Bool) : value.Plain → Q value (.when accepted value)
  nested_left {value payload : Term} : Q value (.left payload) → Q value (.left (.left payload))
  nested_right {value payload : Term} : Q value (.right payload) → Q value (.right (.right payload))
  gathered {value : Term} {verdicts : List Verdict} (complete : Bool) : value.Plain →
    value.isContainer → value.entries.Forall₂ (fun e verdict => Q e.2 verdict) verdicts →
      Q value (gather value verdicts complete)

section

variable {Q : Term → Verdict → Prop} (rules : AnswerRules Q)
include rules

/-- The verdict on an entry of a container is about its child. -/
theorem AnswerRules.entryVerdict {spec value : Term} {checked : Checked}
    (finds : checked.Finds (fun _ value _ _ verdict => value.Plain → Q value verdict) value
      spec.entries) (plain : value.Plain) (closed : Bool) {e : Term × Term}
    (mem : e ∈ value.entries) : Q e.2 (entryVerdict checked closed e) := by
  cases found : checked.get? e.1 with
  | none =>
    rw [entryVerdict_undeclared found]
    exact rules.whole (!closed) (plain.child mem)
  | some verdict =>
    rw [entryVerdict_found found]
    obtain ⟨d, -, same, there, h⟩ := finds.of_get? found
    have child := Term.eq_of_lookup? plain.here.1 mem (Term.lookup?_of_lookup there) same
    rw [← child] at h
    exact h (plain.child mem)

/-- Every form of spec answers in one of the four ways. -/
theorem AnswerRules.matchRules (constraint : Nat → Term) :
    MatchRules constraint fun _ value _ _ verdict => value.Plain → Q value verdict where
  allOf_accept _ := rules.whole true
  allOf_reject _ h plain := rules.nested_left (h plain)
  anyOf_accept _ h plain := rules.nested_right (h plain)
  anyOf_reject _ := rules.whole false
  negation _ := rules.whole _
  maybe_null := rules.whole true
  maybe _ h := h
  strict h := h
  everyItem_null _ := rules.whole _
  everyItem_container container h plain := by
    have each := (List.forall₂_and_left _ _).2 ⟨fun e mem => plain.child mem, h⟩
    exact rules.gathered true plain container (each.imp fun e verdict h => h.2 h.1)
  everyItem_scalar _ _ := rules.whole false
  someItem_null _ := rules.whole _
  someItem_accept _ _ := rules.whole true
  someItem_reject _ _ := rules.whole false
  keyed_path _ _ := rules.whole _
  keyed_other _ _ := rules.whole _
  free _ := rules.whole true
  constrained _ _ := rules.whole _
  entries {_ value _ closed checked} _ _ container finds plain := by
    refine rules.gathered _ plain container ?_
    exact List.forall₂_map_right_iff.2 (List.forall₂_same.2 fun e mem =>
      rules.entryVerdict finds plain closed mem)
  scalar _ _ := rules.whole false

end

/-- On a leaf, a match answers about the value as a whole. -/
theorem LeafVerdict.exists_when {ctx : Context} {known : (String → String → Bool) → Prop}
    {said : Handle → Term → Bool → Prop} {spec value key : Term} {closed : Bool}
    {verdict : Verdict} (h : LeafVerdict ctx known said spec value key closed verdict)
    (noVerdict : value.isVerdict = false) : ∃ accepted, verdict = .when accepted value := by
  cases h with
  | identity =>
    cases value with
    | bool b => exact ⟨b, by cases b <;> rfl⟩
    | left _ | right _ => cases noVerdict
    | _ => exact ⟨true, rfl⟩
  | _ => exact ⟨_, rfl⟩

/-- Every match of a core spec answers in the four ways, whatever the objects of the host do. -/
theorem create_answers {Q : Term → Verdict → Prop} (rules : AnswerRules Q) {ctx : Context}
    {w w' : World} {spec value key : Term} {closed : Bool} {verdict : Verdict}
    (core : CoreSpec w.store.constraint spec) (plain : value.Plain)
    (run : create ctx spec value key closed w = .ok verdict w') : Q value verdict := by
  have invariant := World.constrains_invariant w.store.constraint
  have leaves (t : Term) (leaf : t.CoreLeaf) (budget : Nat) :
      (interp ctx (budget + 1)).Meets (World.Constrains w.store.constraint) (fun _ => True)
        (LeafVerdict ctx (fun _ => True) (fun _ _ _ => True)) t :=
    leaf_meets (fun _ _ => trivial) invariant.emit leaf (.inr fun _ => trivial)
      fun _ _ _ _ => request_yields_of_invariant invariant budget
  have whole (t : Term) (leaf : t.CoreLeaf) (budget : Nat) :
      (interp ctx (budget + 1)).Meets (World.Constrains w.store.constraint) (fun _ => True)
        (fun _ value _ _ verdict => value.Plain → Q value verdict) t := by
    intro value key closed
    refine (leaves t leaf budget value key closed).imp ?_
    intro verdict h plain
    obtain ⟨accepted, rfl⟩ := h.exists_when plain.here.2
    exact rules.whole accepted plain
  have yields := create_yields_budget ctx (fun _ => True) (rules.matchRules _)
    (World.constrains_upholds _) (fun _ => Term.CoreLeaf.atomic) whole core value key closed
  rw [create_apply] at run
  exact yields.answers (fun _ => rfl) run plain

end SpecMatch
