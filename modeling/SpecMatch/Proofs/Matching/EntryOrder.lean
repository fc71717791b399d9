import Mathlib.Algebra.BigOperators.Group.List.Basic
import Mathlib.Data.List.Perm.Basic
import SpecMatch.Proofs.Evaluation.Agreement
import SpecMatch.Proofs.Matching.Rules

/-!
# Entries in any order

The entries of a container spec are matched one after another, each against what stands under its
key. What they find belongs to these keys and not to their places, so two specs with the same keys
in another order agree if the specs under each key do (`matchEntries_agree`): they answer the same
and make the same calls, up to the order of these.
-/

namespace SpecMatch

section

variable {I I' : World → Prop} {i i' : Interp} {value : Term} {entries entries' : Entries}

/-- The match of a spec gives a verdict from some world with the invariant. -/
def Interp.Gives (i : Interp) (I : World → Prop) : MatchStatement :=
  fun spec value key closed verdict =>
    ∃ calls, (i.create spec value key closed).Answers I verdict calls

/-- The entry of a spec makes calls when it is matched against what stands under its key. -/
def Interp.Calls (i : Interp) (I : World → Prop) (value : Term) (e : Term × Term)
    (calls : Multiset Call) : Prop :=
  ∃ verdict, (i.createUnder value e).Answers I verdict calls

/-- What matching the entries of a spec finds comes from the matches of the entries, and so do the
calls. -/
theorem checkEntries_answers
    (grows : ∀ e ∈ entries, (i.createUnder value e).Grows I) :
    (checkEntries i value entries).Grows I ∧ ∀ {checked calls},
      (checkEntries i value entries).Answers I checked calls →
        checked.Finds (i.Gives I) value entries ∧
          ∃ made, entries.Forall₂ (i.Calls I value) made ∧ calls = made.sum := by
  induction entries with
  | nil =>
    refine ⟨.answer _, fun answers => ?_⟩
    obtain ⟨rfl, rfl⟩ := answers.of_pure
    exact ⟨{ verdict := nofun, present := nofun, absent := nofun, complete := by simp }, [],
      .nil, rfl⟩
  | cons e rest ih =>
    obtain ⟨first, later⟩ := List.forall_mem_cons.1 grows
    obtain ⟨grown, ih⟩ := ih later
    rw [checkEntries_cons]
    have extended (verdict : Verdict) : (do
        return (← checkEntries i value rest).extend value e.1 verdict).Grows I :=
      grown.seq fun _ => .answer _
    refine ⟨first.seq extended, fun answers => ?_⟩
    obtain ⟨verdict, own, others, matched, remaining, rfl⟩ := answers.of_bind first extended
    obtain ⟨found, others, none, ran, ended, rfl⟩ := remaining.of_bind grown fun _ => .answer _
    obtain ⟨rfl, rfl⟩ := ended.of_pure
    obtain ⟨finds, made, each, rfl⟩ := ih ran
    refine ⟨?_, own :: made, .cons ⟨verdict, matched⟩ each, by rw [List.sum_cons, add_zero]⟩
    by_cases missing : value.lookup e.1 = .missing
    · rw [Interp.createUnder, Term.under_missing missing] at matched
      rw [Checked.extend_missing missing]
      exact finds.cons_absent missing ⟨own, matched⟩
    · rw [Interp.createUnder, Term.under_present missing] at matched
      rw [Checked.extend_present missing]
      exact finds.cons_present missing ⟨own, matched⟩

end

section

variable {P P' : MatchStatement} {value spec spec' : Term} {f : Term × Term → Term}
variable {checked checked' : Checked}
variable (perm : spec'.entries.Perm (spec.entries.map fun e => (e.1, f e)))
  (finds : checked.Finds P value spec.entries) (finds' : checked'.Finds P' value spec'.entries)
  (same : ∀ e ∈ spec.entries, ∀ verdict verdict',
    P e.2 (value.under e.1).1 (value.under e.1).2 false verdict →
      P' (f e) (value.under e.1).1 (value.under e.1).2 false verdict' → verdict = verdict')
include perm finds finds' same

/-- The verdicts that are found under a key do not depend on the order of the entries. -/
theorem Checked.Finds.get?_congr (keyed : spec.WellKeyed) (key : Term) :
    checked.get? key = checked'.get? key := by
  cases found : checked.get? key with
  | some verdict =>
    obtain ⟨e, mem, sameKey, there, given⟩ := finds.of_get? found
    have partner := perm.symm.subset (List.mem_map_of_mem (f := fun e => (e.1, f e)) mem)
    obtain ⟨verdict', found'⟩ := finds'.exists_get? partner there sameKey
    obtain ⟨d', mem', sameKey', -, given'⟩ := finds'.of_get? found'
    obtain ⟨d, hd, rfl⟩ := List.mem_map.1 (perm.subset mem')
    obtain rfl := keyed.eq_of_sameKey hd mem sameKey' sameKey
    have same := same d mem verdict verdict'
    rw [Term.under_present there] at same
    rw [found', same given given']
  | none =>
    cases found' : checked'.get? key with
    | none => rfl
    | some verdict' =>
      obtain ⟨d', mem', sameKey, there, -⟩ := finds'.of_get? found'
      obtain ⟨d, hd, rfl⟩ := List.mem_map.1 (perm.subset mem')
      obtain ⟨verdict, there⟩ := finds.exists_get? hd there sameKey
      rw [found] at there
      cases there

/-- Nor does it whether something required is absent. -/
theorem Checked.Finds.incomplete_congr : checked.incomplete = checked'.incomplete := by
  cases incomplete : checked.incomplete with
  | true =>
    obtain ⟨e, mem, missing, payload, given⟩ := finds.absent incomplete
    cases incomplete' : checked'.incomplete with
    | true => rfl
    | false =>
      have partner := perm.symm.subset (List.mem_map_of_mem (f := fun e => (e.1, f e)) mem)
      obtain ⟨payload', given'⟩ := finds'.complete incomplete' _ partner missing
      have clash := same e mem (.left payload) (.right payload')
      rw [Term.under_missing missing] at clash
      cases clash given given'
  | false =>
    cases incomplete' : checked'.incomplete with
    | false => rfl
    | true =>
      obtain ⟨d, mem', missing, payload', given'⟩ := finds'.absent incomplete'
      obtain ⟨e, mem, rfl⟩ := List.mem_map.1 (perm.subset mem')
      obtain ⟨payload, given⟩ := finds.complete incomplete e mem missing
      have clash := same e mem (.right payload) (.left payload')
      rw [Term.under_missing missing] at clash
      cases clash given given'

end

section

variable {I I' : World → Prop} {i i' : Interp} {value spec spec' : Term}
variable {f : Term × Term → Term}

/-- Lists are one if each is related to a third and the relations leave no choice. -/
theorem eq_of_forall₂ {α β : Type} {R R' : α → β → Prop} {l : List α} {as bs : List β}
    (first : l.Forall₂ R as) (second : l.Forall₂ R' bs)
    (same : ∀ x ∈ l, ∀ a b, R x a → R' x b → a = b) : as = bs := by
  induction first generalizing bs with
  | nil =>
    cases second
    rfl
  | cons ha _ ih =>
    cases second with
    | cons hb second =>
      obtain ⟨head, tail⟩ := List.forall_mem_cons.1 same
      rw [head _ _ ha hb, ih second tail]

variable (keyed : spec.WellKeyed)
  (perm : spec'.entries.Perm (spec.entries.map fun e => (e.1, f e)))
  (agree : ∀ e ∈ spec.entries,
    (i.createUnder value e).Agree I I' (i'.createUnder value (e.1, f e)))
include keyed perm agree

/-- Two container specs with the same keys whose specs under each of them agree, agree. -/
theorem matchEntries_agree (closed : Bool) :
    (matchEntries i spec value closed).Agree I I' (matchEntries i' spec' value closed) := by
  have grows' : ∀ d ∈ spec'.entries, (i'.createUnder value d).Grows I' := by
    intro d mem
    obtain ⟨e, he, rfl⟩ := List.mem_map.1 (perm.subset mem)
    exact (agree e he).grows'
  obtain ⟨grown, answers⟩ := checkEntries_answers fun e mem => (agree e mem).grows
  obtain ⟨grown', answers'⟩ := checkEntries_answers grows'
  refine ⟨grown.seq fun _ => .answer _, grown'.seq fun _ => .answer _, ?_⟩
  intro verdict verdict' calls calls' run run'
  obtain ⟨checked, made, none, ran, ended, rfl⟩ := run.of_bind grown fun _ => .answer _
  obtain ⟨checked', made', none', ran', ended', rfl⟩ := run'.of_bind grown' fun _ => .answer _
  obtain ⟨rfl, rfl⟩ := ended.of_pure
  obtain ⟨rfl, rfl⟩ := ended'.of_pure
  obtain ⟨finds, parts, each, rfl⟩ := answers ran
  obtain ⟨finds', parts', each', rfl⟩ := answers' ran'
  have same : ∀ e ∈ spec.entries, ∀ verdict verdict',
      i.Gives I e.2 (value.under e.1).1 (value.under e.1).2 false verdict →
        i'.Gives I' (f e) (value.under e.1).1 (value.under e.1).2 false verdict' →
          verdict = verdict' := by
    rintro e mem verdict verdict' ⟨calls, given⟩ ⟨calls', given'⟩
    exact ((agree e mem).same given given').1
  -- The calls in the order of the first spec.
  obtain ⟨sorted, aligned, reordered⟩ := List.perm_comp_forall₂ perm.symm each'
  have sorted_eq : parts = sorted := by
    refine eq_of_forall₂ each (List.forall₂_map_left_iff.1 aligned) ?_
    rintro e mem calls calls' ⟨verdict, given⟩ ⟨verdict', given'⟩
    exact ((agree e mem).same given given').2
  refine ⟨?_, ?_⟩
  · have verdicts : entryVerdict checked closed = entryVerdict checked' closed := by
      funext e
      rw [entryVerdict, entryVerdict, finds.get?_congr perm finds' same keyed]
    rw [verdicts, finds.incomplete_congr perm finds' same]
  · rw [sorted_eq, reordered.sum_eq]

end

end SpecMatch
