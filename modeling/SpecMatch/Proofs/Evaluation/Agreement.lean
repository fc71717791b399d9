import Mathlib.Algebra.Order.Group.Multiset
import SpecMatch.Proofs.Evaluation.Outcome

/-!
# Evaluations that agree

Two evaluations agree if they answer the same and make the same calls, in whatever order they make
them (`Eval.Agree`). They may start in different worlds, of which nothing is known but an invariant
for each of them. Agreement passes through sequencing (`Eval.agree_compositional`), and through
reading the store as far as the invariants fix what is read (`Eval.Agree.read`).

Nothing is said of faults: an evaluation that never answers agrees with any other one.
-/

namespace SpecMatch

/-- The calls so far, in no order. -/
def World.made (w : World) : Multiset Call := w.store.calls.toList

/-- The evaluation answers from a world with the invariant and makes the calls on the way. -/
def Eval.Answers (I : World → Prop) {α : Type} (m : Eval α) (a : α) (calls : Multiset Call) :
    Prop :=
  ∃ w w', I w ∧ m w = .ok a w' ∧ w'.made = w.made + calls

/-- Where the evaluation answers, it keeps the invariant and adds to the calls. -/
def Eval.Grows (I : World → Prop) {α : Type} (m : Eval α) : Prop :=
  ∀ w a w', I w → m w = .ok a w' → I w' ∧ ∃ calls, w'.made = w.made + calls

/-- Whenever both evaluations answer, they answer the same and make the same calls. -/
structure Eval.Agree (I I' : World → Prop) {α : Type} (m m' : Eval α) : Prop where
  grows : m.Grows I
  grows' : m'.Grows I'
  same : ∀ {a a' : α} {calls calls' : Multiset Call}, m.Answers I a calls →
    m'.Answers I' a' calls' → a = a' ∧ calls = calls'

section

variable {I I' : World → Prop} {α β : Type}

theorem Eval.Grows.seq {m : Eval α} {f : α → Eval β} (hm : m.Grows I)
    (hf : ∀ a, (f a).Grows I) : (m >>= f).Grows I := by
  intro w b w' hw run
  rw [Eval.bind_apply] at run
  cases first : m w with
  | ok a mid =>
    rw [first] at run
    obtain ⟨hmid, calls, made⟩ := hm w a mid hw first
    obtain ⟨hw', later, made'⟩ := hf a mid b w' hmid run
    exact ⟨hw', calls + later, by rw [made', made, add_assoc]⟩
  | error fault mid =>
    rw [first] at run
    cases run

theorem Eval.Grows.answer (a : α) : (pure a : Eval α).Grows I := by
  intro w b w' hw run
  cases run
  exact ⟨hw, 0, (add_zero _).symm⟩

theorem Eval.Answers.of_pure {a b : α} {calls : Multiset Call}
    (answers : (pure a : Eval α).Answers I b calls) : b = a ∧ calls = 0 := by
  obtain ⟨w, w', -, run, made⟩ := answers
  cases run
  exact ⟨rfl, add_eq_left.1 made.symm⟩

/-- What a sequence answers comes from its parts. -/
theorem Eval.Answers.of_bind {m : Eval α} {f : α → Eval β} (hm : m.Grows I)
    (hf : ∀ a, (f a).Grows I) {b : β} {calls : Multiset Call}
    (answers : (m >>= f).Answers I b calls) :
    ∃ a first later, m.Answers I a first ∧ (f a).Answers I b later ∧ calls = first + later := by
  obtain ⟨w, w', hw, run, made⟩ := answers
  rw [Eval.bind_apply] at run
  cases start : m w with
  | ok a mid =>
    rw [start] at run
    obtain ⟨hmid, first, made₁⟩ := hm w a mid hw start
    obtain ⟨-, later, made₂⟩ := hf a mid b w' hmid run
    refine ⟨a, first, later, ⟨w, mid, hw, start, made₁⟩, ⟨mid, w', hmid, run, made₂⟩, ?_⟩
    rw [made₂, made₁, add_assoc] at made
    exact (add_left_cancel made).symm
  | error fault mid =>
    rw [start] at run
    cases run

/-- An evaluation that always answers the same and makes certain calls agrees with itself. -/
theorem Eval.Agree.step {m : Eval α} (a : α) (calls : Multiset Call)
    (run : ∀ w, ∃ w', m w = .ok a w' ∧ w'.made = w.made + calls) (keeps : m.Keeps I)
    (keeps' : m.Keeps I') : m.Agree I I' m := by
  have grows {J : World → Prop} (keeps : m.Keeps J) : m.Grows J := by
    intro w b v hw ran
    obtain ⟨w', answers, made⟩ := run w
    cases answers.symm.trans ran
    have kept := keeps w hw
    rw [Eval.after, ran] at kept
    exact ⟨kept, calls, made⟩
  refine ⟨grows keeps, grows keeps', ?_⟩
  rintro b b' made made' ⟨w, v, -, ran, more⟩ ⟨w', v', -, ran', more'⟩
  obtain ⟨_, answers, exactly⟩ := run w
  obtain ⟨_, answers', exactly'⟩ := run w'
  cases answers.symm.trans ran
  cases answers'.symm.trans ran'
  have first := add_left_cancel (more.symm.trans exactly)
  have second := add_left_cancel (more'.symm.trans exactly')
  exact ⟨rfl, first.trans second.symm⟩

/-- Evaluations that never answer agree. -/
theorem Eval.Agree.of_fails {m m' : Eval α} (fails : ∀ w a w', m w ≠ .ok a w')
    (fails' : ∀ w a w', m' w ≠ .ok a w') : m.Agree I I' m' where
  grows w a w' _ run := absurd run (fails w a w')
  grows' w a w' _ run := absurd run (fails' w a w')
  same := by
    rintro a a' calls calls' ⟨w, w', -, run, -⟩
    exact absurd run (fails w a w')

theorem Eval.Agree.answer (a : α) : (pure a : Eval α).Agree I I' (pure a) :=
  .step a 0 (fun w => ⟨w, rfl, (add_zero _).symm⟩) (fun _ hw => hw) fun _ hw => hw

theorem Eval.Agree.seq {m m' : Eval α} {f f' : α → Eval β} (hm : m.Agree I I' m')
    (hf : ∀ a, (f a).Agree I I' (f' a)) : (m >>= f).Agree I I' (m' >>= f') where
  grows := hm.grows.seq fun a => (hf a).grows
  grows' := hm.grows'.seq fun a => (hf a).grows'
  same := by
    intro b b' calls calls' answers answers'
    obtain ⟨a, first, later, ha, hb, rfl⟩ := answers.of_bind hm.grows fun a => (hf a).grows
    obtain ⟨a', first', later', ha', hb', rfl⟩ :=
      answers'.of_bind hm.grows' fun a => (hf a).grows'
    obtain ⟨rfl, rfl⟩ := hm.same ha ha'
    obtain ⟨rfl, rfl⟩ := (hf a).same hb hb'
    exact ⟨rfl, rfl⟩

theorem Eval.agree_compositional (I I' : World → Prop) :
    Eval.Compositional fun _ m m' => m.Agree I I' m' where
  answer := .answer
  fail _ := by
    refine .of_fails (fun w a w' run => ?_) fun w a w' run => ?_
    · cases run
    · cases run
  seq := .seq

/-- Evaluations that read the store agree if what they go on with is fixed by the invariants and
agrees. -/
theorem Eval.Agree.read {f f' : Store → Eval α} {m m' : Eval α}
    (reads : ∀ w, I w → f w.store = m) (reads' : ∀ w, I' w → f' w.store = m')
    (agree : m.Agree I I' m') : (Eval.store >>= f).Agree I I' (Eval.store >>= f') where
  grows w a v hw run := agree.grows w a v hw (congrFun (reads w hw) w ▸ run)
  grows' w a v hw run := agree.grows' w a v hw (congrFun (reads' w hw) w ▸ run)
  same := by
    rintro a a' calls calls' ⟨w, v, hw, run, made⟩ ⟨w', v', hw', run', made'⟩
    exact agree.same ⟨w, v, hw, congrFun (reads w hw) w ▸ run, made⟩
      ⟨w', v', hw', congrFun (reads' w' hw') w' ▸ run', made'⟩

/-- What the fault is may depend on the store. -/
theorem Eval.Agree.fail_read (fault fault' : Store → Fault) :
    (Eval.store >>= fun s => throw (fault s) : Eval α).Agree I I'
      (Eval.store >>= fun s => throw (fault' s)) := by
  refine .of_fails (fun w a w' run => ?_) fun w a w' run => ?_
  · cases run
  · cases run

/-! ## Steps -/

theorem Eval.Agree.emit {event : Event} (keeps : (Eval.emit event).Keeps I)
    (keeps' : (Eval.emit event).Keeps I') : (Eval.emit event).Agree I I' (Eval.emit event) :=
  .step () 0 (fun _ => ⟨_, rfl, (add_zero _).symm⟩) keeps keeps'

theorem Eval.Agree.note {receiver : Term} {request : Request}
    (keeps : (Eval.note receiver request).Keeps I)
    (keeps' : (Eval.note receiver request).Keeps I') :
    (Eval.note receiver request).Agree I I' (Eval.note receiver request) := by
  refine .step () {Call.mk receiver request} (fun w => ⟨_, rfl, ?_⟩) keeps keeps'
  show ((w.store.calls.push ⟨receiver, request⟩).toList : Multiset Call) = _
  rw [Array.toList_push, ← Multiset.coe_add, Multiset.coe_singleton]
  rfl

theorem Eval.Agree.setCell {id : Nat} {value key : Term}
    (keeps : (SpecMatch.setCell id value key).Keeps I)
    (keeps' : (SpecMatch.setCell id value key).Keeps I') :
    (SpecMatch.setCell id value key).Agree I I' (SpecMatch.setCell id value key) :=
  .step () 0 (fun _ => ⟨_, rfl, (add_zero _).symm⟩) keeps keeps'

theorem Eval.Agree.resetCell {id : Nat} (keeps : (SpecMatch.resetCell id).Keeps I)
    (keeps' : (SpecMatch.resetCell id).Keeps I') :
    (SpecMatch.resetCell id).Agree I I' (SpecMatch.resetCell id) :=
  .step () 0 (fun w => ⟨_, resetCell_apply id w, (add_zero _).symm⟩) keeps keeps'

end

end SpecMatch
