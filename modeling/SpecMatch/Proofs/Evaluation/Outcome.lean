import SpecMatch.Proofs.Evaluation.Invariant

/-!
# Outcomes of evaluations

`Eval.Yields` is a triple for evaluations: from every world with an invariant, an evaluation ends in
an answer with the postcondition and a world with the invariant, or in a fault that is excused.
Excusing every fault gives partial correctness, excusing none gives total correctness.

`Eval.EndAlike` compares the ends of two runs.
-/

namespace SpecMatch

/-- From a world with the invariant, the evaluation answers as the postcondition says and keeps the
invariant, or it fails with an excuse. -/
def Eval.Yields (I : World → Prop) (excuse : Fault → Prop) {α : Type} (m : Eval α)
    (post : α → Prop) : Prop :=
  ∀ w, I w → match m w with
    | .ok a w' => I w' ∧ post a
    | .error fault _ => excuse fault

namespace Eval.Yields

variable {I : World → Prop} {excuse : Fault → Prop} {α β : Type}

theorem pure {a : α} {post : α → Prop} (h : post a) :
    (Pure.pure a : Eval α).Yields I excuse post := fun _ hw => ⟨hw, h⟩

theorem throw {fault : Fault} {post : α → Prop} (h : excuse fault) :
    (MonadExcept.throw fault : Eval α).Yields I excuse post := fun _ _ => h

theorem imp {m : Eval α} {post post' : α → Prop} (hm : m.Yields I excuse post)
    (h : ∀ a, post a → post' a) : m.Yields I excuse post' := by
  intro w hw
  have hm := hm w hw
  cases hrun : m w with
  | ok a w' =>
    rw [hrun] at hm
    exact ⟨hm.1, h a hm.2⟩
  | error fault w' =>
    rw [hrun] at hm
    exact hm

theorem excused {excuse' : Fault → Prop} {m : Eval α} {post : α → Prop}
    (hm : m.Yields I excuse post) (h : ∀ fault, excuse fault → excuse' fault) :
    m.Yields I excuse' post := by
  intro w hw
  have hm := hm w hw
  cases hrun : m w with
  | ok a w' =>
    rw [hrun] at hm
    exact hm
  | error fault w' =>
    rw [hrun] at hm
    exact h fault hm

theorem bind {m : Eval α} {f : α → Eval β} {mid : α → Prop} {post : β → Prop}
    (hm : m.Yields I excuse mid) (hf : ∀ a, mid a → (f a).Yields I excuse post) :
    (m >>= f).Yields I excuse post := by
  intro w hw
  have hm := hm w hw
  rw [Eval.bind_apply]
  cases hrun : m w with
  | ok a w' =>
    rw [hrun] at hm
    exact hf a hm.2 w' hm.1
  | error fault w' =>
    rw [hrun] at hm
    exact hm

/-- The store that is read belongs to a world with the invariant. -/
theorem store : Eval.store.Yields I excuse fun s => ∃ w, I w ∧ s = w.store :=
  fun w hw => ⟨hw, w, hw, rfl⟩

/-- Binding always succeeds. -/
theorem setCell {id : Nat} {value key : Term} (keeps : (setCell id value key).Keeps I) :
    (SpecMatch.setCell id value key).Yields I excuse fun _ => True :=
  fun w hw => ⟨keeps w hw, trivial⟩

/-- Resetting always succeeds. -/
theorem resetCell {id : Nat} (keeps : (resetCell id).Keeps I) :
    (SpecMatch.resetCell id).Yields I excuse fun _ => True := by
  intro w hw
  have kept := keeps w hw
  rw [Eval.after, resetCell_apply] at kept
  rw [resetCell_apply]
  exact ⟨kept, trivial⟩

/-- If every fault is excused, it is enough to look at the answers. -/
theorem of_answers {m : Eval α} {post : α → Prop}
    (keeps : m.Keeps I) (answers : ∀ w a w', I w → m w = .ok a w' → post a) :
    m.Yields I (fun _ => True) post := by
  intro w hw
  have after := keeps w hw
  unfold Eval.after at after
  cases hrun : m w with
  | ok a w' =>
    rw [hrun] at after
    exact ⟨after, answers w a w' hw hrun⟩
  | error fault w' => trivial

/-- Every answer is as the postcondition says. -/
theorem answers {m : Eval α} {post : α → Prop} (hm : m.Yields I excuse post) {w w' : World}
    (hw : I w) {a : α} (run : m w = .ok a w') : post a := by
  have hm := hm w hw
  rw [run] at hm
  exact hm.2

/-- Every fault is excused. -/
theorem faults {m : Eval α} {post : α → Prop} (hm : m.Yields I excuse post) {w w' : World}
    (hw : I w) {fault : Fault} (run : m w = .error fault w') : excuse fault := by
  have hm := hm w hw
  rw [run] at hm
  exact hm

/-- If no fault is excused, there is an answer. -/
theorem succeeds {m : Eval α} {post : α → Prop} (hm : m.Yields I (fun _ => False) post)
    {w : World} (hw : I w) : ∃ a w', m w = .ok a w' := by
  have hm := hm w hw
  cases run : m w with
  | ok a w' => exact ⟨a, w', rfl⟩
  | error fault w' =>
    rw [run] at hm
    exact hm.elim

end Eval.Yields

/-- Two runs end alike: in the same world, with the same fault or with answers that are related. -/
def Eval.EndAlike {α β : Type} (related : α → β → Prop) :
    EStateM.Result Fault World α → EStateM.Result Fault World β → Prop
  | .ok a w, .ok b w' => w = w' ∧ related a b
  | .error fault w, .error fault' w' => w = w' ∧ fault = fault'
  | _, _ => False

namespace Eval.EndAlike

variable {α β γ : Type} {m : Eval α} {w : World}

theorem refl {related : α → α → Prop} (same : ∀ a, related a a) : EndAlike related (m w) (m w) := by
  cases m w with
  | ok a w' => exact ⟨rfl, same a⟩
  | error fault w' => exact ⟨rfl, rfl⟩

/-- Two ways to go on after the same evaluation end alike if they do after every answer. -/
theorem seq {f : α → Eval β} {g : α → Eval γ} {related : β → γ → Prop}
    (each : ∀ a w', m w = .ok a w' → EndAlike related (f a w') (g a w')) :
    EndAlike related ((m >>= f) w) ((m >>= g) w) := by
  rw [bind_apply, bind_apply]
  cases run : m w with
  | ok a w' => exact each a w' run
  | error fault w' => exact ⟨rfl, rfl⟩

/-- Evaluations that end alike may be continued in ways that end alike. -/
theorem bind {δ : Type} {m' : Eval β} {f : α → Eval γ} {g : β → Eval δ} {first : α → β → Prop}
    {related : γ → δ → Prop} (alike : EndAlike first (m w) (m' w))
    (each : ∀ a b w', first a b → EndAlike related (f a w') (g b w')) :
    EndAlike related ((m >>= f) w) ((m' >>= g) w) := by
  rw [bind_apply, bind_apply]
  cases run : m w <;> cases run' : m' w <;> rw [run, run'] at alike
  · obtain ⟨rfl, answers⟩ := alike
    exact each _ _ _ answers
  · exact alike.elim
  · exact alike.elim
  · exact alike

/-- What is made of the answers of one evaluation ends alike if it is related for every answer. -/
theorem of_answers {f : α → β} {g : α → γ} {related : β → γ → Prop}
    (answers : ∀ a w', m w = .ok a w' → related (f a) (g a)) :
    EndAlike related ((do return f (← m)) w) ((do return g (← m)) w) :=
  seq fun a w' run => ⟨rfl, answers a w' run⟩

/-- A run that ends like one that fails fails with the same fault. -/
theorem error_left {related : α → β → Prop} {run : EStateM.Result Fault World β} {fault : Fault}
    (alike : EndAlike related (.error fault w) run) : run = .error fault w := by
  cases run with
  | ok a w' => exact alike.elim
  | error fault' w' =>
    obtain ⟨rfl, rfl⟩ := alike
    rfl

end Eval.EndAlike

end SpecMatch
