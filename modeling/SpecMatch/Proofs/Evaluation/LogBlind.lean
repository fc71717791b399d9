import SpecMatch.Proofs.Evaluation.Invariant

/-!
# Nothing depends on what has been told

Two evaluations are blind to the log if they come to the same from worlds with the same store: to
the same answer or fault and to the same store again (`Eval.LogBlind`). An invariant of the store
may be assumed, and is kept. Evaluating twice with the same context is blind to the log
(`interp_logBlind`).
-/

namespace SpecMatch

/-- The answer or the fault of an evaluation. -/
def Eval.outcome {α : Type} (m : Eval α) (w : World) : Except Fault α :=
  match m w with
  | .ok a _ => .ok a
  | .error fault _ => .error fault

/-- Two evaluations come to the same from worlds with an invariant that differ in what has been
told, and keep the invariant. -/
def Eval.LogBlind {α : Type} (I : Store → Prop) (m m' : Eval α) : Prop :=
  ∀ w w', I w.store → w.store = w'.store →
    m.outcome w = m'.outcome w' ∧ (m.after w).store = (m'.after w').store ∧ I (m.after w).store

section

variable {I : Store → Prop} {α β : Type}

/-- Two evaluations that are blind to the log both answer the same or both fail alike. -/
theorem Eval.LogBlind.runs {m m' : Eval α} (hm : m.LogBlind I m') {w w' : World}
    (hw : I w.store) (same : w.store = w'.store) :
    (∃ a v v', m w = .ok a v ∧ m' w' = .ok a v' ∧ v.store = v'.store ∧ I v.store) ∨
      ∃ fault v v', m w = .error fault v ∧ m' w' = .error fault v' ∧ v.store = v'.store ∧
        I v.store := by
  obtain ⟨outcome, store, kept⟩ := hm w w' hw same
  unfold Eval.outcome at outcome
  unfold Eval.after at store kept
  cases run : m w <;> cases run' : m' w' <;> simp only [run, run'] at outcome store kept <;>
    cases outcome
  · exact .inl ⟨_, _, _, rfl, rfl, store, kept⟩
  · exact .inr ⟨_, _, _, rfl, rfl, store, kept⟩

theorem Eval.LogBlind.seq {m m' : Eval α} {f f' : α → Eval β} (hm : m.LogBlind I m')
    (hf : ∀ a, (f a).LogBlind I (f' a)) : (m >>= f).LogBlind I (m' >>= f') := by
  intro w w' hw same
  unfold Eval.outcome Eval.after
  rw [Eval.bind_apply, Eval.bind_apply]
  obtain ⟨a, v, v', run, run', store, kept⟩ | ⟨fault, v, v', run, run', store, kept⟩ :=
    hm.runs hw same
  · rw [run, run']
    exact hf a v v' kept store
  · rw [run, run']
    exact ⟨rfl, store, kept⟩

/-- What is done with the store may depend on the store. -/
theorem Eval.LogBlind.read {f f' : Store → Eval α} (hf : ∀ s, I s → (f s).LogBlind I (f' s)) :
    (Eval.store >>= f).LogBlind I (Eval.store >>= f') := by
  intro w w' hw same
  show (f w.store).outcome w = (f' w'.store).outcome w' ∧
    ((f w.store).after w).store = ((f' w'.store).after w').store ∧ I ((f w.store).after w).store
  rw [← same]
  exact hf w.store hw w w' hw same

/-- An evaluation that always answers and treats the store in the same way does not look at the
log. -/
theorem Eval.LogBlind.of_store {m : Eval α} (a : Store → α) (f : Store → Store)
    (keeps : m.Keeps fun w => I w.store)
    (run : ∀ w, m.outcome w = .ok (a w.store) ∧ (m.after w).store = f w.store) :
    m.LogBlind I m := by
  intro w w' hw same
  refine ⟨?_, ?_, keeps w hw⟩
  · rw [(run w).1, (run w').1, same]
  · rw [(run w).2, (run w').2, same]

theorem Eval.logBlind_observing (I : Store → Prop) :
    Eval.Observing fun _ m m' => m.LogBlind I m' where
  answer a := .of_store (fun _ => a) id (fun _ hw => hw) fun _ => ⟨rfl, rfl⟩
  fail _ := fun _ _ hw same => ⟨rfl, same, hw⟩
  seq := .seq
  store := .of_store id id (fun _ hw => hw) fun _ => ⟨rfl, rfl⟩
  emit _ _ := .of_store (fun _ => ()) id (fun _ hw => hw) fun _ => ⟨rfl, rfl⟩

/-- Binding puts the key into the log alone. -/
theorem setCell_logBlind (hI : World.Invariant fun w => I w.store) (id : Nat)
    (value key key' : Term) : (setCell id value key).LogBlind I (setCell id value key') :=
  fun w w' hw same => ⟨rfl, by rw [store_after_setCell, store_after_setCell, same],
    hI.setCell id value key w hw⟩

theorem Eval.logBlind_congruence (hI : World.Invariant fun w => I w.store) :
    Eval.Congruence fun _ m m' => m.LogBlind I m' where
  toObserving := Eval.logBlind_observing I
  note receiver request := .of_store (fun _ => ())
    (fun s => { s with calls := s.calls.push ⟨receiver, request⟩ }) (hI.note receiver request)
    fun _ => ⟨rfl, rfl⟩
  setCell id value key := setCell_logBlind hI id value key key
  resetCell id w w' hw same :=
    ⟨by rw [Eval.outcome, Eval.outcome, resetCell_apply, resetCell_apply],
      by rw [store_after_resetCell, store_after_resetCell, same], hI.resetCell id w hw⟩

/-- Two runs end in the same store, with the same fault or with answers that are related. What has
been told may differ. -/
def Eval.EndBlind (related : α → β → Prop) :
    EStateM.Result Fault World α → EStateM.Result Fault World β → Prop
  | .ok a w, .ok b w' => w.store = w'.store ∧ related a b
  | .error fault w, .error fault' w' => w.store = w'.store ∧ fault = fault'
  | _, _ => False

section

variable {γ δ : Type} {w w' : World}

/-- Two ways to go on after evaluations that are blind to the log. -/
theorem Eval.EndBlind.seq {m m' : Eval α} {f : α → Eval β} {g : α → Eval γ}
    {related : β → γ → Prop} (hm : m.LogBlind I m') (hw : I w.store) (same : w.store = w'.store)
    (each : ∀ a v v', m' w' = .ok a v' → I v.store → v.store = v'.store →
      EndBlind related (f a v) (g a v')) :
    EndBlind related ((m >>= f) w) ((m' >>= g) w') := by
  rw [Eval.bind_apply, Eval.bind_apply]
  obtain ⟨a, v, v', run, run', store, kept⟩ | ⟨fault, v, v', run, run', store, -⟩ :=
    hm.runs hw same
  · rw [run, run']
    exact each a v v' run' kept store
  · rw [run, run']
    exact ⟨store, rfl⟩

/-- A run that ends like one that answers answers as well. -/
theorem Eval.EndBlind.ok_left {related : α → β → Prop} {a : α}
    {run : EStateM.Result Fault World β} (ends : EndBlind related (.ok a w) run) :
    ∃ b w', run = .ok b w' ∧ w.store = w'.store ∧ related a b := by
  cases run with
  | ok b w' => exact ⟨b, w', rfl, ends⟩
  | error fault w' => exact ends.elim

/-- What is made of related answers. -/
theorem Eval.EndBlind.map {m : Eval α} {m' : Eval β} {related : α → β → Prop} {f : α → γ}
    {g : β → δ} {related' : γ → δ → Prop} (ends : EndBlind related (m w) (m' w'))
    (each : ∀ a b, related a b → related' (f a) (g b)) :
    EndBlind related' ((do return f (← m)) w) ((do return g (← m')) w') := by
  rw [Eval.bind_apply, Eval.bind_apply]
  cases run : m w <;> cases run' : m' w' <;> rw [run, run'] at ends
  · exact ⟨ends.1, each _ _ ends.2⟩
  · exact ends.elim
  · exact ends.elim
  · exact ends

end

/-- Nothing depends on what has been told. -/
theorem interp_logBlind (hI : World.Invariant fun w => I w.store) (ctx : Context) (levels : Nat) :
    (interp ctx levels).Related (fun _ m m' => m.LogBlind I m') (interp ctx levels) :=
  interp_related (Eval.logBlind_congruence hI) ctx 0
    ⟨fun _ _ _ _ _ _ hw same => ⟨rfl, same, hw⟩, fun _ _ _ _ hw same => ⟨rfl, same, hw⟩⟩ levels

end

end SpecMatch
