import SpecMatch.Proofs.Evaluation.Congruence

/-!
# What evaluations keep

A property of the world is kept by an evaluation if the world has it afterwards, whether the
evaluation answers or fails (`Eval.Keeps`). If the primitive changes keep it (`World.Invariant`),
then so does matching and calling with any budget, whatever the objects of the host do
(`create_keeps`, `call_keeps`).

No evaluation changes the constraint of a variable (`World.constrains_invariant`).
-/

namespace SpecMatch

section

variable {α β : Type}

@[simp] theorem Eval.pure_apply (a : α) (w : World) : (pure a : Eval α) w = .ok a w := rfl

@[simp] theorem Eval.throw_apply (fault : Fault) (w : World) :
    (throw fault : Eval α) w = .error fault w := rfl

theorem Eval.bind_apply (m : Eval α) (f : α → Eval β) (w : World) :
    (m >>= f) w = match m w with
      | .ok a w' => f a w'
      | .error fault w' => .error fault w' := by
  show EStateM.bind m f w = _
  unfold EStateM.bind
  cases m w <;> rfl

@[simp] theorem Eval.store_apply (w : World) : Eval.store w = .ok w.store w := rfl

end

/-- An evaluation keeps a property of the world. -/
def Eval.Keeps (I : World → Prop) {α : Type} (m : Eval α) : Prop := ∀ w, I w → I (m.after w)

/-- A property of the world that the primitive changes keep. -/
structure World.Invariant (I : World → Prop) : Prop where
  note : ∀ receiver request, (Eval.note receiver request).Keeps I
  emit : ∀ event : Event, event.cell? = none → (Eval.emit event).Keeps I
  setCell : ∀ id value key, (setCell id value key).Keeps I
  resetCell : ∀ id, (resetCell id).Keeps I

section

variable {I : World → Prop}

/-- What comes after an answer may depend on the answer. -/
theorem Eval.Keeps.bind {α β : Type} {m : Eval α} {f : α → Eval β} (hm : m.Keeps I)
    (hf : ∀ w a w', I w → m w = .ok a w' → (f a).Keeps I) : (m >>= f).Keeps I := by
  intro w hw
  have hm := hm w hw
  unfold Eval.after at hm ⊢
  rw [Eval.bind_apply]
  cases hrun : m w with
  | ok a w' =>
    rw [hrun] at hm
    exact hf w a w' hw hrun w' hm
  | error fault w' =>
    rw [hrun] at hm
    exact hm

theorem Eval.Keeps.seq {α β : Type} {m : Eval α} {f : α → Eval β} (hm : m.Keeps I)
    (hf : ∀ a, (f a).Keeps I) : (m >>= f).Keeps I := hm.bind fun _ a _ _ _ => hf a

theorem Eval.Keeps.answer {α : Type} (a : α) : (pure a : Eval α).Keeps I := fun _ hw => hw

theorem Eval.keeps_compositional (I : World → Prop) :
    Eval.Compositional fun _ m _ => m.Keeps I where
  answer := .answer
  fail _ _ hw := hw
  seq := .seq

/-- Keeping an invariant is a relation of an evaluation with itself. -/
theorem World.Invariant.congruence (hI : World.Invariant I) :
    Eval.Congruence fun _ m _ => m.Keeps I where
  toCompositional := Eval.keeps_compositional I
  store _ hw := hw
  note := hI.note
  emit := hI.emit
  setCell := hI.setCell
  resetCell := hI.resetCell

theorem World.Invariant.interp (hI : World.Invariant I) (ctx : Context) (budget : Nat) :
    (interp ctx budget).Related (fun _ m _ => m.Keeps I) (interp ctx budget) :=
  interp_related hI.congruence ctx 0 ⟨fun _ _ _ _ _ hw => hw, fun _ _ _ hw => hw⟩ budget

/-- Matching keeps an invariant of the world, whether it answers or fails. -/
theorem create_keeps (hI : World.Invariant I) (ctx : Context) (budget : Nat)
    (spec value key : Term) (closed : Bool) :
    ((interp ctx budget).create spec value key closed).Keeps I :=
  (hI.interp ctx budget).create spec value key closed

/-- Calling keeps an invariant of the world, whether it answers or fails. -/
theorem call_keeps (hI : World.Invariant I) (ctx : Context) (budget : Nat) (f : Term)
    (arguments : List Term) : ((interp ctx budget).call f arguments).Keeps I :=
  (hI.interp ctx budget).call f arguments

end

/-! ## The budget of the library -/

theorem create_apply (ctx : Context) (spec value key : Term) (closed : Bool) (w : World) :
    create ctx spec value key closed w =
      (interp ctx (w.store.budget spec [value, key])).create spec value key closed w := rfl

section

variable {I : World → Prop} {ctx : Context}

/-- A function of the library keeps what it keeps with every budget. -/
theorem create_keeps_of_budgets {spec value key : Term} {closed : Bool}
    (keeps : ∀ budget, ((interp ctx budget).create spec value key closed).Keeps I) :
    (create ctx spec value key closed).Keeps I :=
  fun w hw => keeps (w.store.budget spec [value, key]) w hw

theorem call_keeps_of_budgets {f : Term} {arguments : List Term}
    (keeps : ∀ budget, ((interp ctx budget).call f arguments).Keeps I) :
    (call ctx f arguments).Keeps I :=
  fun w hw => keeps (w.store.budget f arguments) w hw

theorem bind_keeps_of_budgets {id : Nat} {value key : Term}
    (keeps : ∀ budget, (bindCell (interp ctx budget) id value key).Keeps I) :
    (bind ctx id value key).Keeps I :=
  fun w hw => keeps (w.store.budget (.var id) [value, key]) w hw

end

/-! ## The cells of variables -/

/-- Binding writes the value of one cell; the missing mark leaves it empty. -/
theorem store_after_setCell (id : Nat) (value key : Term) (w : World) :
    ((setCell id value key).after w).store =
      w.store.updateCell id fun c =>
        { c with value := match value with
          | .missing => none
          | _ => some value } := rfl

/-- Resetting always succeeds: it empties one cell, and tells so if there was a value in it. -/
theorem resetCell_apply (id : Nat) (w : World) :
    resetCell id w = .ok () {
      store := w.store.updateCell id fun c => { c with value := none }
      log :=
        if (w.store.cell id).value.isSome then w.log.push ⟨.reset id, w.store⟩ else w.log } := by
  unfold resetCell
  rw [Eval.bind_apply]
  dsimp only [Eval.store_apply]
  by_cases bound : (w.store.cell id).value.isSome
  · rw [if_pos bound, if_pos bound]
    rfl
  · rw [if_neg bound, if_neg bound]
    rfl

theorem store_after_resetCell (id : Nat) (w : World) :
    ((resetCell id).after w).store = w.store.updateCell id fun c => { c with value := none } := by
  rw [Eval.after, resetCell_apply]

/-- Writing the value of a cell changes no constraint. -/
theorem Store.constraint_updateCell (s : Store) (id : Nat) (held : Option Term) (j : Nat) :
    ((s.updateCell id fun c => { c with value := held }).cell j).constraint =
      (s.cell j).constraint := by
  simp only [Store.updateCell, Store.cell, Array.getElem?_modify]
  split
  · cases s.cells[j]? <;> rfl
  · rfl

/-- The variables of a world have the given constraints. -/
def World.Constrains (constraint : Nat → Term) (w : World) : Prop :=
  ∀ id, (w.store.cell id).constraint = constraint id

/-- Constraints are fixed: binding and resetting touch the value alone. -/
theorem World.constrains_invariant (constraint : Nat → Term) :
    World.Invariant (World.Constrains constraint) where
  note _ _ _ hw := hw
  emit _ _ _ hw := hw
  setCell id value key w hw j := by
    rw [store_after_setCell]
    exact (w.store.constraint_updateCell id _ j).trans (hw j)
  resetCell id w hw j := by
    rw [store_after_resetCell]
    exact (w.store.constraint_updateCell id _ j).trans (hw j)

/-! ## What has been asked -/

/-- How memories compare depends on what was recorded and on how much it was. -/
theorem Store.alike_congr {s s' : Store} (recorded : ∀ name, s.recorded name = s'.recorded name)
    (recordings : s.recordings = s'.recordings) : s.alike = s'.alike := by
  have within : ∀ depth, s.alikeWithin depth = s'.alikeWithin depth := by
    intro depth
    induction depth with
    | zero => rfl
    | succ depth ih =>
      funext m n
      rw [alikeWithin, alikeWithin, ih, recorded, recorded]
  rw [alike, alike, within, recordings]

theorem Store.alike_updateCell (s : Store) (id : Nat) (f : Cell → Cell) :
    (s.updateCell id f).alike = s.alike := alike_congr (fun _ => rfl) rfl

/-- What is asked of something without a memory leaves no trace. -/
theorem Store.alike_push (s : Store) {receiver : Term} (forgets : receiver.memory? = none)
    (request : Request) :
    Store.alike { s with calls := s.calls.push ⟨receiver, request⟩ } = s.alike := by
  refine alike_congr (fun name => ?_) ?_
  · simp [recorded, forgets]
  · simp [recordings, forgets]

end SpecMatch
