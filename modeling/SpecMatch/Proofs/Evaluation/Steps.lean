import Mathlib.Data.List.Induction
import SpecMatch.Proofs.Evaluation.Outcome

/-!
# The steps of an evaluation

What an evaluation does to the world comes down to a sequence of steps: a variable is bound or
reset, a request is noted, an event is told (`World.perform`). An evaluation is oblivious if its
answer and its steps are the same from any two worlds that differ in nothing but the values of
variables and the log (`Eval.Oblivious`). Sequences of oblivious evaluations are oblivious
(`Eval.oblivious_compositional`), and reading the store is as far as nothing of the values is used
(`Eval.Oblivious.read`).

So much follows from the steps alone: a variable that they settle ends the same way wherever they
start (`World.value_perform_eq`), which is as the last step that settles it says
(`World.value_perform`), any other variable keeps its value (`World.cell_perform`), and if it was
bound before, then the log tells which of the two is the case (`World.tells_perform_iff`).
-/

namespace SpecMatch

/-! ## Stores up to the values of variables -/

/-- The store with all variables unbound. -/
def Store.unbound (s : Store) : Store :=
  { s with cells := s.cells.map fun c => { c with value := none } }

/-- The store with all variables bound, to nothing in particular. -/
def Store.primed (s : Store) : Store :=
  { s with cells := s.cells.map fun c => { c with value := some .null } }

namespace Store

@[simp] theorem calls_unbound (s : Store) : s.unbound.calls = s.calls := rfl

@[simp] theorem size_unbound (s : Store) : s.unbound.cells.size = s.cells.size :=
  Array.size_map

theorem cell_unbound (s : Store) (id : Nat) :
    s.unbound.cell id = { s.cell id with value := none } := by
  simp only [unbound, cell, Array.getElem?_map]
  cases s.cells[id]? <;> rfl

@[simp] theorem constraint_unbound (s : Store) (id : Nat) :
    (s.unbound.cell id).constraint = (s.cell id).constraint := by
  rw [cell_unbound]

@[simp] theorem free_unbound (s : Store) (id : Nat) :
    (s.unbound.cell id).free = (s.cell id).free := by
  rw [Cell.free, Cell.free, constraint_unbound]

theorem unbound_updateCell (s : Store) (id : Nat) (held : Option Term) :
    (s.updateCell id fun c => { c with value := held }).unbound = s.unbound := by
  refine congrArg (fun cells => Store.mk cells s.calls) (Array.ext_getElem? fun j => ?_)
  simp only [updateCell, Array.getElem?_map, Array.getElem?_modify]
  split
  · cases s.cells[j]? <;> rfl
  · rfl

theorem unbound_primed (s : Store) : s.primed.unbound = s.unbound := by
  simp only [primed, unbound, Array.map_map]
  rfl

theorem cell_primed {s : Store} {id : Nat} (inside : id < s.cells.size) :
    (s.primed.cell id).value = some .null := by
  simp [primed, cell, inside]

/-- A variable that is not there is not bound. -/
theorem cell_outside {s : Store} {id : Nat} (outside : s.cells.size ≤ id) :
    s.cell id = default := by
  rw [cell, Array.getElem?_eq_none outside]
  rfl

/-- Writing a value into a cell changes no other cell. -/
theorem value_updateCell (s : Store) (id : Nat) (held : Option Term) {j : Nat}
    (inside : j < s.cells.size) :
    ((s.updateCell id fun c => { c with value := held }).cell j).value =
      if id = j then held else (s.cell j).value := by
  simp only [updateCell, cell, Array.getElem?_modify, Array.getElem?_eq_getElem inside]
  split <;> rfl

end Store

/-! ### Budgets -/

namespace Store

/-- Depths are measured by constraints alone. -/
theorem depth?_unbound (s : Store) : s.unbound.depth? = s.depth? := by
  have within : ∀ links, s.unbound.depthWithin? links = s.depthWithin? links := by
    intro links
    induction links with
    | zero => simp only [depthWithin?, free_unbound]
    | succ links ih => simp only [depthWithin?, free_unbound, constraint_unbound, ih]
  rw [depth?, depth?, size_unbound, within]

theorem constraintNesting_unbound (s : Store) :
    s.unbound.constraintNesting = s.constraintNesting := by
  simp [constraintNesting, unbound, Function.comp_def]

theorem constraintNesting_congr {s s' : Store} (same : s.unbound.cells = s'.unbound.cells) :
    s.constraintNesting = s'.constraintNesting := by
  rw [← s.constraintNesting_unbound, ← s'.constraintNesting_unbound, constraintNesting,
    constraintNesting, same]

/-- The budget of a match does not depend on what variables are bound to. -/
theorem budget_unbound (s : Store) (spec : Term) (arguments : List Term) :
    s.unbound.budget spec arguments = s.budget spec arguments := by
  simp only [budget, constraintNesting_unbound, depth?_unbound]

end Store

/-! ## Worlds up to the values of variables -/

/-- Two worlds have the same variables with the same constraints, and the same calls. What their
variables are bound to may differ, and so may their logs. -/
def World.AgreesWith (w w' : World) : Prop := w.store.unbound = w'.store.unbound

namespace World.AgreesWith

variable {w w' : World}

theorem refl (w : World) : w.AgreesWith w := rfl

theorem symm (agrees : w.AgreesWith w') : w'.AgreesWith w := Eq.symm agrees

theorem trans {w'' : World} (agrees : w.AgreesWith w') (agrees' : w'.AgreesWith w'') :
    w.AgreesWith w'' := Eq.trans agrees agrees'

theorem calls (agrees : w.AgreesWith w') : w.store.calls = w'.store.calls := by
  have calls := congrArg Store.calls (show w.store.unbound = w'.store.unbound from agrees)
  simpa using calls

theorem size (agrees : w.AgreesWith w') : w.store.cells.size = w'.store.cells.size := by
  have size := congrArg (fun s => s.cells.size) agrees
  simpa using size

theorem constraint (agrees : w.AgreesWith w') (id : Nat) :
    (w.store.cell id).constraint = (w'.store.cell id).constraint := by
  have cell := congrArg (fun s => (s.cell id).constraint) agrees
  simpa using cell

theorem free (agrees : w.AgreesWith w') (id : Nat) :
    (w.store.cell id).free = (w'.store.cell id).free := by
  rw [Cell.free, Cell.free, agrees.constraint id]

theorem alike (agrees : w.AgreesWith w') : w.store.alike = w'.store.alike := by
  refine Store.alike_congr (fun name => ?_) ?_
  · rw [Store.recorded, Store.recorded, agrees.calls]
  · rw [Store.recordings, Store.recordings, agrees.calls]

theorem budget (agrees : w.AgreesWith w') (spec : Term) (arguments : List Term) :
    w.store.budget spec arguments = w'.store.budget spec arguments := by
  rw [← w.store.budget_unbound, agrees, w'.store.budget_unbound]

end World.AgreesWith

/-- There are always the same variables with the same constraints. -/
theorem World.cells_invariant (cells : Array Cell) :
    World.Invariant fun w => w.store.unbound.cells = cells where
  note _ _ _ hw := hw
  emit _ _ _ hw := hw
  setCell id value key w hw := by
    dsimp only
    rw [store_after_setCell, Store.unbound_updateCell]
    exact hw
  resetCell id w hw := by
    dsimp only
    rw [store_after_resetCell, Store.unbound_updateCell]
    exact hw

/-! ## Steps -/

/-- One change of the world. -/
inductive Step where
  | bind (id : Nat) (value key : Term)
  | reset (id : Nat)
  | note (receiver : Term) (request : Request)
  /-- An event about no variable is told. -/
  | tell (event : Event) (silent : event.cell? = none)

/-- The variable that a step settles. -/
def Step.cell? : Step → Option Nat
  | .bind id .. | .reset id => some id
  | _ => none

/-- The value that a step leaves in the variable that it settles. -/
def Step.held? : Step → Option Term
  | .bind _ .missing _ => none
  | .bind _ value _ => some value
  | _ => none

/-- The world after a step. -/
def World.step (w : World) : Step → World
  | .bind id value key => (setCell id value key).after w
  | .reset id => (resetCell id).after w
  | .note receiver request => (Eval.note receiver request).after w
  | .tell event _ => (Eval.emit event).after w

/-- The world after a sequence of steps. -/
def World.perform (w : World) (steps : List Step) : World := steps.foldl World.step w

namespace World

@[simp] theorem perform_nil (w : World) : w.perform [] = w := rfl

@[simp] theorem perform_cons (w : World) (s : Step) (steps : List Step) :
    w.perform (s :: steps) = (w.step s).perform steps := rfl

theorem perform_append (w : World) (steps later : List Step) :
    w.perform (steps ++ later) = (w.perform steps).perform later :=
  List.foldl_append

/-- A step binds and resets variables or makes a call. -/
theorem unbound_step (w : World) (s : Step) :
    (w.step s).store.unbound = match s with
      | .note receiver request =>
        { w.store.unbound with calls := w.store.calls.push ⟨receiver, request⟩ }
      | _ => w.store.unbound := by
  cases s with
  | bind id value key => exact w.store.unbound_updateCell id _
  | reset id =>
    dsimp only [step]
    rw [store_after_resetCell]
    exact w.store.unbound_updateCell id none
  | note receiver request => rfl
  | tell event silent => rfl

theorem AgreesWith.step {w w' : World} (agrees : w.AgreesWith w') (s : Step) :
    (w.step s).AgreesWith (w'.step s) := by
  unfold AgreesWith
  rw [unbound_step, unbound_step, agrees, agrees.calls]

theorem AgreesWith.perform {w w' : World} (agrees : w.AgreesWith w') (steps : List Step) :
    (w.perform steps).AgreesWith (w'.perform steps) := by
  induction steps generalizing w w' with
  | nil => exact agrees
  | cons s steps ih => exact ih (agrees.step s)

theorem constrains_perform {w : World} {constraint : Nat → Term}
    (constrains : w.Constrains constraint) (steps : List Step) :
    (w.perform steps).Constrains constraint := by
  induction steps generalizing w with
  | nil => exact constrains
  | cons s steps ih =>
    have invariant := World.constrains_invariant constraint
    refine ih ?_
    cases s with
    | bind id value key => exact invariant.setCell id value key w constrains
    | reset id => exact invariant.resetCell id w constrains
    | note receiver request => exact invariant.note receiver request w constrains
    | tell event silent => exact invariant.emit event silent w constrains

@[simp] theorem size_step (w : World) (s : Step) :
    (w.step s).store.cells.size = w.store.cells.size := by
  have size := congrArg (fun s => s.cells.size) (w.unbound_step s)
  cases s <;> simpa using size

@[simp] theorem size_perform (w : World) (steps : List Step) :
    (w.perform steps).store.cells.size = w.store.cells.size := by
  induction steps generalizing w with
  | nil => rfl
  | cons s steps ih => rw [perform_cons, ih, size_step]

/-! ### Variables -/

/-- A step leaves the variables that it does not settle as they are. -/
theorem cell_step (w : World) {s : Step} {id : Nat} (other : s.cell? ≠ some id) :
    (w.step s).store.cell id = w.store.cell id := by
  have frame (j : Nat) (ne : j ≠ id) (f : Cell → Cell) :
      (w.store.updateCell j f).cell id = w.store.cell id := by
    simp [Store.updateCell, Store.cell, Array.getElem?_modify, ne]
  cases s with
  | bind j value key => exact frame j (fun eq => other (congrArg some eq)) _
  | reset j =>
    dsimp only [step]
    rw [store_after_resetCell]
    exact frame j (fun eq => other (congrArg some eq)) _
  | note receiver request => rfl
  | tell event silent => rfl

/-- A step leaves its value in the variable that it settles. -/
theorem value_step {w : World} {s : Step} {id : Nat} (settles : s.cell? = some id)
    (inside : id < w.store.cells.size) : ((w.step s).store.cell id).value = s.held? := by
  cases s with
  | bind j value key =>
    cases settles
    dsimp only [step]
    rw [store_after_setCell, Store.value_updateCell _ _ _ inside, if_pos rfl]
    cases value <;> rfl
  | reset j =>
    cases settles
    dsimp only [step]
    rw [store_after_resetCell, Store.value_updateCell _ _ _ inside, if_pos rfl]
    rfl
  | note receiver request => cases settles
  | tell event silent => cases settles

/-- Variables that no step settles keep their values. -/
theorem cell_perform {id : Nat} {steps : List Step} (w : World)
    (others : ∀ s ∈ steps, s.cell? ≠ some id) :
    (w.perform steps).store.cell id = w.store.cell id := by
  induction steps generalizing w with
  | nil => rfl
  | cons s steps ih =>
    obtain ⟨first, later⟩ := List.forall_mem_cons.1 others
    exact (ih (w.step s) later).trans (w.cell_step first)

/-- A variable that was the same before, or is settled on the way, is the same afterwards. -/
theorem value_perform_eq {id : Nat} {steps : List Step} {w w' : World}
    (inside : id < w.store.cells.size) (inside' : id < w'.store.cells.size)
    (same : (w.store.cell id).value = (w'.store.cell id).value ∨ ∃ s ∈ steps, s.cell? = some id) :
    ((w.perform steps).store.cell id).value = ((w'.perform steps).store.cell id).value := by
  induction steps generalizing w w' with
  | nil => exact same.resolve_right (by simp)
  | cons s steps ih =>
    refine ih (by simpa using inside) (by simpa using inside') ?_
    by_cases settles : s.cell? = some id
    · exact .inl ((value_step settles inside).trans (value_step settles inside').symm)
    · rw [w.cell_step settles, w'.cell_step settles]
      rcases same with same | ⟨t, mem, eq⟩
      · exact .inl same
      · rcases List.mem_cons.1 mem with rfl | mem
        · exact absurd eq settles
        · exact .inr ⟨t, mem, eq⟩

/-- The last step that settles a variable decides about it. -/
theorem value_perform {id : Nat} {w : World} (inside : id < w.store.cells.size)
    (steps : List Step) :
    ((w.perform steps).store.cell id).value =
      match (steps.filter (·.cell? == some id)).getLast? with
      | none => (w.store.cell id).value
      | some s => s.held? := by
  induction steps using List.reverseRecOn with
  | nil => rfl
  | append_singleton steps s ih =>
    rw [perform_append, perform_cons, perform_nil, List.filter_append]
    by_cases settles : s.cell? = some id
    · rw [value_step settles (by simpa using inside),
        List.filter_cons_of_pos (by simpa using settles), List.filter_nil, List.getLast?_concat]
    · rw [cell_step _ settles, List.filter_cons_of_neg (by simpa using settles), List.filter_nil,
        List.append_nil, ih]

/-! ### The log -/

/-- The log tells about a variable. -/
def Tells (w : World) (id : Nat) : Prop := ∃ e ∈ w.log, e.event.cell? = some id

/-- Telling an event adds the variable that it is about. -/
theorem tells_push {w w' : World} {event : Event} {s : Store}
    (push : w'.log = w.log.push ⟨event, s⟩) (id : Nat) :
    w'.Tells id ↔ w.Tells id ∨ event.cell? = some id := by
  unfold Tells
  simp only [push, Array.mem_push, or_and_right, exists_or, exists_eq_left]

theorem log_after_resetCell (id : Nat) (w : World) :
    ((resetCell id).after w).log =
      if (w.store.cell id).value.isSome then w.log.push ⟨.reset id, w.store⟩ else w.log := by
  rw [Eval.after, resetCell_apply]

/-- A variable that is bound, or has been told about, is told about when it is settled. -/
theorem tells_step_iff {w : World} {id : Nat}
    (watched : (w.store.cell id).value.isSome ∨ w.Tells id) (s : Step) :
    (w.step s).Tells id ↔ w.Tells id ∨ s.cell? = some id := by
  cases s with
  | bind j value key =>
    have log : (w.step (.bind j value key)).log =
        w.log.push ⟨.bound j key, (w.step (.bind j value key)).store⟩ := rfl
    exact tells_push log id
  | reset j =>
    have log := log_after_resetCell j w
    by_cases bound : (w.store.cell j).value.isSome
    · rw [if_pos bound] at log
      exact tells_push log id
    · rw [if_neg bound] at log
      have kept : (w.step (.reset j)).Tells id ↔ w.Tells id := by
        unfold Tells
        rw [step, log]
      rw [kept, iff_self_or]
      intro settles
      cases settles
      exact watched.resolve_left bound
  | note receiver request => exact (or_iff_left (by simp [Step.cell?])).symm
  | tell event silent =>
    have log : (w.step (.tell event silent)).log = w.log.push ⟨event, w.store⟩ := rfl
    rw [tells_push log, silent]
    rfl

/-- The log tells about the variables that were bound before and have been settled. -/
theorem tells_perform_iff {w : World} {id : Nat} (inside : id < w.store.cells.size)
    (watched : (w.store.cell id).value.isSome ∨ w.Tells id) (steps : List Step) :
    (w.perform steps).Tells id ↔ w.Tells id ∨ ∃ s ∈ steps, s.cell? = some id := by
  induction steps generalizing w with
  | nil => simp
  | cons s steps ih =>
    have told := tells_step_iff watched s
    have watched' : ((w.step s).store.cell id).value.isSome ∨ (w.step s).Tells id := by
      by_cases settles : s.cell? = some id
      · exact .inr (told.2 (.inr settles))
      · rw [w.cell_step settles]
        exact watched.imp_right fun already => told.2 (.inl already)
    rw [perform_cons, ih (by simpa using inside) watched', told]
    simp only [List.mem_cons, or_and_right, exists_or, exists_eq_left, or_assoc]

end World

/-! ## Oblivious evaluations -/

/-- A response that does not call back. -/
def Response.Plain : Response → Prop
  | .answer _ | .fail _ => True
  | .ask .. => False

/-- The answer of an evaluation, if it does not fail. -/
def Eval.answer? {α : Type} (m : Eval α) (w : World) : Option α :=
  match m w with
  | .ok a _ => some a
  | .error _ _ => none

/-- From every world that agrees with a given one, an evaluation answers alike by the same steps. -/
def Eval.Takes {α : Type} (m : Eval α) (w : World) (answer : Option α) (steps : List Step) : Prop :=
  ∀ w', w.AgreesWith w' → m.answer? w' = answer ∧ m.after w' = w'.perform steps

/-- From worlds that agree, an evaluation gives the same answer by the same steps, all of which it
may take. The constraints of variables are given. -/
def Eval.Oblivious (constraint : Nat → Term) (may : Step → Prop) {α : Type} (m : Eval α) : Prop :=
  ∀ w, w.Constrains constraint →
    ∃ answer, ∃ steps : List Step, (∀ s ∈ steps, may s) ∧ m.Takes w answer steps

namespace Eval

section

variable {α β : Type} {m : Eval α} {f : α → Eval β} {w w' : World}

theorem ok_iff {a : α} : m w = .ok a w' ↔ m.answer? w = some a ∧ m.after w = w' := by
  unfold answer? after
  cases m w <;> simp

theorem run_bind_ok {a : α} (run : m w = .ok a w') :
    (m >>= f).answer? w = (f a).answer? w' ∧ (m >>= f).after w = (f a).after w' := by
  unfold answer? after
  rw [bind_apply, run]
  exact ⟨rfl, rfl⟩

theorem run_bind_none (failed : m.answer? w = none) :
    (m >>= f).answer? w = none ∧ (m >>= f).after w = m.after w := by
  unfold answer? at failed
  unfold answer? after
  rw [bind_apply]
  cases run : m w with
  | ok a w' =>
    rw [run] at failed
    cases failed
  | error fault w' => exact ⟨rfl, rfl⟩

end

section

variable {constraint : Nat → Term} {may : Step → Prop}

theorem Oblivious.answer {α : Type} (a : α) :
    (Pure.pure a : Eval α).Oblivious constraint may :=
  fun _ _ => ⟨some a, [], List.forall_mem_nil _, fun _ _ => ⟨rfl, rfl⟩⟩

theorem Oblivious.fail {α : Type} (fault : Fault) :
    (throw fault : Eval α).Oblivious constraint may :=
  fun _ _ => ⟨none, [], List.forall_mem_nil _, fun _ _ => ⟨rfl, rfl⟩⟩

theorem Oblivious.seq {α β : Type} {m : Eval α} {f : α → Eval β} (hm : m.Oblivious constraint may)
    (hf : ∀ a, (f a).Oblivious constraint may) : (m >>= f).Oblivious constraint may := by
  intro w constrains
  obtain ⟨answer, steps, allowed, takes⟩ := hm w constrains
  cases answer with
  | none =>
    refine ⟨none, steps, allowed, fun w' agrees => ?_⟩
    obtain ⟨failed, after⟩ := takes w' agrees
    have stops := run_bind_none (f := f) failed
    exact ⟨stops.1, stops.2.trans after⟩
  | some a =>
    obtain ⟨answer, later, allowed', goes⟩ :=
      hf a (w.perform steps) (World.constrains_perform constrains steps)
    refine ⟨answer, steps ++ later, List.forall_mem_append.2 ⟨allowed, allowed'⟩,
      fun w' agrees => ?_⟩
    have run := run_bind_ok (f := f) (ok_iff.2 (takes w' agrees))
    obtain ⟨answers, after⟩ := goes (w'.perform steps) (agrees.perform steps)
    exact ⟨run.1.trans answers, by rw [run.2, after, World.perform_append]⟩

theorem oblivious_compositional (constraint : Nat → Term) (may : Step → Prop) :
    Compositional fun _ m _ => m.Oblivious constraint may where
  answer := .answer
  fail := .fail
  seq := .seq

/-- An evaluation that always answers and does nothing but a step is oblivious. -/
theorem Oblivious.step {m : Eval Unit} {s : Step} (allowed : may s)
    (run : ∀ w, m w = .ok () (w.step s)) : m.Oblivious constraint may := fun _ _ =>
  ⟨some (), [s], List.forall_mem_singleton.2 allowed, fun w' _ => ok_iff.1 (run w')⟩

/-- What is read from the store is used as far as worlds that agree have it in common. -/
theorem Oblivious.read {α : Type} {f : Store → Eval α}
    (same : ∀ w w', World.AgreesWith w w' → f w.store = f w'.store)
    (each : ∀ w, World.Constrains constraint w → (f w.store).Oblivious constraint may) :
    (Eval.store >>= f).Oblivious constraint may := by
  intro w constrains
  obtain ⟨answer, steps, allowed, takes⟩ := each w constrains w constrains
  refine ⟨answer, steps, allowed, fun w' agrees => ?_⟩
  have read : (Eval.store >>= f).answer? w' = (f w.store).answer? w' ∧
      (Eval.store >>= f).after w' = (f w.store).after w' := by
    rw [same w w' agrees]
    exact run_bind_ok rfl
  rw [read.1, read.2]
  exact takes w' agrees

theorem Oblivious.bind {id : Nat} {value key : Term} (allowed : may (.bind id value key)) :
    (setCell id value key).Oblivious constraint may := .step allowed fun _ => rfl

theorem Oblivious.reset {id : Nat} (allowed : may (.reset id)) :
    (resetCell id).Oblivious constraint may := by
  refine .step allowed fun w => ?_
  rw [World.step, after, resetCell_apply]

theorem Oblivious.note {receiver : Term} {request : Request}
    (allowed : may (.note receiver request)) :
    (Eval.note receiver request).Oblivious constraint may := .step allowed fun _ => rfl

theorem Oblivious.emit {event : Event} {silent : event.cell? = none}
    (allowed : may (.tell event silent)) : (Eval.emit event).Oblivious constraint may :=
  .step allowed fun _ => rfl

end

end Eval

end SpecMatch
