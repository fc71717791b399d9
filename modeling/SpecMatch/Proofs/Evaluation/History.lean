import SpecMatch.Describe
import SpecMatch.Proofs.Evaluation.Objection
import SpecMatch.Proofs.Evaluation.Steps
import SpecMatch.Proofs.Evaluation.Unmarked

/-!
# What the log tells of a variable

A variable is bound, reset and constrained by its owner and by every match that comes to it, also
inside constraints and also when the match fails in the end. The log tells of each binding, and of
each reset that finds a value. So its entries about one variable tell what the variable holds
(`Tale`), after any sequence of operations (`World.undergo`), some of which may fail.

An operation also ends where the log cannot write what it is told. A variable is reset only after
that was told, but it is bound before, so a binding that cannot be written leaves it bound without a
word (`unwritten_binding_untold`). Up to that, every step keeps the tale up
(`World.Remembers.step`), so every operation does. The missing mark can be bound only if it is in
what an operation is about (`World.Candid.undergo`).
-/

namespace SpecMatch

/-! ## Operations -/

/-- What the owner of variables may do. -/
inductive Operation where
  /-- Makes another variable. -/
  | declare (label : String) (constraint : Term)
  | constrain (id : Nat) (constraint : Term)
  | bind (ctx : Context) (id : Nat) (value key : Term)
  | reset (id : Nat)
  | read (id : Nat)
  | create (ctx : Context) (spec value key : Term) (closed : Bool)
  | call (ctx : Context) (function : Term) (arguments : List Term)

/-- An evaluation whose answer does not matter. -/
def Eval.ignored {α : Type} (m : Eval α) : Eval Unit := do let _ ← m

theorem Eval.Keeps.ignored {I : World → Prop} {α : Type} {m : Eval α} (keeps : m.Keeps I) :
    m.ignored.Keeps I := keeps.seq fun _ => .answer _

/-- What an operation evaluates. -/
def Operation.run : Operation → Eval Unit
  | .declare label constraint => (newVariable label constraint).ignored
  | .constrain id constraint => SpecMatch.constrain id constraint
  | .bind ctx id value key => (SpecMatch.bind ctx id value key).ignored
  | .reset id => resetCell id
  | .read id => (readCell id).ignored
  | .create ctx spec value key closed => (SpecMatch.create ctx spec value key closed).ignored
  | .call ctx function arguments => (SpecMatch.call ctx function arguments).ignored

/-- The world after an operation among objections. One that fails leaves behind what it has done so
far. -/
def World.operate (objection : Objection) (w : World) (o : Operation) : World :=
  (o.run.heeding objection).after w

/-- The world after operations, one after the other. -/
def World.undergo (objection : Objection) (w : World) (operations : List Operation) : World :=
  operations.foldl (World.operate objection) w

/-- An entry tells that a variable was bound. -/
def LogEntry.Binds (e : LogEntry) (id : Nat) : Prop := ∃ key, e.event = .bound id key

instance (e : LogEntry) (id : Nat) : Decidable (e.Binds id) :=
  decidable_of_iff ((e.event matches .bound ..) ∧ e.event.cell? = some id) <| by
    unfold LogEntry.Binds
    cases e.event <;> simp [Event.cell?]

/-- No operation ends because there is an objection to telling that a variable was bound. -/
def World.BindsFreely (objection : Objection) (id : Nat) : World → List Operation → Prop
  | _, [] => True
  | w, o :: rest =>
    (∀ e ∈ (o.run.told w).find? fun e => (objection e).isSome, ¬ e.Binds id) ∧
    (w.operate objection o).BindsFreely objection id rest

instance World.decidableBindsFreely (objection : Objection) (id : Nat) :
    ∀ (w : World) (operations : List Operation), Decidable (w.BindsFreely objection id operations)
  | _, [] => isTrue trivial
  | w, o :: rest =>
    have := decidableBindsFreely objection id (w.operate objection o) rest
    inferInstanceAs (Decidable (_ ∧ _))

/-- A property of the world that outlasts operations, since the primitive changes keep it and so do
the owner's. -/
structure World.Lasting (I : World → Prop) : Prop extends World.Invariant I where
  declare : ∀ label constraint, (newVariable label constraint).Keeps I
  constrain : ∀ id constraint, (SpecMatch.constrain id constraint).Keeps I

theorem World.Lasting.run {I : World → Prop} (hI : World.Lasting I) (o : Operation) :
    o.run.Keeps I := by
  have invariant := hI.toInvariant
  cases o with
  | declare label constraint => exact (hI.declare label constraint).ignored
  | constrain id constraint => exact hI.constrain id constraint
  | bind ctx id value key =>
    exact (bind_keeps_of_budgets fun budget =>
      bindCell_related invariant.congruence (invariant.interp ctx budget) id value key).ignored
  | reset id => exact hI.resetCell id
  | read id => exact Eval.Keeps.ignored fun _ hw => hw
  | create ctx spec value key closed =>
    exact (create_keeps_of_budgets fun budget =>
      create_keeps invariant ctx budget spec value key closed).ignored
  | call ctx function arguments =>
    exact (call_keeps_of_budgets fun budget =>
      call_keeps invariant ctx budget function arguments).ignored

/-! ## What is told -/

/-- The entries about a variable that the log of a world has gained since an earlier one. -/
def World.toldSince (w start : World) (id : Nat) : List LogEntry :=
  (w.log.toList.drop start.log.size).filter (·.event.cell? == some id)

/-- The value of a variable as an entry shows it. -/
def LogEntry.shown (e : LogEntry) (id : Nat) : Option Term := (e.store.cell id).value

theorem LogEntry.Binds.not_reset {e : LogEntry} {id : Nat} (binds : e.Binds id) (j : Nat) :
    e.event ≠ .reset j := by
  obtain ⟨key, event⟩ := binds
  simp [event]

/-- What a variable holds after what has been told of it since it was made. -/
inductive Tale (id : Nat) : Option Term → List LogEntry → Prop
  | made : Tale id none []
  | bound {held : Option Term} {told : List LogEntry} {e : LogEntry} (before : Tale id held told)
    (binds : e.Binds id) : Tale id (e.shown id) (told ++ [e])
  | reset {v : Term} {told : List LogEntry} {e : LogEntry} (before : Tale id (some v) told)
    (resets : e.event = .reset id) : Tale id none (told ++ [e])

namespace Tale

variable {id : Nat} {held : Option Term} {told : List LogEntry} (tale : Tale id held told)
include tale

/-- A variable that holds a value was bound last. -/
theorem last_binds (holds : held.isSome) : ∃ e, told.getLast? = some e ∧ e.Binds id := by
  cases tale with
  | made => cases holds
  | bound before binds => exact ⟨_, List.getLast?_concat, binds⟩
  | reset before resets => cases holds

/-- A variable that was bound last holds what was shown then. -/
theorem shown_last {e : LogEntry} (last : told.getLast? = some e) (binds : e.Binds id) :
    e.shown id = held := by
  cases tale with
  | made => cases last
  | bound before _ =>
    rw [List.getLast?_concat] at last
    cases last
    rfl
  | reset before resets =>
    rw [List.getLast?_concat] at last
    cases last
    exact absurd resets (binds.not_reset id)

/-- A reset comes right after a binding. -/
theorem before_reset {before after : List LogEntry} {e : LogEntry}
    (split : told = before ++ e :: after) (resets : e.event = .reset id) :
    ∃ e', before.getLast? = some e' ∧ e'.Binds id := by
  induction tale generalizing after with
  | made => simp at split
  | bound earlier binds ih =>
    rcases snoc_eq_split split with ⟨rfl, rfl⟩ | ⟨rest, split⟩
    · exact absurd resets (binds.not_reset id)
    · exact ih split
  | reset earlier _ ih =>
    rcases snoc_eq_split split with ⟨rfl, rfl⟩ | ⟨rest, split⟩
    · exact earlier.last_binds rfl
    · exact ih split

end Tale

/-! ## What steps tell -/

namespace World

/-- What a step adds to the log. A binding is told with the store as it is then, a reset with the
store as it was. -/
def logged (w : World) : Step → List LogEntry
  | .bind id value key => [⟨.bound id key, (w.step (.bind id value key)).store⟩]
  | .reset id => if (w.store.cell id).value.isSome then [⟨.reset id, w.store⟩] else []
  | .note .. => []
  | .tell event _ => [⟨event, w.store⟩]

theorem log_step (w : World) (s : Step) : (w.step s).log.toList = w.log.toList ++ w.logged s := by
  cases s with
  | bind id value key => exact Array.toList_push
  | reset id =>
    rw [step, log_after_resetCell, logged]
    split
    · exact Array.toList_push
    · exact (List.append_nil _).symm
  | note receiver request => exact (List.append_nil _).symm
  | tell event silent => exact Array.toList_push

theorem size_log_le_step (w : World) (s : Step) : w.log.size ≤ (w.step s).log.size := by
  have size := congrArg List.length (w.log_step s)
  rw [List.length_append] at size
  exact Nat.le.intro size.symm

/-- What a step tells is about the variable that it settles. -/
theorem cell?_of_mem_logged {w : World} {s : Step} {e : LogEntry} (mem : e ∈ w.logged s) :
    e.event.cell? = s.cell? := by
  cases s with
  | bind id value key =>
    cases List.mem_singleton.1 mem
    rfl
  | reset id =>
    rw [logged] at mem
    split at mem
    · cases List.mem_singleton.1 mem
      rfl
    · cases mem
  | note receiver request => cases mem
  | tell event silent =>
    cases List.mem_singleton.1 mem
    exact silent

section

variable {w start : World} {s : Step} {id : Nat} (later : start.log.size ≤ w.log.size)
include later

theorem toldSince_step :
    (w.step s).toldSince start id =
      w.toldSince start id ++ (w.logged s).filter (·.event.cell? == some id) := by
  rw [toldSince, log_step, List.drop_append_of_le_length later, List.filter_append, toldSince]

theorem toldSince_step_own (own : s.cell? = some id) :
    (w.step s).toldSince start id = w.toldSince start id ++ w.logged s := by
  have about : ∀ e ∈ w.logged s, (e.event.cell? == some id) = true :=
    fun e mem => beq_iff_eq.2 ((cell?_of_mem_logged mem).trans own)
  rw [toldSince_step later, List.filter_eq_self.2 about]

theorem toldSince_step_other (other : s.cell? ≠ some id) :
    (w.step s).toldSince start id = w.toldSince start id := by
  have elsewhere : ∀ e ∈ w.logged s, ¬ (e.event.cell? == some id) = true :=
    fun e mem about => other ((cell?_of_mem_logged mem).symm.trans (beq_iff_eq.1 about))
  rw [toldSince_step later, List.filter_eq_nil_iff.2 elsewhere, List.append_nil]

end

/-- What the log has told of a variable since an earlier world, when the variable was made, is what
has become of it. -/
structure Remembers (w start : World) (id : Nat) : Prop where
  inside : id < w.store.cells.size
  later : start.log.size ≤ w.log.size
  tale : Tale id (w.store.cell id).value (w.toldSince start id)

/-- What the log tells of a variable is kept up by every step. -/
theorem Remembers.step {w start : World} {id : Nat} (remembers : w.Remembers start id) (s : Step) :
    (w.step s).Remembers start id := by
  obtain ⟨inside, later, tale⟩ := remembers
  refine ⟨by simpa using inside, Nat.le_trans later (w.size_log_le_step s), ?_⟩
  by_cases own : s.cell? = some id
  · rw [toldSince_step_own later own]
    cases s with
    | bind j value key =>
      cases own
      exact .bound (e := ⟨.bound id key, (w.step (.bind id value key)).store⟩) tale ⟨key, rfl⟩
    | reset j =>
      cases own
      rw [value_step rfl inside, logged]
      cases held : (w.store.cell id).value with
      | none =>
        -- A reset that finds nothing is silent.
        rw [held] at tale
        exact (List.append_nil _).symm ▸ tale
      | some v =>
        rw [held] at tale
        exact .reset (e := ⟨.reset id, w.store⟩) tale rfl
    | note receiver request => cases own
    | tell event silent => cases own
  · rw [toldSince_step_other later own, w.cell_step own]
    exact tale

/-- Nothing is told when a variable is made. -/
theorem toldSince_newVariable (start : World) (label : String) (constraint : Term) (id : Nat) :
    ((newVariable label constraint).after start).toldSince start id = [] := by
  show (start.log.toList.drop start.log.size).filter _ = []
  rw [List.drop_of_length_le (Nat.le_of_eq Array.length_toList), List.filter_nil]

/-- A variable that has just been made is not bound, and nothing has been told of it. -/
theorem remembers_newVariable (start : World) (label : String) (constraint : Term) :
    ((newVariable label constraint).after start).Remembers start start.store.cells.size where
  inside := by
    show _ < (start.store.cells.push _).size
    rw [Array.size_push]
    exact Nat.lt_succ_self _
  later := Nat.le_refl _
  tale := by
    have made : ((newVariable label constraint).after start).store.cell start.store.cells.size =
        ⟨label, constraint, none⟩ := by
      show (start.store.cells.push _)[_]?.getD default = _
      rw [Array.getElem?_push, if_pos rfl]
      rfl
    rw [made, toldSince_newVariable]
    exact .made

/-- Another variable leaves those that are there alone. -/
theorem cell_newVariable {w : World} {id : Nat} (inside : id < w.store.cells.size) (label : String)
    (constraint : Term) :
    ((newVariable label constraint).after w).store.cell id = w.store.cell id := by
  show (w.store.cells.push ⟨label, constraint, none⟩)[id]?.getD default = _
  rw [Array.getElem?_push, if_neg (Nat.ne_of_lt inside), Store.cell]

/-- A new constraint leaves what is bound alone. -/
theorem value_constrain (w : World) (j : Nat) (constraint : Term) (id : Nat) :
    (((constrain j constraint).after w).store.cell id).value = (w.store.cell id).value := by
  show ((w.store.updateCell j ({ · with constraint := constraint })).cell id).value = _
  rcases w.store.cell_updateCell j ({ · with constraint := constraint }) id with same | new
  · rw [same]
  · rw [new]

/-- What the log tells of a variable is kept up by whatever is done. -/
theorem remembers_lasting (start : World) (id : Nat) :
    World.Lasting fun w => w.Remembers start id where
  note receiver request _ hw := hw.step (.note receiver request)
  emit event silent _ hw := hw.step (.tell event silent)
  setCell j value key _ hw := hw.step (.bind j value key)
  resetCell j _ hw := hw.step (.reset j)
  declare label constraint w hw := by
    refine ⟨?_, hw.later, ?_⟩
    · show id < (w.store.cells.push _).size
      rw [Array.size_push]
      exact Nat.lt_succ_of_lt hw.inside
    · rw [cell_newVariable hw.inside]
      exact hw.tale
  constrain j constraint w hw := by
    refine ⟨?_, hw.later, ?_⟩
    · exact (Array.size_modify ..).symm ▸ hw.inside
    · rw [value_constrain]
      exact hw.tale

/-- A binding of another variable leaves what is told of this one as it was, also before it is
told. -/
theorem Remembers.untold {w start : World} {id j : Nat} {value key : Term}
    (remembers : w.Remembers start id)
    (other : ¬ LogEntry.Binds ⟨.bound j key, ((setCell j value key).after w).store⟩ id) :
    World.Remembers ⟨((setCell j value key).after w).store, w.log⟩ start id := by
  have elsewhere : (Step.bind j value key).cell? ≠ some id := by
    intro own
    cases own
    exact other ⟨key, rfl⟩
  show World.Remembers ⟨(w.step (.bind j value key)).store, w.log⟩ start id
  refine ⟨(remembers.step (.bind j value key)).inside, remembers.later, ?_⟩
  rw [w.cell_step elsewhere]
  exact remembers.tale

end World

/-! ## Operations that are stopped -/

/-- What operations keep, step by step, also before a binding of another variable is told, is kept by
operations that are not stopped from telling of a binding of the variable. -/
theorem World.BindsFreely.keeps {I : World → Prop} {id : Nat} {objection : Objection}
    {operations : List Operation}
    (each : ∀ o ∈ operations, ∀ log, o.run.Keeps (World.AllAlong I (·.Binds id) log))
    {w : World} (hw : I w) (freely : w.BindsFreely objection id operations) :
    I (w.undergo objection operations) := by
  induction operations generalizing w with
  | nil => exact hw
  | cons o rest ih =>
    obtain ⟨first, later⟩ := List.forall_mem_cons.1 each
    obtain ⟨free, freely⟩ := freely
    exact ih later (World.AllAlong.heeding (first _) hw free) freely

/-- The tale of a variable is kept up all along. -/
theorem World.remembers_allAlong (start : World) (id : Nat) (log : List LogEntry) :
    World.Lasting (World.AllAlong (·.Remembers start id) (·.Binds id) log) :=
  have lasting := remembers_lasting start id
  { note := fun receiver request => .note (lasting.note receiver request)
    emit := fun event silent => .emit (lasting.emit event silent)
    setCell := fun j value key => .setCell (lasting.setCell j value key) fun _ hw => hw.untold
    resetCell := fun j => .resetCell (lasting.resetCell j)
    declare := fun label constraint w hw => hw.same (lasting.declare label constraint w hw.now) rfl
    constrain := fun j constraint w hw => hw.same (lasting.constrain j constraint w hw.now) rfl }

/-! ## Operations on unmarked terms -/

/-- Nothing that an operation is about has the missing mark in it. -/
def Operation.Unmarked : Operation → Prop
  | .declare _ constraint | .constrain _ constraint => constraint.Unmarked
  | .bind ctx _ value key => ctx.host.Unmarked ∧ value.Unmarked ∧ key.Unmarked
  | .reset _ | .read _ => True
  | .create ctx spec value key _ =>
    ctx.host.Unmarked ∧ spec.Unmarked ∧ value.Unmarked ∧ key.Unmarked
  | .call ctx function arguments =>
    ctx.host.Unmarked ∧ function.Unmarked ∧ ∀ x ∈ arguments, x.Unmarked

/-- What is kept as long as nothing is marked is kept by operations on unmarked terms. -/
theorem Operation.Unmarked.keeps {I : World → Prop} (hI : World.UnmarkedInvariant I)
    (declare : ∀ label constraint, constraint.Unmarked → (newVariable label constraint).Keeps I)
    (constrain : ∀ id constraint, constraint.Unmarked → (SpecMatch.constrain id constraint).Keeps I)
    {o : Operation} (unmarked : o.Unmarked) : o.run.Keeps I := by
  cases o with
  | declare label constraint => exact (declare label constraint unmarked).ignored
  | constrain id constraint => exact constrain id constraint unmarked
  | bind ctx id value key =>
    obtain ⟨host, hvalue, hkey⟩ := unmarked
    exact (bind_keeps_of_budgets fun budget =>
      (bindCell_ensures (interp_unmarked hI host budget) hI hvalue hkey id).keeps).ignored
  | reset id => exact hI.resetCell id
  | read id => exact Eval.Keeps.ignored fun _ hw => hw
  | create ctx spec value key closed =>
    obtain ⟨host, hspec, hvalue, hkey⟩ := unmarked
    exact (create_keeps_of_budgets fun budget =>
      ((interp_unmarked hI host budget).create closed hspec hvalue hkey).keeps).ignored
  | call ctx function arguments =>
    obtain ⟨host, hfunction, harguments⟩ := unmarked
    exact (call_keeps_of_budgets fun budget =>
      ((interp_unmarked hI host budget).call hfunction harguments).keeps).ignored

/-- Every binding that has been told of shows a value. -/
def World.ShowsValues (w start : World) (id : Nat) : Prop :=
  ∀ e ∈ w.toldSince start id, e.Binds id → (e.shown id).isSome

namespace World

/-- The store is unmarked, and every binding that has been told of the variable shows a value. -/
structure Candid (w start : World) (id : Nat) : Prop extends w.Remembers start id where
  unmarked : w.store.Unmarked
  shows : w.ShowsValues start id

/-- A step that binds shows the value, unless that is the mark. -/
theorem shown_of_mem_logged {w : World} {id : Nat} (inside : id < w.store.cells.size) {s : Step}
    (own : s.cell? = some id) (present : ∀ j key, s ≠ .bind j .missing key) {e : LogEntry}
    (mem : e ∈ w.logged s) (binds : e.Binds id) : (e.shown id).isSome := by
  cases s with
  | bind j value key =>
    cases List.mem_singleton.1 mem
    have shown := World.value_step own inside
    rw [LogEntry.shown, shown]
    cases value with
    | missing => exact absurd rfl (present j key)
    | _ => rfl
  | reset j =>
    rw [logged] at mem
    split at mem
    · cases List.mem_singleton.1 mem
      exact absurd rfl (binds.not_reset j)
    · cases mem
  | note receiver request => cases own
  | tell event silent => cases own

/-- Steps that bind no mark keep a world candid. -/
theorem Candid.step {w start : World} {id : Nat} (candid : w.Candid start id) {s : Step}
    (unmarked : (w.step s).store.Unmarked) (present : ∀ j key, s ≠ .bind j .missing key) :
    (w.step s).Candid start id where
  toRemembers := candid.toRemembers.step s
  unmarked := unmarked
  shows := by
    unfold ShowsValues
    by_cases own : s.cell? = some id
    · rw [toldSince_step_own candid.later own]
      exact List.forall_mem_append.2
        ⟨candid.shows, fun _ mem => shown_of_mem_logged candid.inside own present mem⟩
    · rw [toldSince_step_other candid.later own]
      exact candid.shows

theorem candid_invariant (start : World) (id : Nat) :
    World.UnmarkedInvariant fun w => w.Candid start id where
  store _ hw := hw.unmarked
  note receiver request hreceiver hrequest w hw :=
    hw.step (s := .note receiver request)
      (unmarked_invariant.note receiver request hreceiver hrequest w hw.unmarked) (by simp)
  emit event silent w hw := hw.step (s := .tell event silent) hw.unmarked (by simp)
  setCell j value key hvalue w hw :=
    hw.step (s := .bind j value key) (unmarked_invariant.setCell j value key hvalue w hw.unmarked)
      fun _ _ eq => hvalue.present (by cases eq; rfl)
  resetCell j w hw :=
    hw.step (s := .reset j) (unmarked_invariant.resetCell j w hw.unmarked) (by simp)

/-- A world stays candid all along. -/
theorem candid_allAlong (start : World) (id : Nat) (log : List LogEntry) :
    World.UnmarkedInvariant (World.AllAlong (·.Candid start id) (·.Binds id) log) :=
  have invariant := candid_invariant start id
  { store := fun _ hw => hw.now.unmarked
    note := fun receiver request hreceiver hrequest =>
      .note (invariant.note receiver request hreceiver hrequest)
    emit := fun event silent => .emit (invariant.emit event silent)
    setCell := fun j value key hvalue =>
      .setCell (invariant.setCell j value key hvalue) fun w hw other =>
        { toRemembers := hw.toRemembers.untold other
          unmarked := unmarked_invariant.setCell j value key hvalue w hw.unmarked
          shows := hw.shows }
    resetCell := fun j => .resetCell (invariant.resetCell j) }

/-- Operations on unmarked terms tell of no binding without a value. -/
theorem Candid.undergo {w start : World} {id : Nat} (candid : w.Candid start id)
    {objection : Objection} {operations : List Operation}
    (freely : w.BindsFreely objection id operations)
    (unmarked : ∀ o ∈ operations, o.Unmarked) :
    (w.undergo objection operations).Candid start id := by
  have lasting := remembers_lasting start id
  refine freely.keeps (I := (·.Candid start id)) (fun o mem log => ?_) candid
  refine (unmarked o mem).keeps (candid_allAlong start id log) ?_ ?_
  · intro label constraint hconstraint w hw
    refine hw.same ?_ rfl
    exact {
      toRemembers := lasting.declare label constraint w hw.now.toRemembers
      unmarked := hw.now.unmarked.push label hconstraint
      shows := hw.now.shows }
  · intro j constraint hconstraint w hw
    refine hw.same ?_ rfl
    exact {
      toRemembers := lasting.constrain j constraint w hw.now.toRemembers
      unmarked := hw.now.unmarked.updateCell j fun c hc => ⟨hconstraint, hc.value⟩
      shows := hw.now.shows }

end World

/-- The log tells the state of a variable, whatever has been done since the variable was made and
wherever that was objected to, as long as nothing was stopped from telling that the variable was
bound. If every binding shows a value, then it is bound exactly if the last entry about it tells of
a binding, and it always holds what such an entry shows. A reset is told only right after a binding.
As long as the missing mark is in nothing that is matched, every binding shows a value. -/
theorem log_tells_variable (objection : Objection) (start : World) (label : String)
    (constraint : Term) (operations : List Operation) :
    let id := start.store.cells.size
    let made := (newVariable label constraint).after start
    let now := made.undergo objection operations
    let told := now.toldSince start id
    let held := (now.store.cell id).value
    made.BindsFreely objection id operations →
    (now.ShowsValues start id →
      (held.isSome ↔ ∃ e, told.getLast? = some e ∧ e.Binds id)) ∧
    (∀ e, told.getLast? = some e → e.Binds id → e.shown id = held) ∧
    (∀ before e after, told = before ++ e :: after → e.event = .reset id →
      ∃ e', before.getLast? = some e' ∧ e'.Binds id) ∧
    (start.store.Unmarked → constraint.Unmarked → (∀ o ∈ operations, o.Unmarked) →
      now.ShowsValues start id) := by
  intro id made now told held freely
  have remembers : made.Remembers start id := World.remembers_newVariable start label constraint
  have tale : Tale id held told :=
    (freely.keeps (fun o _ log => (World.remembers_allAlong start id log).run o) remembers).tale
  refine ⟨fun shows => ⟨tale.last_binds, ?_⟩, fun _ => tale.shown_last,
    fun _ _ _ => tale.before_reset, fun unmarked hconstraint each => ?_⟩
  · rintro ⟨e, last, binds⟩
    rw [← tale.shown_last last binds]
    exact shows e (List.mem_of_getLast? last) binds
  · have candid : made.Candid start id :=
      { toRemembers := remembers
        unmarked := unmarked.push label hconstraint
        shows := by
          unfold World.ShowsValues
          rw [World.toldSince_newVariable]
          exact List.forall_mem_nil _ }
    exact (candid.undergo freely each).shows

/-- A variable for integers turns a text down, which is silent while it is free. A match that fails
in the end leaves it bound, and another one resets it. Another variable is bound to itself, and then
to an integer with too many digits by a match that has bound the first one before. Neither can be
written, so both operations end there. -/
theorem integer_variable_told :
    let x : Term := .var 0
    let long : Term := .int (10 ^ Term.digitLimit)
    let operations : List Operation := [
      .declare "y" .null, .bind Context.bare 0 (.str "a") .null,
      .bind Context.bare 0 (.int 1) .null, .bind Context.bare 1 (.var 1) .null,
      .create Context.bare (.list [x, .cls .str]) (.list [.int 2, .int 3]) .null false,
      .create Context.bare (.allOf [x, .builtin .isInt]) (.str "b") .null false,
      .create Context.bare (.list [x, .var 1, x]) (.list [.int 4, long, .int 5]) .null false,
      .read 0, .constrain 0 .null]
    let made := (newVariable "x" (.builtin .isInt)).after {}
    let now := made.undergo LogEntry.flaw? operations
    let told := now.toldSince {} 0
    made.BindsFreely LogEntry.flaw? 0 operations ∧
      (Store.Unmarked {} ∧ (Term.builtin .isInt).Unmarked ∧ ∀ o ∈ operations, o.Unmarked) ∧
      now.ShowsValues {} 0 ∧
      told.map (·.event matches .reset _) = [false, false, true, false] ∧
      (∃ e, told.getLast? = some e ∧ e.Binds 0) ∧ (now.store.cell 0).value.isSome := by
  intro x long operations made now told
  have freely : made.BindsFreely LogEntry.flaw? 0 operations := by decide +kernel
  have host : Context.bare.host.Unmarked := fun _ _ _ _ _ => .fail _
  have empty : Store.Unmarked {} :=
    ⟨fun _ => ⟨Term.unmarked_null, fun _ held => by cases held⟩, by simp⟩
  have constraint : (Term.builtin .isInt).Unmarked := Term.unmarked_builtin _
  have each : ∀ o ∈ operations, o.Unmarked := by
    have conjunction : (Term.allOf [x, .builtin .isInt]).Unmarked :=
      .intro (by simp) (by simp [Term.parts, x])
    simp [operations, Operation.Unmarked, host, conjunction, x, long]
  obtain ⟨bound_iff, -, -, shows⟩ :=
    log_tells_variable LogEntry.flaw? {} "x" (.builtin .isInt) operations freely
  have shows := shows empty constraint each
  have bound : (now.store.cell 0).value.isSome := by decide +kernel
  exact ⟨freely, ⟨empty, constraint, each⟩, shows, by decide +kernel, (bound_iff shows).1 bound,
    bound⟩

/-- A variable that is bound to itself or to an integer with too many digits is bound, although
nothing is told of it. -/
theorem unwritten_binding_untold :
    let now (v : Term) : World :=
      ((newVariable "x" .null).after {}).undergo LogEntry.flaw? [.bind Context.bare 0 v .null]
    let untold (v : Term) : Prop :=
      ((now v).store.cell 0).value.isSome ∧ (now v).toldSince {} 0 = []
    untold (.var 0) ∧ untold (.int (10 ^ Term.digitLimit)) := by
  intro now untold
  have untold_of {v : Term} (bound : ((now v).store.cell 0).value.isSome)
      (silent : ((now v).toldSince {} 0).isEmpty) : untold v := ⟨bound, List.isEmpty_iff.1 silent⟩
  exact ⟨untold_of (by decide +kernel) (by decide +kernel),
    untold_of (by decide +kernel) (by decide +kernel)⟩

end SpecMatch
