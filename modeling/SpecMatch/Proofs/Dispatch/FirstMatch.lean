import SpecMatch.Proofs.Dispatch.Rewriting
import SpecMatch.Proofs.Evaluation.LogBlind
import SpecMatch.Proofs.Evaluation.Steps
import SpecMatch.Proofs.Spec.Tree

/-!
# The first case that accepts

A dispatch table stops at the first case that accepts or fails, so the cases behind it have no
effect at all; and the cases before it have no other effect than that of their specs
(`call_append`). Running a table is trying its cases in order (`runCases_append`), but a handler is
handed the table that it stands in, and what is told counts the cases of that table. A handler that
ignores the table (`Context.IgnoresTable`) does the same in all tables, and nothing depends on what
was told (`interp_logBlind`).
-/

namespace SpecMatch

/-! ## Observations -/

/-- A call without the table that a handler is handed after the value and its key. -/
def Call.withoutTable (c : Call) : Call :=
  match c.request with
  | .call (value :: key :: _) => ⟨c.receiver, .call [value, key]⟩
  | _ => c

/-- What an evaluation comes to, apart from what it tells. -/
structure Observation (α : Type) where
  outcome : Except Fault α
  cells : Array Cell
  calls : List Call

/-- What can be observed of an evaluation. -/
def Eval.observed {α : Type} (m : Eval α) (w : World) : Observation α where
  outcome := m.outcome w
  cells := (m.after w).store.cells
  calls := (m.after w).store.calls.toList.map Call.withoutTable

section

variable {α β : Type}

theorem Eval.observed_bind_ok {m : Eval α} {f : α → Eval β} {w w' : World} {a : α}
    (run : m w = .ok a w') : (m >>= f).observed w = (f a).observed w' := by
  unfold observed outcome after
  rw [Eval.bind_apply, run]

theorem Eval.observed_bind_error {m : Eval α} {f : α → Eval β} {w w' : World} {fault : Fault}
    (run : m w = .error fault w') : (m >>= f).observed w = (throw fault : Eval β).observed w' := by
  unfold observed outcome after
  rw [Eval.bind_apply, run]
  rfl

/-- Evaluations that run alike are observed alike. -/
theorem Eval.observed_congr {m m' : Eval α} {w w' : World} (same : m w = m' w') :
    m.observed w = m'.observed w' := by
  unfold observed outcome after
  rw [same]

theorem Eval.LogBlind.observed {m m' : Eval α} (blind : m.LogBlind (fun _ => True) m')
    {w w' : World} (same : w.store = w'.store) : m.observed w = m'.observed w' := by
  obtain ⟨outcome, store, -⟩ := blind w w' trivial same
  rw [Eval.observed, Eval.observed, outcome, store]

end

theorem World.invariant_true : World.Invariant fun _ => True :=
  ⟨fun _ _ _ _ => trivial, fun _ _ _ _ => trivial, fun _ _ _ _ _ => trivial,
    fun _ _ _ => trivial⟩

/-! ## Handlers that ignore their table -/

/-- What a call hands on besides the value and its key is not observed, if the response does not
hand it on either. -/
theorem observed_note_table {response : Response} (plain : response.Plain) (i : Interp)
    (receiver value key table : Term) (w : World) :
    (do
      Eval.note receiver (.call [value, key, table])
      response.run i : Eval Term).observed w =
    (do
      Eval.note receiver (.call [value, key])
      response.run i : Eval Term).observed w := by
  have calls (request : Request) :
      (w.store.calls.push ⟨receiver, request⟩).toList.map Call.withoutTable =
        w.store.calls.toList.map Call.withoutTable ++
          [Call.withoutTable ⟨receiver, request⟩] := by
    rw [Array.toList_push, List.map_append]
    rfl
  have same := (calls (.call [value, key, table])).trans (calls (.call [value, key])).symm
  cases response with
  | answer result => exact congrArg (Observation.mk (.ok result) w.store.cells) same
  | fail fault => exact congrArg (Observation.mk (.error fault) w.store.cells) same
  | ask => exact plain.elim

/-- Running a handler comes to the same whatever table it is handed. -/
def Context.IgnoresTable (ctx : Context) (handler : Term) : Prop :=
  ∀ levels value key self self' w,
    (runHandler (interp ctx levels) self value key handler).observed w =
      (runHandler (interp ctx levels) self' value key handler).observed w

namespace Context.IgnoresTable

variable {ctx : Context}

/-- Actions, templates and plain results are handed no table. -/
theorem of_not_callable {handler : Term} (notCallable : handler.isCallable = false) :
    ctx.IgnoresTable handler := by
  intro levels value key self self' w
  have same : runHandler (interp ctx levels) self value key handler =
      runHandler (interp ctx levels) self' value key handler := by
    cases handler <;> first | rfl | cases notCallable | simp only [runHandler, notCallable]; rfl
  rw [same]

/-- Variables are read whatever they are handed. -/
theorem var (id : Nat) : ctx.IgnoresTable (.var id) := by
  intro levels value key self self' w
  cases levels <;> rfl

/-- A table that is a handler hands itself to its own handlers. -/
theorem dispatcher (cases : List (Term × Term)) : ctx.IgnoresTable (.dispatcher cases) := by
  intro levels value key self self' w
  cases levels <;> rfl

/-- A recorder notes what it is called with and answers what it always answers. -/
theorem recorder (name : String) (result : Term) : ctx.IgnoresTable (.recorder name result) := by
  intro levels value key self self' w
  cases levels with
  | zero => rfl
  | succ levels =>
    have plain : (Response.answer result).Plain := trivial
    have noted := observed_note_table plain (interp ctx levels) (.recorder name result) value key
    exact (noted self w).trans (noted self' w).symm

/-- An object ignores the table if it answers without calling back, and the same to all tables. -/
theorem object {handle : Handle}
    (ignores : ∀ value key self self' calls,
      ctx.host.respond handle (.call [value, key, self]) calls =
        ctx.host.respond handle (.call [value, key, self']) calls)
    (plain : ∀ request calls, (ctx.host.respond handle request calls).Plain) :
    ctx.IgnoresTable (.object handle) := by
  cases arity : handle.arity with
  | none => exact of_not_callable (by rw [Term.isCallable, Term.arity?, arity]; rfl)
  | some a =>
    intro levels value key self self' w
    cases levels with
    | zero =>
      have ran (table : Term) : runHandler (interp ctx 0) table value key (.object handle) =
          throw .nestingLimit := by
        simp [runHandler, Term.isCallable, Term.arity?, arity, interp, Interp.exhausted]
      rw [ran, ran]
    | succ levels =>
      have ran (table : Term) :
          runHandler (interp ctx (levels + 1)) table value key (.object handle) =
            if a.admits 3 then ctx.request (interp ctx levels) handle (.call [value, key, table])
            else Eval.misuse .argumentCount := by
        simp [runHandler, Term.isCallable, Term.arity?, arity, interp, callAt, applyTo]
      rw [ran, ran]
      split
      · have noted (table : Term) := observed_note_table
          (plain (.call [value, key, table]) w.store.calls) (interp ctx levels) (.object handle)
          value key table w
        have same := ignores value key self self' w.store.calls
        calc (ctx.request (interp ctx levels) handle (.call [value, key, self])).observed w
            = _ := Eval.observed_bind_ok rfl
          _ = _ := noted self
          _ = _ := by rw [same]
          _ = _ := (noted self').symm
          _ = (ctx.request (interp ctx levels) handle (.call [value, key, self'])).observed w :=
            (Eval.observed_bind_ok rfl).symm
      · rfl

end Context.IgnoresTable

/-! ## Tables in a row -/

/-- Whether the spec of some case accepts, the specs being evaluated in order up to that one. -/
def someAccepts (i : Interp) (value key : Term) : List (Term × Term) → Eval Bool
  | [] => pure false
  | (spec, _) :: rest => do
    if ← i.accepts spec value key then return true else someAccepts i value key rest

section

variable {i : Interp} {self value key : Term} {w : World}

/-- If no spec accepts, then no case is run. -/
theorem firstCase_of_rejected {cases : List (Term × Term)} {w' : World}
    (rejected : someAccepts i value key cases w = .ok false w') (index : Nat) :
    firstCase i self value key index cases w = .ok none w' := by
  induction cases generalizing index w with
  | nil =>
    cases rejected
    rfl
  | cons c rest ih =>
    rw [someAccepts, Eval.bind_apply] at rejected
    rw [firstCase, Eval.bind_apply]
    cases run : i.accepts c.1 value key false w with
    | ok accepted v =>
      simp only [run] at rejected ⊢
      cases accepted with
      | true => cases rejected
      | false => exact ih rejected (index + 1)
    | error fault v =>
      simp only [run] at rejected
      cases rejected

theorem Eval.some_ne_none {α : Type} (m : Eval α) (w w' : World) :
    (do return some (← m) : Eval (Option α)) w ≠ .ok none w' := by
  rw [Eval.bind_apply]
  cases m w <;> nofun

/-- If some spec accepts or fails, then a case is run or there is a fault. -/
theorem firstCase_of_decided {cases : List (Term × Term)}
    (decided : ∀ w', someAccepts i value key cases w ≠ .ok false w') (index : Nat) :
    ∀ w', firstCase i self value key index cases w ≠ .ok none w' := by
  induction cases generalizing index w with
  | nil => exact absurd rfl (decided w)
  | cons c rest ih =>
    intro w'
    rw [firstCase, Eval.bind_apply]
    cases run : i.accepts c.1 value key false w with
    | error fault v =>
      intro same
      cases same
    | ok accepted v =>
      cases accepted with
      | true =>
        dsimp only
        rw [if_pos rfl, Eval.bind_apply]
        exact Eval.some_ne_none _ _ w'
      | false =>
        refine ih (fun v' rejected => decided v' ?_) (index + 1) w'
        rw [someAccepts, Eval.bind_apply, run]
        exact rejected

end

/-- Tables in a row run as the first one if its specs decide, else as the second one in the world
that these specs leave. -/
theorem runCases_append_apply (i : Interp) (self value key : Term) (A B : List (Term × Term))
    (index : Nat) (w : World) :
    runCases i self value key index (A ++ B) w =
      match someAccepts i value key A w with
      | .ok false w' => runCases i self value key (index + A.length) B w'
      | _ => runCases i self value key index A w := by
  have row (rest : List (Term × Term)) :
      runCases i self value key index (A ++ rest) w =
        match firstCase i self value key index A w with
        | .ok (some result) w' => .ok result w'
        | .ok none w' => runCases i self value key (index + A.length) rest w'
        | .error fault w' => .error fault w' := by
    rw [runCases_append, Eval.bind_apply]
    cases firstCase i self value key index A w with
    | error fault w' => rfl
    | ok found w' => cases found <;> rfl
  split
  · next w' rejected => rw [row, firstCase_of_rejected rejected]
  · next decided =>
    have found : ∀ w', firstCase i self value key index A w ≠ .ok none w' :=
      firstCase_of_decided decided index
    have alone := row []
    rw [List.append_nil] at alone
    rw [row, alone]
    cases run : firstCase i self value key index A w with
    | error fault w' => rfl
    | ok result w' =>
      cases result with
      | some result => rfl
      | none => exact absurd run (found w')

/-- Running cases in order comes to the same in all tables, wherever the cases stand. -/
theorem runCases_observed (ctx : Context) (levels : Nat) {cases : List (Term × Term)}
    (ignore : ∀ c ∈ cases, ctx.IgnoresTable c.2) (self self' value key : Term)
    (index index' : Nat) (w : World) :
    (runCases (interp ctx levels) self value key index cases).observed w =
      (runCases (interp ctx levels) self' value key index' cases).observed w := by
  induction cases generalizing index index' w with
  | nil => rfl
  | cons c rest ih =>
    have ih := ih fun d mem => ignore d (List.mem_cons_of_mem c mem)
    have ignores := ignore c List.mem_cons_self
    rw [runCases, runCases]
    cases run : (interp ctx levels).accepts c.1 value key false w with
    | error fault v => rw [Eval.observed_bind_error run, Eval.observed_bind_error run]
    | ok accepted v =>
      rw [Eval.observed_bind_ok run, Eval.observed_bind_ok run]
      cases accepted with
      | false => exact ih (index + 1) (index' + 1) v
      | true =>
        have told (index : Nat) (table : Term) : (do
            Eval.emit (.matched index key)
            runHandler (interp ctx levels) table value key c.2).observed v =
              (runHandler (interp ctx levels) table value key c.2).observed v :=
          (Eval.observed_bind_ok rfl).trans
            ((runHandler_related (Eval.logBlind_congruence World.invariant_true)
              (interp_logBlind World.invariant_true ctx levels) table value key c.2).observed rfl)
        rw [if_pos rfl, if_pos rfl, told, told]
        exact ignores levels value key self self' v

theorem someAccepts_related {R : ∀ α : Type, Eval α → Eval α → Prop}
    (hR : Eval.Compositional R) {i i' : Interp} {cases : List (Term × Term)}
    (on : ∀ c ∈ cases, i.RelatedOn R i' c.1) (value key : Term) :
    R Bool (someAccepts i value key cases) (someAccepts i' value key cases) := by
  induction cases with
  | nil => exact hR.answer _
  | cons c rest ih =>
    refine hR.seq (accepts_related hR (on c List.mem_cons_self _ _ _)) ?_
    intro accepted
    cases accepted with
    | true => exact hR.answer _
    | false => exact ih fun d mem => on d (List.mem_cons_of_mem c mem)

/-! ## Budgets -/

/-- A smaller table has a smaller budget. -/
theorem Store.budget_dispatcher_le {s s' : Store}
    (same : s.constraintNesting = s'.constraintNesting) {cases cases' : List (Term × Term)}
    (le : Term.nestingOfPairs cases ≤ Term.nestingOfPairs cases') (arguments : List Term) :
    s.budget (.dispatcher cases) arguments ≤ s'.budget (.dispatcher cases') arguments := by
  have flat (s : Store) (cases : List (Term × Term)) : s.depth? (.dispatcher cases) = some 1 :=
    s.depth?_atomic trivial
  simp only [budget, flat, same, Term.totalNesting, Term.nesting]
  exact Nat.add_le_add_left (Nat.mul_le_mul_right _ (by omega)) _

/-! ## The first match wins -/

/-- At every level: cases that come after one that accepts or fails do not matter, and cases that
are rejected leave nothing behind but what their specs have done. -/
theorem dispatch_append (ctx : Context) {A B : List (Term × Term)}
    (ignore : ∀ c ∈ A ++ B, ctx.IgnoresTable c.2) (value key : Term) (w : World) (levels : Nat) :
    let run (cases : List (Term × Term)) : Eval Term :=
      (interp ctx (levels + 1)).call (.dispatcher cases) [value, key]
    match someAccepts (interp ctx levels) value key A w with
    | .ok false w' => (run (A ++ B)).observed w = (run B).observed w'
    | _ => (run (A ++ B)).observed w = (run A).observed w := by
  intro run
  obtain ⟨ignoreA, ignoreB⟩ := List.forall_mem_append.1 ignore
  have row := runCases_append_apply (interp ctx levels) (.dispatcher (A ++ B)) value key A B 0 w
  split at row
  · exact (Eval.observed_congr row).trans
      (runCases_observed ctx levels ignoreB _ _ value key _ 0 _)
  · exact (Eval.observed_congr row).trans
      (runCases_observed ctx levels ignoreA _ _ value key 0 0 w)

/-- The specs of cases change no constraint. -/
theorem constraintNesting_someAccepts (ctx : Context) {levels : Nat} {value key : Term}
    {cases : List (Term × Term)} {accepted : Bool} {w w' : World}
    (run : someAccepts (interp ctx levels) value key cases w = .ok accepted w') :
    w'.store.constraintNesting = w.store.constraintNesting := by
  have invariant := World.cells_invariant w.store.unbound.cells
  have kept : (someAccepts (interp ctx levels) value key cases).Keeps
      fun v => v.store.unbound.cells = w.store.unbound.cells :=
    someAccepts_related invariant.congruence.toCompositional
      (fun c _ => (invariant.interp ctx levels).create c.1) value key
  have kept := kept w rfl
  rw [Eval.after, run] at kept
  exact Store.constraintNesting_congr kept

/-- A table runs at the level that the library chooses as at any higher one, unless it runs out of
levels. -/
theorem call_dispatcher_below (ctx : Context) {w : World} {levels : Nat}
    {cases : List (Term × Term)} {arguments : List Term}
    (le : w.store.budget (.dispatcher cases) arguments ≤ levels) :
    (∃ v, call ctx (.dispatcher cases) arguments w = .error .nestingLimit v) ∨
      (call ctx (.dispatcher cases) arguments).observed w =
        ((interp ctx levels).call (.dispatcher cases) arguments).observed w :=
  ((interp_below ctx le).call (.dispatcher cases) arguments w).imp id Eval.observed_congr

/-- The first match wins. Cases that come after one that accepts or fails do not matter, and cases
that are rejected leave nothing behind but what their specs have done. This holds on every level;
the library, which gives a larger table more levels, keeps to it unless the smaller table runs out
of them. -/
theorem call_append (ctx : Context) {A B : List (Term × Term)}
    (ignore : ∀ c ∈ A ++ B, ctx.IgnoresTable c.2) (value key : Term) (w : World) :
    (∀ levels,
      let run (cases : List (Term × Term)) : Eval Term :=
        (interp ctx (levels + 1)).call (.dispatcher cases) [value, key]
      match someAccepts (interp ctx levels) value key A w with
      | .ok false w' => (run (A ++ B)).observed w = (run B).observed w'
      | _ => (run (A ++ B)).observed w = (run A).observed w) ∧
    let run (cases : List (Term × Term)) : Eval Term := call ctx (.dispatcher cases) [value, key]
    let levels := w.store.budget (.dispatcher (A ++ B)) [value, key] - 1
    match someAccepts (interp ctx levels) value key A w with
    | .ok false w' => (∃ v, run B w' = .error .nestingLimit v) ∨
        (run (A ++ B)).observed w = (run B).observed w'
    | _ => (∃ v, run A w = .error .nestingLimit v) ∨
        (run (A ++ B)).observed w = (run A).observed w := by
  refine ⟨dispatch_append ctx ignore value key w, ?_⟩
  intro run levels
  have some_level : w.store.budget (.dispatcher (A ++ B)) [value, key] = levels + 1 := by
    have positive : 0 < w.store.budget (.dispatcher (A ++ B)) [value, key] := by
      simp only [Store.budget, reserve]
      omega
    omega
  have whole : (run (A ++ B)).observed w =
      ((interp ctx (levels + 1)).call (.dispatcher (A ++ B)) [value, key]).observed w := by
    rw [← some_level]
    rfl
  have law := dispatch_append ctx ignore value key w levels
  have nesting := Term.nestingOfPairs_append A B
  rw [whole]
  split at law
  · next rejected =>
    have smaller := Store.budget_dispatcher_le (constraintNesting_someAccepts ctx rejected)
      (nesting.symm ▸ Nat.le_max_right _ _) [value, key]
    rw [law]
    exact (call_dispatcher_below ctx (smaller.trans_eq some_level)).imp id Eq.symm
  · have smaller := Store.budget_dispatcher_le (rfl : w.store.constraintNesting = _)
      (nesting.symm ▸ Nat.le_max_left _ _) [value, key]
    rw [law]
    exact (call_dispatcher_below ctx (smaller.trans_eq some_level)).imp id Eq.symm

/-- A case binds a variable and rejects, and the handler of a later case reads it. -/
theorem rejected_case_leaves_binding :
    let ctx : Context := { Context.bare with host := ⟨fun _ _ _ => .answer (.str "answer")⟩ }
    let A : List (Term × Term) :=
      [(.allOf [.var 0, .builtin .isString], .recorder "texts" .null)]
    let B : List (Term × Term) := [
      (.builtin .isList, .object ⟨0, .function, false, false, some ⟨3, some 3⟩, none⟩),
      (.builtin .isInt, .var 0),
      (.var 1, .dispatcher [(.builtin .identity, .list [.var 0])])]
    let w : World := { store := { cells := #[⟨"x", .null, none⟩, ⟨"y", .null, none⟩] } }
    let run (cases : List (Term × Term)) : Eval Term :=
      (interp ctx 5).call (.dispatcher cases) [.int 5, .null]
    (∀ c ∈ A ++ B, ctx.IgnoresTable c.2) ∧
      ∃ w', someAccepts (interp ctx 4) (.int 5) .null A w = .ok false w' ∧
        (w'.store.cell 0).value = some (.int 5) ∧ (run B).outcome w' = .ok (.int 5) ∧
        (run (A ++ B)).observed w = (run B).observed w' := by
  intro ctx A B w run
  have ignore : ∀ c ∈ A ++ B, ctx.IgnoresTable c.2 := by
    simp only [A, B, List.cons_append, List.nil_append, List.forall_mem_cons]
    refine ⟨.recorder "texts" .null, ?_, .var 0, .dispatcher _, List.forall_mem_nil _⟩
    exact .object (fun _ _ _ _ _ => rfl) fun _ _ => trivial
  exact ⟨ignore, _, rfl, rfl, rfl, (call_append ctx ignore (.int 5) .null w).1 4⟩

end SpecMatch
