import SpecMatch.Proofs.Evaluation.Budget
import SpecMatch.Proofs.Matching.Leaves
import SpecMatch.Proofs.Term.Nesting

/-!
# Recursive dispatch is rewriting from the outside in

A recursive dispatch table goes down in a value by a case of its own, which calls the table again
on every child. `rewrite` says the same without the table calling itself: it visits the positions
of the value depth first, and each position is either replaced by what the first accepting case
makes of it, or rebuilt from its rewritten children. The path from the root, kept as a list, gives
the key of a position (`positionKey`).

`call_recursiveTable` shows that the two do the same, world and log included.
-/

namespace SpecMatch

/-- The key of a position: nothing at the root, the bare key below it, and the path further
down. -/
def positionKey : List Term → Term
  | [] => .null
  | [key] => key
  | path => .tuple path

/-- Runs the handler of the first case that accepts, counted from `index`, if there is one. -/
def firstCase (interp : Interp) (self x key : Term) (index : Nat) :
    List (Term × Term) → Eval (Option Term)
  | [] => pure none
  | (spec, handler) :: rest => do
    if ← interp.accepts spec x key then
      Eval.emit (.matched index key)
      return some (← runHandler interp self x key handler)
    else firstCase interp self x key (index + 1) rest

section

variable (levels : Nat → Interp) (self : Term) (cases : List (Term × Term))

/-- Visits one position: the first case that accepts replaces it, and nothing below it is visited.
The interpreter depends on how far down the position is. -/
def visit (path : List Term) (x : Term) (otherwise : Eval Term) : Eval Term := do
  match ← firstCase (levels path.length) self x (positionKey path) 0 cases with
  | some result => return result
  | none => otherwise

/-- Rebuilds a container from its rewritten children. -/
def rebuilt (path : List Term) (x : Term) (children : Eval (List Term)) : Eval Term := do
  Eval.emit (.matched cases.length (positionKey path))
  return x.withChildren (← children)

mutual

/-- Rewrites the value at a position from the outside in. A scalar that no case accepts becomes
`null`. -/
def rewrite (path : List Term) (x : Term) : Eval Term :=
  visit levels self cases path x <|
    match x with
    | .list items | .tuple items => rebuilt cases path x (rewriteItems path 0 items)
    | .map _ entries => rebuilt cases path x (rewriteEntries path entries)
    | .fields attributes => rebuilt cases path x (rewriteAttributes path attributes)
    | _ => do
      Eval.emit (.unmatched (positionKey path))
      return .null
termination_by structural x

/-- Rewrites items under their positions, counted from `start`. -/
def rewriteItems (path : List Term) (start : Nat) (items : List Term) : Eval (List Term) :=
  match items with
  | [] => pure []
  | x :: xs => do
    let result ← rewrite (path ++ [.int start]) x
    return result :: (← rewriteItems path (start + 1) xs)
termination_by structural items

/-- Rewrites the values of entries under their keys. -/
def rewriteEntries (path : List Term) (entries : List (Term × Term)) : Eval (List Term) :=
  match entries with
  | [] => pure []
  | (key, x) :: rest => do
    let result ← rewrite (path ++ [key]) x
    return result :: (← rewriteEntries path rest)
termination_by structural entries

/-- Rewrites the values of attributes under their names. -/
def rewriteAttributes (path : List Term) (attributes : List (String × Term)) : Eval (List Term) :=
  match attributes with
  | [] => pure []
  | (name, x) :: rest => do
    let result ← rewrite (path ++ [.str name]) x
    return result :: (← rewriteAttributes path rest)
termination_by structural attributes

end

/-- Rewrites the children of a container under their keys. -/
def rewriteChildren (path : List Term) : Entries → Eval (List Term)
  | [] => pure []
  | (key, x) :: rest => do
    let result ← rewrite levels self cases (path ++ [key]) x
    return result :: (← rewriteChildren path rest)

/-! ## The children of a container -/

theorem rewriteItems_eq (path : List Term) (items : List Term) (start : Nat) :
    rewriteItems levels self cases path start items =
      rewriteChildren levels self cases path (Term.positions start items) := by
  induction items generalizing start with
  | nil => rfl
  | cons x xs ih =>
    rw [rewriteItems, ih]
    rfl

theorem rewriteEntries_eq (path : List Term) (entries : Entries) :
    rewriteEntries levels self cases path entries =
      rewriteChildren levels self cases path entries := by
  induction entries with
  | nil => rfl
  | cons e rest ih =>
    rw [rewriteEntries, ih]
    rfl

theorem rewriteAttributes_eq (path : List Term) (attributes : Attributes) :
    rewriteAttributes levels self cases path attributes =
      rewriteChildren levels self cases path (attributes.map fun a => (.str a.1, a.2)) := by
  induction attributes with
  | nil => rfl
  | cons a rest ih =>
    rw [rewriteAttributes, ih]
    rfl

/-- A position is replaced, rebuilt from its children in order, or left as nothing. -/
theorem rewrite_eq (path : List Term) (x : Term) :
    rewrite levels self cases path x = visit levels self cases path x
      (if x.isContainer then
        rebuilt cases path x (rewriteChildren levels self cases path x.entries)
      else do
        Eval.emit (.unmatched (positionKey path))
        return .null) := by
  cases x with
  | list items | tuple items => rw [rewrite, rewriteItems_eq]; rfl
  | map kind entries => rw [rewrite, rewriteEntries_eq]; rfl
  | fields attributes => rw [rewrite, rewriteAttributes_eq]; rfl
  | _ => rfl

end

/-! ## The keys of positions -/

/-- A key that is no path of its own: the key of a child at the top level has to be one, or it
would be taken for the path to another position. -/
def Term.Bare (key : Term) : Prop := key ≠ .null ∧ ∀ path, key ≠ .tuple path

/-- The key of a child extends the key of its container as the path does. -/
theorem childKey_positionKey {path : List Term} (bare : ∀ key, path = [key] → key.Bare)
    (key : Term) : (positionKey path).childKey key = positionKey (path ++ [key]) := by
  match path with
  | [] => rfl
  | [top] =>
    obtain ⟨notNull, notTuple⟩ := bare top rfl
    cases top with
    | null => exact absurd rfl notNull
    | tuple path => exact absurd rfl (notTuple path)
    | _ => rfl
  | _ :: _ :: _ => rfl

/-! ## The table as a rewriting -/

/-- The table that goes on with the children of containers after its own cases. -/
def recursing (cases : List (Term × Term)) : Term :=
  .dispatcher (cases ++ [(.builtin .isContainer, .builtin .descend)])

theorem pairUp?_append {arguments : List Term} {cases : List (Term × Term)}
    (paired : pairUp? arguments = some cases) (spec handler : Term) :
    pairUp? (arguments ++ [spec, handler]) = some (cases ++ [(spec, handler)]) := by
  induction arguments using pairUp?.induct generalizing cases with
  | case1 =>
    cases paired
    rfl
  | case2 => cases paired
  | case3 s h rest ih =>
    rw [pairUp?, Option.map_eq_some_iff] at paired
    obtain ⟨later, paired, rfl⟩ := paired
    rw [List.cons_append, List.cons_append, pairUp?, ih paired]
    rfl

theorem recursiveTable_eq {s : Store} {arguments : List Term} {cases : List (Term × Term)}
    {table : Term} (paired : pairUp? arguments = some cases)
    (built : recursiveTable s arguments = .ok table) : table = recursing cases := by
  simp only [recursiveTable, SpecMatch.table, recursiveCase, pairUp?_append paired] at built
  split at built
  · cases built
  · exact (Except.ok.inj built).symm

theorem runCases_append (i : Interp) (self x key : Term) (cases rest : List (Term × Term))
    (index : Nat) :
    runCases i self x key index (cases ++ rest) = (do
      match ← firstCase i self x key index cases with
      | some result => return result
      | none => runCases i self x key (index + cases.length) rest) := by
  induction cases generalizing index with
  | nil => rfl
  | cons c cases ih =>
    rw [List.cons_append, runCases, firstCase, bind_assoc]
    congr 1
    funext accepted
    cases accepted with
    | true => simp
    | false =>
      rw [if_neg Bool.false_ne_true, if_neg Bool.false_ne_true, ih, List.length_cons,
        Nat.add_right_comm, Nat.add_assoc]

/-- A container is taken apart by calling the table on its children, anything else is left. -/
theorem runCases_recursing (ctx : Context) (budget : Nat) (self x key : Term) (index : Nat) :
    runCases (interp ctx (budget + 1)) self x key index
        [(.builtin .isContainer, .builtin .descend)] =
      if x.isContainer then do
        Eval.emit (.matched index key)
        return x.withChildren (← dispatchEntries (interp ctx budget) self key x.entries)
      else do
        Eval.emit (.unmatched key)
        return .null := by
  have test : (interp ctx (budget + 1)).accepts (.builtin .isContainer) x key =
      pure x.isContainer := by
    have verdict := create_test ctx budget x key false .isContainer (by decide) (by decide)
    rw [Interp.accepts, verdict, pure_bind, Verdict.accepted_when]
    rfl
  rw [runCases, test, pure_bind]
  cases container : x.isContainer with
  | false => rfl
  | true =>
    show (do
      Eval.emit (.matched index key)
      descend (interp ctx budget) x key self) = _
    rw [descend, if_pos container]
    rfl

/-- Calling the table on a position tries its own cases first. -/
theorem call_recursing (ctx : Context) (budget : Nat) (cases : List (Term × Term)) (x key : Term) :
    (interp ctx (budget + 2)).call (recursing cases) [x, key] = (do
      match ← firstCase (interp ctx (budget + 1)) (recursing cases) x key 0 cases with
      | some result => return result
      | none =>
        if x.isContainer then do
          Eval.emit (.matched cases.length key)
          return x.withChildren
            (← dispatchEntries (interp ctx budget) (recursing cases) key x.entries)
        else do
          Eval.emit (.unmatched key)
          return .null) := by
  show runCases (interp ctx (budget + 1)) (recursing cases) x key 0
    (cases ++ [(.builtin .isContainer, .builtin .descend)]) = _
  rw [runCases_append, Nat.zero_add]
  simp only [runCases_recursing]

theorem dispatchEntries_eq {i : Interp} {levels : Nat → Interp} {self key : Term}
    {cases : List (Term × Term)} {path : List Term} {entries : Entries}
    (each : ∀ e ∈ entries, i.call self [e.2, key.childKey e.1] =
      rewrite levels self cases (path ++ [e.1]) e.2) :
    dispatchEntries i self key entries = rewriteChildren levels self cases path entries := by
  induction entries with
  | nil => rfl
  | cons e rest ih =>
    have first := each e List.mem_cons_self
    have later := ih fun d mem => each d (List.mem_cons_of_mem e mem)
    rw [dispatchEntries, rewriteChildren, first, later]

/-- With enough levels to go to the bottom of the value and back, calling the table at a position
rewrites it. -/
theorem call_recursing_eq_rewrite (ctx : Context) (cases : List (Term × Term)) (budget : Nat)
    (path : List Term) (x : Term) (enough : 2 * (path.length + x.nesting) ≤ budget)
    (bare : ∀ key, path = [key] → key.Bare)
    (bare_keys : path = [] → ∀ e ∈ x.entries, e.1.Bare) :
    (interp ctx (budget - 2 * path.length)).call (recursing cases) [x, positionKey path] =
      rewrite (fun depth => interp ctx (budget - 2 * depth - 1)) (recursing cases) cases path
        x := by
  induction x using Term.children_induction generalizing path with
  | step x ih =>
  have pos := x.nesting_pos
  obtain ⟨below, level⟩ : ∃ below, budget - 2 * path.length = below + 2 :=
    ⟨budget - 2 * path.length - 2, by omega⟩
  have children : dispatchEntries (interp ctx below) (recursing cases) (positionKey path)
      x.entries = rewriteChildren (fun depth => interp ctx (budget - 2 * depth - 1))
        (recursing cases) cases path x.entries := by
    refine dispatchEntries_eq ?_
    intro e mem
    have less := Term.nesting_lt_of_mem mem
    have deeper : (path ++ [e.1]).length = path.length + 1 := List.length_append
    have level' : budget - 2 * (path ++ [e.1]).length = below := by omega
    rw [childKey_positionKey bare, ← level']
    refine ih e mem (path ++ [e.1]) (by omega) (fun key eq => ?_) (fun eq => ?_)
    · cases path with
      | nil =>
        cases eq
        exact bare_keys rfl e mem
      | cons top rest => cases rest <;> cases eq
    · exact absurd eq (List.append_ne_nil_of_right_ne_nil path nofun)
  rw [level, call_recursing, children, rewrite_eq]
  simp only [visit, rebuilt, level]
  rfl

/-! ## Budgets -/

section

variable {R : ∀ α : Type, Eval α → Eval α → Prop} (hR : Eval.Congruence R)
include hR

theorem firstCase_related {i i' : Interp} (hi : i.Related R i') (self x key : Term)
    (cases : List (Term × Term)) (index : Nat) :
    R (Option Term) (firstCase i self x key index cases) (firstCase i' self x key index cases) := by
  induction cases generalizing index with
  | nil => exact hR.answer _
  | cons c rest ih =>
    refine hR.seq (accepts_related hR.toCompositional (hi.create _ _ _ _)) ?_
    intro accepted
    cases accepted with
    | true =>
      exact hR.seq (hR.emit _ rfl) fun _ =>
        hR.seq (runHandler_related hR hi _ _ _ _) fun _ => hR.answer _
    | false => exact ih (index + 1)

/-- Rewritings are related if what they use on every level is. -/
theorem rewrite_related {levels levels' : Nat → Interp}
    (hi : ∀ depth, (levels depth).Related R (levels' depth)) (self : Term)
    (cases : List (Term × Term)) (path : List Term) (x : Term) :
    R Term (rewrite levels self cases path x) (rewrite levels' self cases path x) := by
  induction x using Term.children_induction generalizing path with
  | step x ih =>
  have children : ∀ entries : Entries, (∀ e ∈ entries, e ∈ x.entries) →
      R (List Term) (rewriteChildren levels self cases path entries)
        (rewriteChildren levels' self cases path entries) := by
    intro entries inside
    induction entries with
    | nil => exact hR.answer _
    | cons e rest ihRest =>
      obtain ⟨mem, inside⟩ := List.forall_mem_cons.1 inside
      exact hR.seq (ih e mem _) fun _ =>
        hR.seq (ihRest inside) fun _ => hR.answer _
  rw [rewrite_eq, rewrite_eq]
  refine hR.seq (firstCase_related hR (hi _) _ _ _ _ _) ?_
  intro found
  cases found with
  | some result => exact hR.answer _
  | none =>
    dsimp only
    split
    · exact hR.seq (hR.emit _ rfl) fun _ =>
        hR.seq (children _ fun _ mem => mem) fun _ => hR.answer _
    · exact hR.seq (hR.emit _ rfl) fun _ => hR.answer _

end

/-- The library gives a recursive table the levels to go to the bottom of the value and back. -/
theorem budget_recursing (s : Store) (cases : List (Term × Term)) (v : Term) :
    2 * v.nesting ≤ s.budget (recursing cases) [v] := by
  have table : 2 ≤ (recursing cases).nesting := by
    have last := Term.nesting_le_of_mem_pairs
      (List.mem_append_right cases (List.mem_singleton_self
        ((.builtin .isContainer, .builtin .descend) : Term × Term)))
    exact Nat.succ_le_succ last
  simp only [Store.budget, Term.totalNesting, Nat.add_zero]
  have programs : 2 ≤ s.constraintNesting + ((recursing cases).nesting +
      Term.totalNesting ([v].filter (·.isCallable))) := by omega
  have product := Nat.mul_le_mul_right (v.nesting + 2) programs
  omega

/-! ## Recursive dispatch -/

/-- A table that is called without a key is called at the root. -/
theorem call_root (ctx : Context) (budget : Nat) (cases : List (Term × Term)) (v : Term) :
    (interp ctx budget).call (.dispatcher cases) [v] =
      (interp ctx budget).call (.dispatcher cases) [v, positionKey []] := by
  cases budget <;> rfl

/-- Calling a recursive table on a value rewrites the value from the outside in: at each position
the first accepting case is run with the key of the position and replaces it, else a container is
rebuilt from its rewritten children and anything else becomes `null`. Nothing depends on how many
levels there are, unless there are too few. -/
theorem call_recursiveTable (ctx : Context) {s : Store} {arguments : List Term}
    {cases : List (Term × Term)} {table : Term} (paired : pairUp? arguments = some cases)
    (built : recursiveTable s arguments = .ok table) (w : World) (v : Term)
    (bare : ∀ e ∈ v.entries, e.1.Bare) :
    call ctx table [v] w =
        rewrite (fun depth => interp ctx (w.store.budget table [v] - 2 * depth - 1)) table cases
          [] v w ∧
      ∀ levels, w.store.budget table [v] ≤ levels →
        (∃ w', call ctx table [v] w = .error .nestingLimit w') ∨
          call ctx table [v] w = rewrite (fun _ => interp ctx levels) table cases [] v w := by
  obtain rfl := recursiveTable_eq paired built
  have enough := budget_recursing w.store cases v
  have exact_levels : call ctx (recursing cases) [v] w =
      rewrite (fun depth => interp ctx (w.store.budget (recursing cases) [v] - 2 * depth - 1))
        (recursing cases) cases [] v w := by
    rw [← call_recursing_eq_rewrite ctx cases _ [] v (by simpa using enough) nofun fun _ => bare]
    exact congrFun (call_root ctx _ _ v) w
  refine ⟨exact_levels, fun levels le => ?_⟩
  rw [exact_levels]
  refine rewrite_related Eval.below_congruence (fun depth => ?_) _ _ _ _ w
  exact interp_below ctx (by omega)

/-- Numbers are replaced, but what has a text in it is replaced before its numbers are reached. -/
theorem numbers_call_recursiveTable :
    let arguments : List Term := [.someItem (.builtin .isString), .str "texts",
      .builtin .isInt, .fanout [.builtin .identity]]
    let v : Term := .fields [("a", .list [.int 1, .str "x"]),
      ("b", .map .ordered [(.null, .int 3), (.int 4, .null)]), ("c", .tuple [])]
    ∃ table w', recursiveTable {} arguments = .ok table ∧
      call .bare table [v] {} = .ok (.fields [("a", .str "texts"),
        ("b", .map .plain [(.null, .list [.int 3]), (.int 4, .null)]), ("c", .tuple [])]) w' := by
  intro arguments v
  have paired : pairUp? arguments = some [(.someItem (.builtin .isString), .str "texts"),
    (.builtin .isInt, .fanout [.builtin .identity])] := rfl
  have built : recursiveTable {} arguments = .ok (recursing
    [(.someItem (.builtin .isString), .str "texts"),
      (.builtin .isInt, .fanout [.builtin .identity])]) := rfl
  have bare : ∀ e ∈ v.entries, e.1.Bare := by
    simp [v, Term.entries, Term.Bare]
  exact ⟨_, _, built, (call_recursiveTable .bare paired built {} v bare).1⟩

end SpecMatch
