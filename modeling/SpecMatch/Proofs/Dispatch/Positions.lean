import SpecMatch.Proofs.Dispatch.Rewriting
import SpecMatch.Proofs.Term.Position

/-!
# The keys of dispatched positions

On its way down in a value, a dispatch table hands each position a key that is put together from
the keys on the path to it. `tour` runs a table as the library does and notes the positions that
the table, or a table among its handlers, is run on (`tour_follows`). The key of each of them is
`Term.childKey` applied along the path.

A key at the top level that is `null` or a tuple is taken for a path itself. What stands under such
a key may be taken for what stands under another one; apart from that, different positions have
different keys (`visits_keys_differ`).

A function of the host is handed the table and chooses the keys of what it dispatches, so no
position is noted for that. Nor is one for a table that stands in a spec: a match calls it as a
predicate on what it matches, also on something that is no part of the value, such as a piece of
the key.
-/

namespace SpecMatch

/-! ## Tours -/

/-- A position that a table is run on: the keys on the path to it, what is there, and the key that
is handed to the table. -/
structure Visit where
  path : List Term
  part : Term
  key : Term

/-- An evaluation that notes the positions it visits. -/
abbrev Tour := EStateM Fault (World × List Visit)

/-- What an evaluation comes to, along with the positions visited so far. -/
def noting {α : Type} (visits : List Visit) :
    EStateM.Result Fault World α → EStateM.Result Fault (World × List Visit) α
  | .ok a w => .ok a (w, visits)
  | .error fault w => .error fault (w, visits)

namespace Tour

/-- An evaluation that visits no position. -/
def lift {α : Type} (m : Eval α) : Tour α := fun state => noting state.2 (m state.1)

/-- Notes a position. -/
def visit (a : Visit) : Tour Unit := modify fun state => (state.1, state.2 ++ [a])

/-- A tour does what an evaluation does and visits positions with a property. -/
def Follows {α : Type} (good : Visit → Prop) (m : Tour α) (run : Eval α) : Prop :=
  ∀ w before, ∃ visits, (∀ a ∈ visits, good a) ∧
    m (w, before) = noting (before ++ visits) (run w)

namespace Follows

variable {α β : Type} {good : Visit → Prop}

theorem lift (run : Eval α) : (Tour.lift run).Follows good run := by
  intro w before
  refine ⟨[], List.forall_mem_nil _, ?_⟩
  rw [List.append_nil]
  rfl

theorem pure (a : α) : (Pure.pure a : Tour α).Follows good (Pure.pure a) := lift (Pure.pure a)

theorem throw (fault : Fault) :
    (MonadExcept.throw fault : Tour α).Follows good (MonadExcept.throw fault) :=
  lift (MonadExcept.throw fault)

theorem bind {m : Tour α} {f : α → Tour β} {run : Eval α} {next : α → Eval β}
    (hm : m.Follows good run) (hf : ∀ a, (f a).Follows good (next a)) :
    (m >>= f).Follows good (run >>= next) := by
  intro w before
  obtain ⟨visits, all_good, step⟩ := hm w before
  rw [Eval.bind_apply]
  show ∃ _, _ ∧ EStateM.bind m f _ = _
  unfold EStateM.bind
  rw [step]
  cases run w with
  | ok a w' =>
    obtain ⟨later, later_good, steps⟩ := hf a w' (before ++ visits)
    refine ⟨visits ++ later, List.forall_mem_append.2 ⟨all_good, later_good⟩, ?_⟩
    rw [← List.append_assoc]
    exact steps
  | error fault w' => exact ⟨visits, all_good, rfl⟩

/-- A position may be noted before what is done there. -/
theorem visit {a : Visit} (is_good : good a) {m : Tour α} {run : Eval α}
    (hm : m.Follows good run) : (do Tour.visit a; m).Follows good run := by
  intro w before
  obtain ⟨visits, all_good, step⟩ := hm w (before ++ [a])
  refine ⟨a :: visits, List.forall_mem_cons.2 ⟨is_good, all_good⟩, ?_⟩
  rw [← List.singleton_append, ← List.append_assoc]
  exact step

end Follows

end Tour

/-- The handler of the first case that accepts, counted from `index`, if there is one. -/
def chooseCase (interp : Interp) (x key : Term) (index : Nat) :
    List (Term × Term) → Eval (Option Term)
  | [] => do
    Eval.emit (.unmatched key)
    return none
  | (spec, handler) :: rest => do
    if ← interp.accepts spec x key then
      Eval.emit (.matched index key)
      return some handler
    else chooseCase interp x key (index + 1) rest

/-- Calls a function on a position with a table to go on with. A table notes the position and tries
its cases, and `descend` goes on with the children, each under its key below `key`. -/
def tour (ctx : Context) : Nat → Term → List (Term × Term) → List Term → Term → Term → Tour Term
  | 0, _, _, _, _, _ => throw .nestingLimit
  | budget + 1, .dispatcher cases, _, path, x, key => do
    Tour.visit ⟨path, x, key⟩
    match ← Tour.lift (chooseCase (interp ctx budget) x key 0 cases) with
    | none => return .null
    | some handler =>
      if handler.isCallable then tour ctx budget handler cases path x key
      else Tour.lift (runHandler (interp ctx budget) (.dispatcher cases) x key handler)
  | budget + 1, .builtin .descend, cases, path, x, key =>
    if x.isContainer then do
      return x.withChildren (← x.entries.mapM fun e =>
        tour ctx budget (.dispatcher cases) cases (path ++ [e.1]) e.2 (key.childKey e.1))
    else throw (.scalarRebuild x.classOf)
  | budget + 1, .fanout functions, cases, path, x, key => do
    return .list (← functions.mapM fun f => tour ctx budget f cases path x key)
  | budget + 1, f, cases, _, x, key =>
    Tour.lift ((interp ctx (budget + 1)).call f [x, key, .dispatcher cases])

/-! ## Tours follow the library -/

theorem runCases_eq_chooseCase (i : Interp) (self x key : Term) (cases : List (Term × Term))
    (index : Nat) :
    runCases i self x key index cases = (do
      match ← chooseCase i x key index cases with
      | none => return .null
      | some handler => runHandler i self x key handler) := by
  induction cases generalizing index with
  | nil => rfl
  | cons c rest ih =>
    rw [runCases, chooseCase, bind_assoc]
    congr 1
    funext accepted
    cases accepted with
    | true => rfl
    | false => exact ih (index + 1)

/-- A table that is handed another one to go on with takes no notice of it. -/
theorem call_dispatcher (ctx : Context) (budget : Nat) (cases : List (Term × Term))
    (x key self : Term) :
    (interp ctx budget).call (.dispatcher cases) [x, key, self] =
      (interp ctx budget).call (.dispatcher cases) [x, key] := by
  cases budget <;> rfl

theorem runHandler_callable (i : Interp) (self x key : Term) {handler : Term}
    (callable : handler.isCallable) :
    runHandler i self x key handler = i.call handler [x, key, self] := by
  cases handler with
  | action result => cases callable
  | _ => simp only [runHandler, callable, if_true]

theorem dispatchEntries_follows {good : Visit → Prop} {i : Interp} {function key : Term}
    {each : Term × Term → Tour Term} {entries : Entries}
    (follows : ∀ e ∈ entries,
      (each e).Follows good (i.call function [e.2, key.childKey e.1])) :
    (entries.mapM each).Follows good (dispatchEntries i function key entries) := by
  induction entries with
  | nil => exact .pure []
  | cons e rest ih =>
    obtain ⟨first, later⟩ := List.forall_mem_cons.1 follows
    rw [List.mapM_cons, dispatchEntries]
    exact first.bind fun _ => (ih later).bind fun _ => .pure _

theorem fanOut_follows {good : Visit → Prop} {i : Interp} {arguments : List Term}
    {each : Term → Tour Term} (functions : List Term)
    (follows : ∀ f, (each f).Follows good (i.call f arguments)) :
    (functions.mapM each).Follows good (fanOut i arguments functions) := by
  induction functions with
  | nil => exact .pure []
  | cons f rest ih =>
    rw [List.mapM_cons, fanOut]
    exact (follows f).bind fun _ => ih.bind fun _ => .pure _

/-- The key that is put together along a path from the root. -/
def pathKey (path : List Term) : Term := path.foldl Term.childKey .null

theorem pathKey_append (path : List Term) (key : Term) :
    pathKey (path ++ [key]) = (pathKey path).childKey key :=
  List.foldl_concat ..

/-- A visit of a position of a value under the key of its path. -/
structure Visit.In (v : Term) (a : Visit) : Prop where
  at_path : v.At a.path a.part
  key_eq : a.key = pathKey a.path

/-- Calling a function on a position of a value notes nothing but positions of the value. -/
theorem tour_follows (ctx : Context) (v : Term) (budget : Nat) {path : List Term} {x : Term}
    (at_path : v.At path x) (f : Term) (cases : List (Term × Term)) :
    (tour ctx budget f cases path x (pathKey path)).Follows (Visit.In v)
      ((interp ctx budget).call f [x, pathKey path, .dispatcher cases]) := by
  induction budget generalizing f cases path x with
  | zero => exact .throw .nestingLimit
  | succ budget ih =>
    cases f with
    | dispatcher own =>
      refine .visit ⟨at_path, rfl⟩ ?_
      show Tour.Follows _ _ (runCases (interp ctx budget) (.dispatcher own) x (pathKey path) 0 own)
      rw [runCases_eq_chooseCase]
      refine .bind (.lift _) ?_
      intro chosen
      cases chosen with
      | none => exact .pure Term.null
      | some handler =>
        dsimp only
        split
        · next callable =>
          rw [runHandler_callable _ _ _ _ callable]
          exact ih at_path handler own
        · exact .lift _
    | fanout functions =>
      exact .bind (fanOut_follows functions fun f => ih at_path f cases) fun _ => .pure _
    | builtin g =>
      cases g with
      | descend =>
        show Tour.Follows _ _ (descend (interp ctx budget) x (pathKey path) (.dispatcher cases))
        rw [tour, descend]
        split
        · refine .bind (dispatchEntries_follows fun e mem => ?_) fun _ => .pure _
          rw [← call_dispatcher ctx budget cases e.2 _ (.dispatcher cases), ← pathKey_append]
          exact ih (at_path.snoc mem) (.dispatcher cases) cases
        · exact .throw _
      | _ => exact .lift _
    | _ => exact .lift _

/-! ## Keys tell positions apart -/

/-- The key at the top level of a path would not be taken for a path itself. -/
def PlainPath (path : List Term) : Prop := ∀ top ∈ path.head?, top.Bare

/-- No key at the top level of two paths is taken for another: neither would be taken for a path, or
they are the same key and more than `null`. -/
def UnmistakenPaths (p q : List Term) : Prop :=
  PlainPath p ∧ PlainPath q ∨ p.head? = q.head? ∧ p.head? ≠ some .null

theorem foldl_childKey {top : Term} (notNull : top ≠ .null) (rest : List Term) :
    rest.foldl Term.childKey top = match rest with
      | [] => top
      | _ => .tuple (top.keyPath ++ rest) := by
  induction rest generalizing top with
  | nil => rfl
  | cons key rest ih =>
    have extended : top.childKey key = .tuple (top.keyPath ++ [key]) := by
      cases top <;> first | rfl | exact absurd rfl notNull
    have further : Term.tuple (top.keyPath ++ [key]) ≠ .null := nofun
    rw [List.foldl_cons, extended, ih further]
    cases rest with
    | nil => rfl
    | cons _ _ => simp [Term.keyPath]

/-- Below the root the key is never the key of the root, unless it is `null` itself. -/
theorem pathKey_ne_null {top : Term} (notNull : top ≠ .null) (rest : List Term) :
    pathKey (top :: rest) ≠ .null := by
  show rest.foldl Term.childKey top ≠ .null
  rw [foldl_childKey notNull]
  cases rest with
  | nil => exact notNull
  | cons _ _ => nofun

/-- What stands under a tuple has it in front of its key. -/
theorem pathKey_tuple (items rest : List Term) :
    pathKey (.tuple items :: rest) = .tuple (items ++ rest) := by
  have notNull : Term.tuple items ≠ .null := nofun
  show rest.foldl Term.childKey (.tuple items) = _
  rw [foldl_childKey notNull]
  cases rest with
  | nil => exact congrArg Term.tuple (List.append_nil items).symm
  | cons _ _ => rfl

theorem pathKey_eq_positionKey {path : List Term} (plain : PlainPath path) :
    pathKey path = positionKey path := by
  cases path with
  | nil => rfl
  | cons top rest =>
    obtain ⟨notNull, notTuple⟩ := plain top rfl
    have single : top.keyPath = [top] := by
      cases top with
      | null => exact absurd rfl notNull
      | tuple path => exact absurd rfl (notTuple path)
      | _ => rfl
    show rest.foldl Term.childKey top = _
    rw [foldl_childKey notNull, single]
    cases rest <;> rfl

/-- A key is the same as `null` or as a tuple only if it is one. -/
theorem Term.Bare.not_sameKey {key : Term} (bare : key.Bare) :
    ¬ Term.sameKey .null key ∧ ∀ path, ¬ (Term.tuple path).sameKey key := by
  obtain ⟨notNull, notTuple⟩ := bare
  cases key with
  | null => exact absurd rfl notNull
  | tuple path => exact absurd rfl (notTuple path)
  | _ => exact ⟨Bool.false_ne_true, fun _ => Bool.false_ne_true⟩

/-- The keys of different positions differ if they stand under plain keys. -/
theorem positionKey_injective {v a b : Term} {p q : List Term}
    (keyed : v.Everywhere Term.WellKeyed) (hp : v.At p a) (hq : v.At q b)
    (plain_p : PlainPath p) (plain_q : PlainPath q)
    (same : (positionKey p).sameKey (positionKey q)) : p = q := by
  have symm {d c : Term} {key : Term} {rest : List Term} (at_key : v.At (key :: rest) d)
      (alike : key.sameKey c) : c.sameKey key := by
    obtain ⟨e, mem, rfl⟩ := at_key.head_mem
    exact Term.same_symm (keyed.here.hashable e mem) alike
  match p, q with
  | [], [] => rfl
  | [], [key] => exact absurd same (plain_q key rfl).not_sameKey.1
  | [], _ :: _ :: _ => cases same
  | [key], [] => exact absurd (symm hp same) (plain_p key rfl).not_sameKey.1
  | _ :: _ :: _, [] => cases same
  | [key], [other] =>
    refine hp.eq_of_sameItems keyed hq ?_
    rw [Term.sameItems, Term.sameItems, Bool.and_true]
    exact same
  | [key], _ :: _ :: _ => exact absurd (symm hp same) ((plain_p key rfl).not_sameKey.2 _)
  | _ :: _ :: _, [key] => exact absurd same ((plain_q key rfl).not_sameKey.2 _)
  | _ :: _ :: _, _ :: _ :: _ => exact hp.eq_of_sameItems keyed hq same

/-- The keys of different positions differ unless a key at the top level is taken for another. -/
theorem pathKey_injective {v a b : Term} {p q : List Term} (keyed : v.Everywhere Term.WellKeyed)
    (hp : v.At p a) (hq : v.At q b) (unmistaken : UnmistakenPaths p q)
    (same : (pathKey p).sameKey (pathKey q)) : p = q := by
  have of_plain (plain_p : PlainPath p) (plain_q : PlainPath q) : p = q := by
    rw [pathKey_eq_positionKey plain_p, pathKey_eq_positionKey plain_q] at same
    exact positionKey_injective keyed hp hq plain_p plain_q same
  rcases unmistaken with ⟨plain_p, plain_q⟩ | ⟨tops, notNull⟩
  · exact of_plain plain_p plain_q
  match p, q with
  | [], [] => rfl
  | [], _ :: _ | _ :: _, [] => cases tops
  | top :: p, other :: q =>
    obtain rfl : top = other := Option.some.inj tops
    by_cases tuple : ∃ items, top = .tuple items
    · -- The tuple stands in front of both keys, so these are the same only if the rest is.
      obtain ⟨items, rfl⟩ := tuple
      rw [pathKey_tuple, pathKey_tuple, Term.sameKey, Term.same, Term.sameItems_append,
        Bool.and_eq_true] at same
      refine hp.eq_of_sameItems keyed hq ?_
      rw [Term.sameItems, Term.same, same.1, same.2]
      rfl
    · have bare : top.Bare := ⟨fun null => notNull (congrArg some null), fun items is_tuple =>
        tuple ⟨items, is_tuple⟩⟩
      have plain (rest : List Term) : PlainPath (top :: rest) := by
        rintro _ ⟨⟩
        exact bare
      exact of_plain (plain p) (plain q)

/-- The tour of a table through a value, from the root and without a key. -/
def tourFrom (ctx : Context) (cases : List (Term × Term)) (v : Term) (w : World) :
    EStateM.Result Fault (World × List Visit) Term :=
  tour ctx (w.store.budget (.dispatcher cases) [v]) (.dispatcher cases) cases [] v .null (w, [])

/-- Recursive dispatch confuses two positions only by a key at the top level that is `null` or a
tuple. The positions that a table is run on are handed keys that differ if they stand under the same
key of the top level, other than `null`, or under keys that are neither `null` nor a tuple; and only
under `null` is a position below the root handed the key of the root. Only the table itself counts
and the tables among its handlers, also inside fanouts: the positions that a table standing in a
spec is run on are none of these. -/
theorem visits_keys_differ (ctx : Context) {s : Store} {arguments : List Term} {table : Term}
    (built : recursiveTable s arguments = .ok table) (w : World) {v : Term}
    (keyed : v.Everywhere Term.WellKeyed) :
    ∃ cases visits, table = .dispatcher cases ∧
      tourFrom ctx cases v w = noting visits (call ctx table [v] w) ∧
      (∀ a ∈ visits, v.At a.path a.part) ∧
      (∀ a ∈ visits, ∀ b ∈ visits, UnmistakenPaths a.path b.path → a.path ≠ b.path →
        ¬ a.key.sameKey b.key) ∧
      ∀ a ∈ visits, a.path ≠ [] → a.path.head? ≠ some .null → a.key ≠ .null := by
  obtain ⟨cases, rfl⟩ : ∃ cases, table = .dispatcher cases := by
    unfold recursiveTable SpecMatch.table at built
    split at built
    · cases built
    · split at built
      · cases built
      · exact ⟨_, (Except.ok.inj built).symm⟩
  obtain ⟨visits, inside, follows⟩ := tour_follows ctx v
    (w.store.budget (.dispatcher cases) [v]) .here (.dispatcher cases) cases w []
  refine ⟨cases, visits, rfl, ?_, fun a mem => (inside a mem).at_path, ?_, ?_⟩
  · rw [List.nil_append, call_dispatcher] at follows
    exact follows.trans (congrArg (noting visits) (congrFun (call_root ctx _ cases v).symm w))
  · intro a ha b hb unmistaken differ same
    obtain ⟨at_a, key_a⟩ := inside a ha
    obtain ⟨at_b, key_b⟩ := inside b hb
    rw [key_a, key_b] at same
    exact differ (pathKey_injective keyed at_a at_b unmistaken same)
  · intro a ha below notNull
    obtain ⟨-, key_eq⟩ := inside a ha
    rw [key_eq]
    cases path : a.path with
    | nil => exact absurd path below
    | cons top rest =>
      rw [path] at notNull
      exact pathKey_ne_null (fun null => notNull (congrArg some null)) rest

/-- A position is told apart from the one under the same name, from the one with the same number,
and from those under a tuple. -/
theorem nested_visits_differ :
    let table : List (Term × Term) :=
      [(.builtin .isInt, .str "n"), (.builtin .isContainer, .builtin .descend)]
    let items : Term := .list [.int 7, .null]
    let record : Term := .fields [("b", .int 7)]
    let v : Term := .map .ordered [(.str "a", record), (.int 0, .null), (.str "b", .int 7),
      (.tuple [.str "c"], items)]
    let visits : List Visit := [⟨[], v, .null⟩, ⟨[.str "a"], record, .str "a"⟩,
      ⟨[.str "a", .str "b"], .int 7, .tuple [.str "a", .str "b"]⟩,
      ⟨[.int 0], .null, .int 0⟩, ⟨[.str "b"], .int 7, .str "b"⟩,
      ⟨[.tuple [.str "c"]], items, .tuple [.str "c"]⟩,
      ⟨[.tuple [.str "c"], .int 0], .int 7, .tuple [.str "c", .int 0]⟩,
      ⟨[.tuple [.str "c"], .int 1], .null, .tuple [.str "c", .int 1]⟩]
    recursiveTable {} [.builtin .isInt, .str "n"] = .ok (.dispatcher table) ∧
      v.Everywhere Term.WellKeyed ∧
      (∃ result w', tourFrom .bare table v {} = .ok result (w', visits)) ∧
      ∀ a ∈ visits, ∀ b ∈ visits, UnmistakenPaths a.path b.path → a.path ≠ b.path →
        ¬ a.key.sameKey b.key := by
  intro table items record v visits
  have built : recursiveTable {} [.builtin .isInt, .str "n"] = .ok (.dispatcher table) := rfl
  have keyed : v.Everywhere Term.WellKeyed := by
    refine .intro (by decide) ?_
    simp only [v, Term.entries, List.forall_mem_cons]
    refine ⟨.intro (by decide) ?_, .intro (by decide) (List.forall_mem_nil _),
      .intro (by decide) (List.forall_mem_nil _), .intro (.array rfl) ?_, List.forall_mem_nil _⟩
    · simp only [record, Term.entries, List.map_cons, List.map_nil, List.forall_mem_cons]
      exact ⟨.intro (by decide) (List.forall_mem_nil _), List.forall_mem_nil _⟩
    · simp only [items, Term.entries, Term.positions, List.forall_mem_cons]
      exact ⟨.intro (by decide) (List.forall_mem_nil _), .intro (by decide) (List.forall_mem_nil _),
        List.forall_mem_nil _⟩
  obtain ⟨cases, noted, same, follows, -, differ, -⟩ := visits_keys_differ .bare built {} keyed
  cases same
  have ran : ∃ result w', tourFrom .bare table v {} = .ok result (w', visits) := ⟨_, _, rfl⟩
  obtain ⟨result, w', ran⟩ := ran
  rw [ran] at follows
  have all_noted : noted = visits := by
    cases run : call .bare (.dispatcher table) [v] {} with
    | ok answer after =>
      rw [run] at follows
      cases follows
      rfl
    | error fault after =>
      rw [run] at follows
      cases follows
  rw [all_noted] at differ
  exact ⟨built, keyed, ⟨result, w', ran⟩, differ⟩

/-- Keys at the top level that are paths or nothing are taken for what they look like. -/
theorem path_keys_confuse :
    let v : Term := .map .plain [(.tuple [.str "a", .str "b"], .int 1),
      (.str "a", .map .plain [(.str "b", .int 2)]), (.null, .int 3)]
    v.Everywhere Term.WellKeyed ∧ ∃ cases visits, recursiveTable {} [] = .ok (.dispatcher cases) ∧
      tourFrom .bare cases v {} = noting visits (call .bare (.dispatcher cases) [v] {}) ∧
      (∃ a ∈ visits, ∃ b ∈ visits, a.path ≠ b.path ∧ a.key.sameKey b.key) ∧
      ∃ a ∈ visits, a.path ≠ [] ∧ a.key = .null := by
  intro v
  have keyed : v.Everywhere Term.WellKeyed := by
    refine .intro (by decide) ?_
    simp only [v, Term.entries, List.forall_mem_cons]
    refine ⟨.intro (by decide) (List.forall_mem_nil _), .intro (by decide) ?_,
      .intro (by decide) (List.forall_mem_nil _), List.forall_mem_nil _⟩
    simp only [Term.entries, List.forall_mem_cons]
    exact ⟨.intro (by decide) (List.forall_mem_nil _), List.forall_mem_nil _⟩
  let path_key : Visit := ⟨[.tuple [.str "a", .str "b"]], .int 1, .tuple [.str "a", .str "b"]⟩
  let deep : Visit := ⟨[.str "a", .str "b"], .int 2, .tuple [.str "a", .str "b"]⟩
  let nothing : Visit := ⟨[.null], .int 3, .null⟩
  refine ⟨keyed, _, [⟨[], v, .null⟩, path_key, ⟨[.str "a"], _, .str "a"⟩, deep, nothing], rfl, rfl,
    ⟨path_key, ?_, deep, ?_, ?_, rfl⟩, nothing, ?_, ?_, rfl⟩
  · simp
  · simp
  · simp [path_key, deep]
  · simp
  · simp [nothing]

end SpecMatch
