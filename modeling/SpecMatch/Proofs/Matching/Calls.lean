import SpecMatch.Proofs.Matching.Leaves
import SpecMatch.Proofs.Term.Nesting
import SpecMatch.Proofs.Term.Shape

/-!
# Every leaf that is reached is called once

`Term.walk` goes through a container spec depth first, in the order of its entries, and lists the
calls of its leaves: under a key that the value has, a leaf is called with the child and that key,
under any other key with nothing. Containers are walked where the value has a container too, and
only there.

If the leaves are predicates that always answer, these are the calls that a match makes
(`create_calls_walk`). What they answer has no influence on the calls that follow, nor has it
whether undeclared keys are rejected.
-/

namespace SpecMatch

namespace Term

/-- The calls under a key: with the child there and the key, or with `null` if there is none. -/
def walkUnder (inner : Term → Term → List Call) (value key : Term) : List Call :=
  match value.lookup? key with
  | some child => inner child key
  | none => inner .null .null

mutual

/-- The calls of the leaves of a container spec, in the order of the walk. -/
def walk (spec value key : Term) : List Call :=
  match spec with
  | .list items | .tuple items => if value.isContainer then walkItems 0 items value else []
  | .map _ entries => if value.isContainer then walkEntries entries value else []
  | .fields attributes => if value.isContainer then walkAttributes attributes value else []
  | leaf => [⟨leaf, .call [value, key]⟩]
termination_by structural spec

/-- The calls under the positions of an array spec, counted from `start`. -/
def walkItems (start : Nat) (items : List Term) (value : Term) : List Call :=
  match items with
  | [] => []
  | x :: xs =>
    walkUnder (fun child key => walk x child key) value (.int start) ++
      walkItems (start + 1) xs value
termination_by structural items

/-- The calls under the keys of a map spec. -/
def walkEntries (entries : List (Term × Term)) (value : Term) : List Call :=
  match entries with
  | [] => []
  | (k, x) :: rest =>
    walkUnder (fun child key => walk x child key) value k ++ walkEntries rest value
termination_by structural entries

/-- The calls under the names of a field bag. -/
def walkAttributes (attributes : List (String × Term)) (value : Term) : List Call :=
  match attributes with
  | [] => []
  | (n, x) :: rest =>
    walkUnder (fun child key => walk x child key) value (.str n) ++ walkAttributes rest value
termination_by structural attributes

end

/-- The calls under the keys of a container spec. -/
def walkBelow (entries : Entries) (value : Term) : List Call :=
  entries.flatMap fun e => walkUnder (walk e.2) value e.1

theorem walkItems_eq (start : Nat) (items : List Term) (value : Term) :
    walkItems start items value = walkBelow (positions start items) value := by
  induction items generalizing start with
  | nil => rfl
  | cons x xs ih =>
    rw [walkItems, ih]
    rfl

theorem walkEntries_eq (entries : Entries) (value : Term) :
    walkEntries entries value = walkBelow entries value := by
  induction entries with
  | nil => rfl
  | cons e rest ih =>
    rw [walkEntries, ih]
    rfl

theorem walkAttributes_eq (attributes : Attributes) (value : Term) :
    walkAttributes attributes value =
      walkBelow (attributes.map fun a => (.str a.1, a.2)) value := by
  induction attributes with
  | nil => rfl
  | cons a rest ih =>
    rw [walkAttributes, ih]
    rfl

/-- A container is walked entry by entry against a container, and left alone by anything else. -/
theorem walk_container {spec : Term} (shape : spec.isContainer) (value key : Term) :
    spec.walk value key = if value.isContainer then walkBelow spec.entries value else [] := by
  cases spec with
  | list items | tuple items => rw [walk, walkItems_eq]; rfl
  | map kind entries => rw [walk, walkEntries_eq]; rfl
  | fields attributes => rw [walk, walkAttributes_eq]; rfl
  | _ => cases shape

theorem walk_leaf {spec : Term} (leaf : spec.isContainer = false) (value key : Term) :
    spec.walk value key = [⟨spec, .call [value, key]⟩] := by
  cases spec <;> first | rfl | cases leaf

end Term

/-! ## Evaluations that make calls -/

/-- An evaluation always answers, and makes certain calls. -/
def Eval.Makes {α : Type} (calls : List Call) (m : Eval α) : Prop :=
  ∀ w, ∃ a w', m w = .ok a w' ∧ w'.store.calls.toList = w.store.calls.toList ++ calls

namespace Eval.Makes

variable {α β : Type} {calls later : List Call}

theorem pure (a : α) : (Pure.pure a : Eval α).Makes [] :=
  fun w => ⟨a, w, rfl, (List.append_nil _).symm⟩

theorem note (receiver : Term) (request : Request) :
    (Eval.note receiver request).Makes [⟨receiver, request⟩] :=
  fun _ => ⟨(), _, rfl, Array.toList_push⟩

theorem bind {m : Eval α} {f : α → Eval β} (hm : m.Makes calls) (hf : ∀ a, (f a).Makes later) :
    (m >>= f).Makes (calls ++ later) := by
  intro w
  obtain ⟨a, w', run, first⟩ := hm w
  obtain ⟨b, w'', run', second⟩ := hf a w'
  refine ⟨b, w'', ?_, ?_⟩
  · rw [Eval.bind_apply, run]
    exact run'
  · rw [second, first, List.append_assoc]

/-- What is answered in the end makes no further call. -/
theorem answer {m : Eval α} (hm : m.Makes calls) (f : α → β) :
    (do return f (← m)).Makes calls := by
  have whole := hm.bind fun a => pure (f a)
  rwa [List.append_nil] at whole

end Eval.Makes

/-! ## Predicates -/

/-- A predicate that records how it is called and always answers: a recorder, or an object of the
host that is called as a function. -/
def Context.Records (ctx : Context) : Term → Prop
  | .recorder .. => True
  | .object handle => handle.binds = false ∧ handle.accepts = false ∧
    (∃ arity, handle.arity = some arity ∧ arity.admits 2) ∧
      ∀ arguments calls, ∃ answer, ctx.host.respond handle (.call arguments) calls = .answer answer
  | _ => False

theorem Context.Records.scalar {ctx : Context} {t : Term} (records : ctx.Records t) :
    t.isContainer = false := by
  cases t <;> first | rfl | exact records.elim

/-- Matching a predicate is calling it with the value and the key. -/
theorem predicate_makes {ctx : Context} {t : Term} (records : ctx.Records t) (budget : Nat)
    (value key : Term) (closed : Bool) :
    ((interp ctx (budget + 1)).create t value key closed).Makes [⟨t, .call [value, key]⟩] := by
  cases t with
  | recorder name result =>
    have called : (callAt ctx (interp ctx budget) (.recorder name result) [value, key]).Makes
        [⟨.recorder name result, .call [value, key]⟩] :=
      (Eval.Makes.note (.recorder name result) (.call [value, key])).answer fun _ => result
    exact called.answer fun outcome => Verdict.ofOutcome outcome value
  | object handle =>
    obtain ⟨binds, accepts, ⟨arity, callable, admits⟩, answers⟩ := records
    rw [create_predicate ctx budget value key closed binds accepts callable admits]
    have asked : (ctx.request (interp ctx budget) handle (.call [value, key])).Makes
        [⟨.object handle, .call [value, key]⟩] := by
      intro w
      obtain ⟨answer, responds⟩ := answers [value, key] w.store.calls
      have run : ctx.request (interp ctx budget) handle (.call [value, key]) w = .ok answer
          ((Eval.note (.object handle) (.call [value, key])).after w) := by
        show (ctx.host.respond handle (.call [value, key]) w.store.calls).run (interp ctx budget)
          _ = _
        rw [responds]
        rfl
      exact ⟨answer, _, run, Array.toList_push⟩
    exact asked.answer fun outcome => Verdict.ofOutcome outcome value
  | _ => exact records.elim

/-! ## Containers -/

section

variable {ctx : Context} {budget : Nat}

/-- Matching a spec makes the calls of its walk, whatever the value. -/
def Interp.Walks (i : Interp) (spec : Term) : Prop :=
  ∀ value key closed, value.Present → (i.create spec value key closed).Makes (spec.walk value key)

/-- Every entry is matched, whatever the others have come to. -/
theorem checkEntries_makes {i : Interp} {entries : Entries} (walks : ∀ e ∈ entries, i.Walks e.2)
    {value : Term} (present : value.Present) :
    (checkEntries i value entries).Makes (Term.walkBelow entries value) := by
  induction entries with
  | nil => exact .pure _
  | cons e rest ih =>
    obtain ⟨first, later⟩ := List.forall_mem_cons.1 walks
    have later := ih later
    rw [Term.walkBelow] at later ⊢
    rw [checkEntries, List.flatMap_cons, Term.walkUnder, Term.lookup]
    cases found : value.lookup? e.1 with
    | none =>
      have optional := (first .null .null false Term.present_null).answer Verdict.accepted
      exact optional.bind fun _ => later.answer _
    | some child =>
      have present := present.child found
      have matched := first child e.1 false present
      dsimp only [Option.getD_some]
      split
      · exact absurd rfl present.here
      · exact matched.bind fun _ => later.answer _

/-- A container spec makes the calls of its entries against a container, and none against anything
else. -/
theorem container_walks {spec : Term} (shape : spec.isContainer) (declarative : spec.Declarative)
    (walks : ∀ e ∈ spec.entries, (interp ctx budget).Walks e.2) :
    (interp ctx (budget + 1)).Walks spec := by
  intro value key closed present
  rw [Term.walk_container shape]
  cases container : value.isContainer with
  | true =>
    rw [create_container ctx budget value key closed shape declarative container, if_pos rfl]
    exact (checkEntries_makes walks present).answer fun checked =>
      gather value (value.entries.map (entryVerdict checked closed)) (!checked.incomplete)
  | false =>
    rw [create_container_scalar ctx budget value key closed shape declarative container,
      matchLiteral_container_scalar shape container, if_neg Bool.false_ne_true]
    exact .pure _

end

/-- The specs of containers in containers with recording predicates as leaves. -/
def Context.Recording (ctx : Context) (spec : Term) : Prop :=
  spec.Everywhere fun t => t.isContainer ∧ t.Declarative ∨ ctx.Records t

/-- With a level for each container on the way down, matching makes the calls of the walk. -/
theorem recording_walks {ctx : Context} {spec : Term} (recording : ctx.Recording spec)
    {budget : Nat} (enough : spec.nesting ≤ budget) : (interp ctx budget).Walks spec := by
  induction recording generalizing budget with
  | @intro spec here _ ih =>
    obtain ⟨below, rfl⟩ : ∃ below, budget = below + 1 :=
      ⟨budget - 1, by have := spec.nesting_pos; omega⟩
    rcases here with ⟨shape, declarative⟩ | records
    · refine container_walks shape declarative fun e mem => ih e mem ?_
      have less := Term.nesting_lt_of_mem mem
      omega
    · intro value key closed _
      rw [Term.walk_leaf records.scalar]
      exact predicate_makes records below value key closed

/-- The library matches a spec with at least a level for each term in it on the way down. -/
theorem Store.nesting_le_budget (s : Store) (spec : Term) (arguments : List Term) :
    spec.nesting ≤ s.budget spec arguments :=
  (Nat.le_add_left _ _).trans (s.programs_le_budget spec arguments)

/-- Matching nested containers calls every leaf that is reached exactly once, in the order of the
spec, with the child and the key under which the spec declares it, or with nothing where the value
lacks the key. It makes no other calls, and these whatever the calls come to and whether or not
undeclared keys are rejected. -/
theorem create_calls_walk (ctx : Context) {spec value : Term} (recording : ctx.Recording spec)
    (present : value.Present) (key : Term) (closed : Bool) (w : World) :
    ∃ verdict w', create ctx spec value key closed w = .ok verdict w' ∧
      w'.store.calls.toList = w.store.calls.toList ++ spec.walk value key :=
  recording_walks recording (w.store.nesting_le_budget spec [value, key]) value key closed present w

/-- A leaf on a container, an absent key, and containers where the value has none: the rejection of
the first leaf does not stop the others. -/
theorem mismatches_call_walk :
    let ctx : Context := { Context.bare with host := ⟨fun _ _ _ => .answer (.bool false)⟩ }
    let spy : Term := .object ⟨0, .function, false, false, some ⟨1, some 3⟩, none⟩
    let seen (name : String) : Term := .recorder name (.left .null)
    let spec : Term := .map .ordered [
      (.bool true, spy), (.str "absent", seen "absent"), (.str "none", .list [spy]),
      (.str "b", .list [seen "first", .fields [("x", spy)], seen "third"])]
    let value : Term := .map .plain [
      (.str "b", .tuple [.int 5, .str "scalar"]), (.int 1, .list [.null]), (.str "extra", .int 7)]
    let calls : List Call := [⟨spy, .call [.list [.null], .bool true]⟩,
      ⟨seen "absent", .call [.null, .null]⟩, ⟨seen "first", .call [.int 5, .int 0]⟩,
      ⟨seen "third", .call [.null, .null]⟩]
    ctx.Recording spec ∧ value.Present ∧ ∀ closed, ∃ verdict w',
      create ctx spec value .null closed {} = .ok verdict w' ∧ w'.store.calls.toList = calls := by
  intro ctx spy seen spec value calls
  have spying : ctx.Records spy :=
    ⟨rfl, rfl, ⟨_, rfl, rfl⟩, fun _ _ => ⟨.bool false, rfl⟩⟩
  have leaf {t : Term} (records : ctx.Records t) : ctx.Recording t :=
    .intro (.inr records) (Term.entries_scalar records.scalar ▸ List.forall_mem_nil _)
  have recording : ctx.Recording spec := by
    refine .intro (.inl ⟨rfl, trivial⟩) ?_
    simp only [spec, Term.entries, List.forall_mem_cons]
    refine ⟨leaf spying, leaf trivial, .intro (.inl ⟨rfl, trivial⟩) ?_,
      .intro (.inl ⟨rfl, trivial⟩) ?_, List.forall_mem_nil _⟩
    · simp only [Term.entries, Term.positions, List.forall_mem_cons]
      exact ⟨leaf spying, List.forall_mem_nil _⟩
    · simp only [Term.entries, Term.positions, List.forall_mem_cons]
      refine ⟨leaf trivial, .intro (.inl ⟨rfl, rfl, rfl⟩) ?_, leaf trivial, List.forall_mem_nil _⟩
      simp only [Term.entries, List.map_cons, List.map_nil, List.forall_mem_cons]
      exact ⟨leaf spying, List.forall_mem_nil _⟩
  have scalar {x : Term} (isScalar : x.isContainer = false) (there : x ≠ .missing) : x.Present :=
    .intro there (Term.entries_scalar isScalar ▸ List.forall_mem_nil _)
  have present : value.Present := by
    refine .intro (by simp [value]) ?_
    simp only [value, Term.entries, List.forall_mem_cons]
    refine ⟨.intro (by simp) ?_, .intro (by simp) ?_, scalar rfl (by simp), List.forall_mem_nil _⟩
    · simp only [Term.entries, Term.positions, List.forall_mem_cons]
      exact ⟨scalar rfl (by simp), scalar rfl (by simp), List.forall_mem_nil _⟩
    · simp only [Term.entries, Term.positions, List.forall_mem_cons]
      exact ⟨scalar rfl (by simp), List.forall_mem_nil _⟩
  refine ⟨recording, present, fun closed => ?_⟩
  obtain ⟨verdict, w', answers, made⟩ := create_calls_walk ctx recording present .null closed {}
  -- The keys `1` and `true` are the same to the map, but the leaf is handed the one of the spec.
  have same : (Term.int 1).sameKey (.bool true) := by decide +kernel
  have other : (Term.str "b").sameKey (.bool true) = false := rfl
  have found : value.lookup? (.bool true) = some (.list [.null]) := by
    simp [value, Term.lookup?, Term.hashable, Entries.get?, same, other]
  have walked : spec.walk value .null = calls := by
    have container : value.isContainer := rfl
    rw [Term.walk_container rfl, if_pos container]
    simp only [spec, Term.entries, Term.walkBelow, List.flatMap_cons, List.flatMap_nil,
      Term.walkUnder, found]
    rfl
  rw [walked] at made
  exact ⟨verdict, w', answers, made⟩

end SpecMatch
