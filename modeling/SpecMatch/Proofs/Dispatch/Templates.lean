import SpecMatch.Proofs.Dispatch.FirstMatch
import SpecMatch.Proofs.Evaluation.Budget
import SpecMatch.Proofs.Evaluation.Outcome
import SpecMatch.Proofs.Spec.Reordering
import SpecMatch.Proofs.Term.Position
import SpecMatch.Proofs.Term.Rebuild

/-!
# Templates

A handler that is a container is a template, and its leaves are replaced. `Term.leaves` lists them
with the paths of keys that lead to them, depth first, and `fillLeaf` says what becomes of one leaf.
Filling the template is going through that list once (`fill_endAlike`): the result has the
containers of the template, with the same keys in the same order, and in the position of each leaf
what has become of it (`Term.RenderedAs`). What is put there is not looked at again, whether it is a
container or a function.
-/

namespace SpecMatch

namespace Term

/-! ## Leaves -/

mutual

/-- The leaves of a template in order, each with the path of keys that leads to it. -/
def leaves : Term → List (List Term × Term)
  | .list items | .tuple items => leavesOfItems 0 items
  | .map _ entries => leavesOfEntries entries
  | .fields attributes => leavesOfAttributes attributes
  | x => [([], x)]

/-- The leaves of items under their positions, counted from `start`. -/
def leavesOfItems (start : Nat) : List Term → List (List Term × Term)
  | [] => []
  | x :: xs => (leaves x).map (fun l => (.int start :: l.1, l.2)) ++ leavesOfItems (start + 1) xs

/-- The leaves of the values of entries under their keys. -/
def leavesOfEntries : List (Term × Term) → List (List Term × Term)
  | [] => []
  | (k, v) :: es => (leaves v).map (fun l => (k :: l.1, l.2)) ++ leavesOfEntries es

/-- The leaves of the values of attributes under their names. -/
def leavesOfAttributes : List (String × Term) → List (List Term × Term)
  | [] => []
  | (n, v) :: as => (leaves v).map (fun l => (.str n :: l.1, l.2)) ++ leavesOfAttributes as

end

/-- The leaves below an entry. -/
def leavesUnder (e : Term × Term) : List (List Term × Term) :=
  e.2.leaves.map fun l => (e.1 :: l.1, l.2)

section

variable {x : Term}

theorem leaves_scalar (scalar : x.isContainer = false) : x.leaves = [([], x)] := by
  cases x with
  | list _ | tuple _ | map _ _ | fields _ => cases scalar
  | _ => rfl

theorem leavesOfItems_eq (items : List Term) (start : Nat) :
    leavesOfItems start items = (positions start items).flatMap leavesUnder := by
  induction items generalizing start with
  | nil => rfl
  | cons x xs ih =>
    rw [leavesOfItems, ih]
    rfl

theorem leavesOfEntries_eq (entries : Entries) :
    leavesOfEntries entries = entries.flatMap leavesUnder := by
  induction entries with
  | nil => rfl
  | cons e rest ih =>
    rw [leavesOfEntries, ih]
    rfl

theorem leavesOfAttributes_eq (attributes : Attributes) :
    leavesOfAttributes attributes =
      (attributes.map fun a => (.str a.1, a.2)).flatMap leavesUnder := by
  induction attributes with
  | nil => rfl
  | cons a rest ih =>
    rw [leavesOfAttributes, ih]
    rfl

/-- The leaves of a container are those of its children in order. -/
theorem leaves_container (container : x.isContainer) :
    x.leaves = x.entries.flatMap leavesUnder := by
  cases x with
  | list items | tuple items => exact leavesOfItems_eq items 0
  | map kind entries => exact leavesOfEntries_eq entries
  | fields attributes => exact leavesOfAttributes_eq attributes
  | _ => cases container

/-- The leaves are what stands in a position and is no container. -/
theorem mem_leaves {l : List Term × Term} :
    l ∈ x.leaves ↔ x.At l.1 l.2 ∧ l.2.isContainer = false := by
  induction x using children_induction generalizing l with
  | step x ih =>
  cases container : x.isContainer with
  | false =>
    rw [leaves_scalar container, List.mem_singleton]
    constructor
    · rintro rfl
      exact ⟨.here, container⟩
    · rintro ⟨stands, -⟩
      cases l with
      | mk path leaf =>
        cases stands with
        | here => rfl
        | child mem =>
          rw [entries_scalar container] at mem
          cases mem
  | true =>
    rw [leaves_container container, List.mem_flatMap]
    constructor
    · rintro ⟨e, mem, below⟩
      obtain ⟨l, inside, rfl⟩ := List.mem_map.1 below
      obtain ⟨stands, scalar⟩ := (ih e mem).1 inside
      exact ⟨.child mem stands, scalar⟩
    · rintro ⟨stands, scalar⟩
      cases l with
      | mk path leaf =>
        cases stands with
        | here =>
          rw [container] at scalar
          cases scalar
        | @child _ _ e path mem stands =>
          refine ⟨e, mem, List.mem_map.2 ⟨(path, leaf), ?_, rfl⟩⟩
          exact (ih e mem).2 ⟨stands, scalar⟩

end

/-! ## Rendered templates -/

/-- The result of filling a template: where the template has a container, it has one with the same
keys, and in the position of each leaf it has the filling of that leaf. -/
structure RenderedAs (template : Term) (fillings : List Term) (result : Term) : Prop where
  containers : ∀ path x, template.At path x → x.isContainer →
    ∃ y, result.At path y ∧ x.SameKeys y
  leaves : template.leaves.Forall₂ (fun l filling => result.At l.1 filling) fillings

theorem RenderedAs.scalar {leaf : Term} (scalar : leaf.isContainer = false) (filling : Term) :
    leaf.RenderedAs [filling] filling where
  containers path x stands container := by
    cases stands with
    | here =>
      rw [scalar] at container
      cases container
    | child mem =>
      rw [entries_scalar scalar] at mem
      cases mem
  leaves := by
    rw [leaves_scalar scalar]
    exact .cons .here .nil

/-- What replaces a child stands under the key of that child. -/
theorem forall₂_mem_rekeyed {β : Type} {R : Term × Term → β → Prop} {x : Term} {bs : List β}
    (each : x.entries.Forall₂ R bs) (f : β → Term) :
    x.entries.Forall₂ (fun e b => R e b ∧ (e.1, f b) ∈ x.rekeyed (bs.map f)) bs := by
  rw [rekeyed]
  generalize x.entries = entries at each ⊢
  induction each with
  | nil => exact .nil
  | cons first _ ih =>
    refine .cons ⟨first, List.mem_cons_self⟩ (ih.imp fun e b h => ⟨h.1, ?_⟩)
    exact List.mem_cons_of_mem _ h.2

/-- Each child is rendered by the fillings of its own leaves. -/
theorem RenderedAs.container {x : Term} (container : x.isContainer)
    {rendered : List (List Term × Term)}
    (each : x.entries.Forall₂ (fun e r => e.2.RenderedAs r.1 r.2) rendered) :
    x.RenderedAs (rendered.flatMap (·.1)) (x.withChildren (rendered.map (·.2))) := by
  have length : (rendered.map (·.2)).length = x.entries.length := by
    rw [List.length_map, each.length_eq]
  have placed := forall₂_mem_rekeyed each (·.2)
  rw [← entries_withChildren container length] at placed
  constructor
  · intro path y stands inner
    cases stands with
    | here => exact ⟨_, .here, .withChildren container length⟩
    | @child _ _ e path mem stands =>
      obtain ⟨r, -, child, under⟩ := exists_mem_of_forall₂ placed.flip mem
      obtain ⟨z, there, same⟩ := child.containers path y stands inner
      exact ⟨z, At.child (e := (e.1, r.2)) under there, same⟩
  · rw [leaves_container container]
    clear length each
    generalize x.withChildren (rendered.map (·.2)) = result at placed ⊢
    generalize x.entries = entries at placed ⊢
    induction placed with
    | nil => exact .nil
    | @cons e r _ _ first _ ih =>
      obtain ⟨child, under⟩ := first
      rw [List.flatMap_cons, List.flatMap_cons]
      refine List.rel_append ?_ ih
      rw [leavesUnder, List.forall₂_map_left_iff]
      exact child.leaves.imp fun l filling there => At.child (e := (e.1, r.2)) under there

end Term

/-! ## Filling a template -/

section

variable (i : Interp) (value key : Term)

/-- What becomes of a leaf: actions are unwrapped, functions are called with the value and its key,
and everything else, classes too, stands for itself. -/
def fillLeaf (leaf : Term) : Eval Term :=
  match leaf with
  | .action result => pure result
  | .cls c => pure (.cls c)
  | leaf => if leaf.isCallable then i.call leaf [value, key] else pure leaf

theorem fill_scalar {x : Term} (scalar : x.isContainer = false) :
    fill i value key x = fillLeaf i value key x := by
  cases x with
  | list _ | tuple _ | map _ _ | fields _ => cases scalar
  | _ => rfl

/-- Going through pairs and replacing their values is going through the values. -/
theorem eq_mapM_of_cons {κ : Type} {f : Term → Eval Term}
    {g : List (κ × Term) → Eval (List (κ × Term))} (nil : g [] = pure [])
    (cons : ∀ k v rest, g ((k, v) :: rest) = do
      let result ← f v
      return (k, result) :: (← g rest)) (pairs : List (κ × Term)) :
    g pairs = do
      return pairs.zipWith (fun e result => (e.1, result)) (← (pairs.map (·.2)).mapM f) := by
  induction pairs with
  | nil => rw [nil]; rfl
  | cons e rest ih =>
    rw [cons, ih, List.map_cons, List.mapM_cons]
    simp only [bind_assoc, pure_bind, List.zipWith_cons_cons]

/-- Filling a container is filling its children in order. -/
theorem fill_container {x : Term} (container : x.isContainer) :
    fill i value key x = do
      return x.withChildren (← x.children.mapM (fill i value key)) := by
  have items (xs : List Term) : fillItems i value key xs = xs.mapM (fill i value key) := by
    induction xs with
    | nil => rfl
    | cons x xs ih => rw [fillItems, List.mapM_cons, ih]
  cases x with
  | list xs => rw [fill, items, Term.children_list]; rfl
  | tuple xs => rw [fill, items, Term.children_tuple]; rfl
  | map kind entries =>
    rw [fill, eq_mapM_of_cons (g := fillEntries i value key) rfl (fun _ _ _ => rfl) entries,
      bind_assoc]
    rfl
  | fields attributes =>
    rw [fill, eq_mapM_of_cons (g := fillAttributes i value key) rfl (fun _ _ _ => rfl) attributes,
      Term.children_fields, bind_assoc]
    rfl
  | _ => cases container

/-- What becomes of leaves, in order. -/
def fillLeaves (leaves : List (List Term × Term)) : Eval (List Term) :=
  leaves.mapM fun l => fillLeaf i value key l.2

/-- If every child is filled by going through its leaves, so are all children. -/
theorem fillChildren_endAlike {entries : Entries}
    (each : ∀ e ∈ entries, ∀ w,
      Eval.EndAlike e.2.RenderedAs (fillLeaves i value key e.2.leaves w) (fill i value key e.2 w))
    (w : World) :
    Eval.EndAlike
      (fun fillings results => ∃ rendered : List (List Term × Term),
        entries.Forall₂ (fun e r => e.2.RenderedAs r.1 r.2) rendered ∧
          fillings = rendered.flatMap (·.1) ∧ results = rendered.map (·.2))
      (fillLeaves i value key (entries.flatMap Term.leavesUnder) w)
      ((entries.map (·.2)).mapM (fill i value key) w) := by
  induction entries generalizing w with
  | nil => exact ⟨rfl, [], .nil, rfl, rfl⟩
  | cons e rest ih =>
    obtain ⟨first, later⟩ := List.forall_mem_cons.1 each
    have leaves : fillLeaves i value key ((e :: rest).flatMap Term.leavesUnder) = do
        let fillings ← fillLeaves i value key e.2.leaves
        return fillings ++ (← fillLeaves i value key (rest.flatMap Term.leavesUnder)) := by
      rw [List.flatMap_cons, fillLeaves, List.mapM_append, Term.leavesUnder, List.mapM_map]
      rfl
    rw [leaves, List.map_cons, List.mapM_cons]
    refine Eval.EndAlike.bind (first w) fun fillings result v child => ?_
    refine Eval.EndAlike.bind (ih later v) fun more results u others => ⟨rfl, ?_⟩
    obtain ⟨rendered, all, rfl, rfl⟩ := others
    exact ⟨(fillings, result) :: rendered, .cons child all, rfl, rfl⟩

/-- Filling a template is going through its leaves once. -/
theorem fill_endAlike (template : Term) (w : World) :
    Eval.EndAlike template.RenderedAs (fillLeaves i value key template.leaves w)
      (fill i value key template w) := by
  induction template using Term.children_induction generalizing w with
  | step template ih =>
  cases container : template.isContainer with
  | false =>
    have leaf : fillLeaves i value key template.leaves = do
        return [← fillLeaf i value key template] := by
      rw [Term.leaves_scalar container]
      simp [fillLeaves]
    have scalar : fill i value key template = do
        return id (← fillLeaf i value key template) := by
      rw [fill_scalar i value key container]
      exact (bind_pure _).symm
    rw [leaf, scalar]
    exact .of_answers fun filling _ _ => .scalar container filling
  | true =>
    have children := fillChildren_endAlike i value key
      (fun e mem w => ih e mem w) w
    rw [fill_container i value key container, Term.leaves_container container,
      ← bind_pure (fillLeaves i value key _)]
    refine Eval.EndAlike.bind children fun fillings results v alike => ⟨rfl, ?_⟩
    obtain ⟨rendered, each, rfl, rfl⟩ := alike
    exact .container container each

end

/-! ## Tables with a template -/

/-- A handler that is a container is filled. -/
theorem runHandler_template (i : Interp) (self value key : Term) {template : Term}
    (container : template.isContainer) :
    runHandler i self value key template = fill i value key template := by
  cases template with
  | list _ | tuple _ | map _ _ | fields _ => rfl
  | _ => cases container

/-- A table whose specs reject up to a case with a template tells which case it is and fills the
template. -/
theorem runCases_template {i : Interp} (self : Term) {value key spec template : Term}
    {before : List (Term × Term)} {w v u : World} (container : template.isContainer)
    (rejected : someAccepts i value key before w = .ok false v)
    (accepted : i.accepts spec value key false v = .ok true u) (after : List (Term × Term)) :
    runCases i self value key 0 (before ++ (spec, template) :: after) w =
      fill i value key template ((Eval.emit (.matched before.length key)).after u) := by
  have skipped := runCases_append_apply i self value key before ((spec, template) :: after) 0 w
  rw [rejected, Nat.zero_add] at skipped
  dsimp only at skipped
  rw [skipped, runCases, Eval.bind_apply, accepted]
  dsimp only
  rw [if_pos rfl, Eval.bind_apply, runHandler_template i self value key container]
  rfl

/-- A case that accepts fills the template that is its handler by going through the leaves once, in
order. Both runs end in the same world, so the table calls what going through the leaves calls: each
function among them once, with the value and its key. If a leaf fails, both fail with its fault. -/
theorem call_renders_template (ctx : Context) {template : Term} (container : template.isContainer)
    (before after : List (Term × Term)) (spec value key : Term) (w : World) :
    let table := Term.dispatcher (before ++ (spec, template) :: after)
    (∃ levels, call ctx table [value, key] w =
      (interp ctx (levels + 1)).call table [value, key] w) ∧
    (∀ l, l ∈ template.leaves ↔ template.At l.1 l.2 ∧ l.2.isContainer = false) ∧
    ∀ levels v u, someAccepts (interp ctx levels) value key before w = .ok false v →
      (interp ctx levels).accepts spec value key false v = .ok true u →
      let told := (Eval.emit (.matched before.length key)).after u
      Eval.EndAlike template.RenderedAs
        (fillLeaves (interp ctx levels) value key template.leaves told)
        ((interp ctx (levels + 1)).call table [value, key] w) := by
  intro table
  refine ⟨?_, fun l => Term.mem_leaves, ?_⟩
  · obtain ⟨levels, budget⟩ := w.store.exists_budget_succ table [value, key]
    refine ⟨levels, ?_⟩
    rw [← budget]
    rfl
  · intro levels v u rejected accepted told
    have filled := runCases_template table container rejected accepted after
    have run : (interp ctx (levels + 1)).call table [value, key] w =
      fill (interp ctx levels) value key template told := filled
    rw [run]
    exact fill_endAlike (interp ctx levels) value key template told

/-- A template with leaves of all kinds; what the recorder answers has a function in it. -/
theorem mixed_template_rendered :
    let answer : Term := .list [.builtin .isInt, .action .null]
    let f : Term := .recorder "f" answer
    let template : Term := .map .ordered [
      (.str "kept", .action (.list [f])),
      (.int 1, .tuple [f, .cls .int, .var 0]),
      (.str "rest", .fields [("table", .dispatcher [(.builtin .isInt, .list [f])]),
        ("plain", .list [.str "text", .left .null])])]
    let result : Term := .map .plain [
      (.str "kept", .list [f]),
      (.int 1, .tuple [answer, .cls .int, .str "bound"]),
      (.str "rest", .fields [("table", .list [answer]),
        ("plain", .list [.str "text", .left .null])])]
    let table : Term := .dispatcher [(.builtin .isString, f), (.builtin .isInt, template)]
    let w : World := { store := { cells := #[⟨"x", .null, some (.str "bound")⟩] } }
    ∃ w', (interp .bare 9).call table [.int 5, .str "k"] w = .ok result w' ∧
      w'.store.calls.toList = [⟨f, .call [.int 5, .str "k"]⟩, ⟨f, .call [.int 5, .str "k"]⟩] ∧
      template.RenderedAs [.list [f], answer, .cls .int, .str "bound", .list [answer], .str "text",
        .left .null] result := by
  intro answer f template result table w
  have container : template.isContainer := rfl
  have rendered := (call_renders_template .bare container [(.builtin .isString, f)] []
    (.builtin .isInt) (.int 5) (.str "k") w).2.2 8 _ _ rfl rfl
  exact ⟨_, rfl, rfl, rendered.2⟩

end SpecMatch
