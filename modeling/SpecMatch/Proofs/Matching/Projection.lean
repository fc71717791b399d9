import SpecMatch.Proofs.Matching.Answers

/-!
# The projections of a match

`Term.lval` and `Term.rval` see through all ways in which a match answers. Together they split the
value that was matched: both have its shape, and each leaf of it stands on one of the two sides and
is `null` on the other (`create_splits`). If the match accepts, nothing at all is on the failing
side (`create_keeps_all`).
-/

namespace SpecMatch

namespace Term

/-! ## Parts of payloads -/

section

variable {x : Term} (side : Side) (keep : Bool)

/-- A container of verdicts is projected child by child, any other one as a whole. -/
theorem payloadPart_container (container : x.isContainer) :
    payloadPart side keep x =
      if x.children.all isVerdict then x.withChildren (x.children.map (part side))
      else shown keep x := by
  rw [withChildren_map]
  cases x with
  | list items =>
    rw [children_list, payloadPart, eq_map_of_cons (g := itemParts side) rfl fun _ _ => rfl]
  | tuple items =>
    rw [children_tuple, payloadPart, eq_map_of_cons (g := itemParts side) rfl fun _ _ => rfl]
  | map kind entries =>
    rw [payloadPart, eq_map_of_cons (g := entryParts side) rfl fun _ _ => rfl, children,
      List.all_map]
    rfl
  | fields attributes =>
    rw [children_fields, payloadPart, eq_map_of_cons (g := attributeParts side) rfl fun _ _ => rfl,
      List.all_map]
    rfl
  | _ => cases container

theorem payloadPart_scalar (scalar : x.isContainer = false) (noVerdict : x.isVerdict = false) :
    payloadPart side keep x = shown keep x := by
  cases x <;> first | rfl | contradiction

end

/-! ## Values as a whole -/

theorem asDict_withChildren {x : Term} (container : x.isContainer) {children : List Term}
    (length : children.length = x.children.length) :
    (x.withChildren children).asDict = x.withChildren (children.map asDict) := by
  rw [asDict_container (by rwa [isContainer_withChildren]), children_withChildren container length,
    withChildren_withChildren length]

/-- A value of plain data can be projected in two ways: as it is, or as its null shape. -/
theorem Plain.payloadPart {value : Term} (plain : value.Plain) (side : Side) :
    (payloadPart side true value).asDict = value.asDict ∧
      payloadPart side false value = value.nullShape := by
  cases container : value.isContainer with
  | false =>
    rw [payloadPart_scalar side true container plain.here.2,
      payloadPart_scalar side false container plain.here.2]
    exact ⟨rfl, rfl⟩
  | true =>
    rw [payloadPart_container side true container, payloadPart_container side false container]
    by_cases verdicts : value.children.all isVerdict
    · -- No child is a verdict, so there is no child.
      have empty : value.children = [] := by
        cases children : value.children with
        | nil => rfl
        | cons c cs =>
          have mem : c ∈ value.children := children ▸ List.mem_cons_self
          obtain ⟨e, he, rfl⟩ := List.mem_map.1 mem
          have isVerdict := List.all_eq_true.1 verdicts e.2 mem
          rw [(plain.child he).here.2] at isVerdict
          cases isVerdict
      rw [if_pos verdicts, if_pos verdicts, asDict_withChildren container (List.length_map _),
        asDict_container container, nullShape_container container, empty]
      exact ⟨rfl, rfl⟩
    · rw [if_neg verdicts, if_neg verdicts]
      exact ⟨rfl, rfl⟩

theorem Plain.asDict_nullShape {value : Term} (plain : value.Plain) :
    value.nullShape.asDict = value.nullShape := by
  induction plain with
  | @intro x _ _ ih =>
    cases container : x.isContainer with
    | false => rw [nullShape_scalar container]; rfl
    | true =>
      rw [nullShape_container container, asDict_withChildren container (List.length_map _),
        List.map_map]
      congr 1
      refine List.map_congr_left ?_
      intro c mem
      obtain ⟨e, he, rfl⟩ := List.mem_map.1 mem
      exact ih e he

end Term

/-! ## Gathered verdicts -/

/-- What is gathered from the children is projected child by child. -/
theorem part_gather {x : Term} (container : x.isContainer) {verdicts : List Verdict}
    (length : verdicts.length = x.children.length) (complete : Bool) (side : Side) :
    Term.part side (gather x verdicts complete).toTerm =
      x.withChildren (verdicts.map fun verdict => Term.part side verdict.toTerm) := by
  have length' : (verdicts.map Verdict.toTerm).length = x.children.length := by
    rwa [List.length_map]
  have all_verdicts : (verdicts.map Verdict.toTerm).all Term.isVerdict := by
    rw [List.all_map, List.all_eq_true]
    intro verdict _
    cases verdict <;> rfl
  have payload (keep : Bool) :
      Term.payloadPart side keep (x.withChildren (verdicts.map Verdict.toTerm)) =
        x.withChildren (verdicts.map fun verdict => Term.part side verdict.toTerm) := by
    rw [Term.payloadPart_container side keep (by rwa [Term.isContainer_withChildren]),
      Term.children_withChildren container length', if_pos all_verdicts,
      Term.withChildren_withChildren length', List.map_map]
    rfl
  unfold gather Verdict.when
  split
  · exact payload _
  · exact payload _

/-! ## The two projections split the value -/

/-- Two values have the shape of a third one, and each of its leaves stands in one of them while
the other has `null` there. -/
inductive Splits : (value l r : Term) → Prop
  | left {x : Term} : x.isContainer = false → Splits x x .null
  | right {x : Term} : x.isContainer = false → Splits x .null x
  | container {x : Term} {ls rs : List Term} : x.isContainer →
      ls.length = x.children.length → rs.length = x.children.length →
      (∀ (i : Nat) (c l r : Term), x.children[i]? = some c → ls[i]? = some l → rs[i]? = some r →
        Splits c l r) → Splits x (x.withChildren ls) (x.withChildren rs)

/-- Related sequences are related in every place. -/
theorem forall₂_getElem? {α β : Type} {R : α → β → Prop} {as : List α} {bs : List β}
    (h : as.Forall₂ R bs) {i : Nat} {a : α} {b : β} (ha : as[i]? = some a) (hb : bs[i]? = some b) :
    R a b := by
  induction h generalizing i with
  | nil => cases ha
  | cons first _ ih =>
    cases i with
    | zero =>
      cases ha
      cases hb
      exact first
    | succ i => exact ih ha hb

/-- A container is split if its children are. -/
theorem Splits.of_forall₂ {x : Term} (container : x.isContainer) {β : Type} {l r : β → Term}
    {bs : List β} (each : x.entries.Forall₂ (fun e b => Splits e.2 (l b) (r b)) bs) :
    Splits x (x.withChildren (bs.map l)) (x.withChildren (bs.map r)) := by
  have length : bs.length = x.children.length := Term.length_children_of_forall₂ each
  refine .container container (by rwa [List.length_map]) (by rwa [List.length_map])
    fun i c lc rc hc hl hr => ?_
  rw [Term.children, List.getElem?_map, Option.map_eq_some_iff] at hc
  rw [List.getElem?_map, Option.map_eq_some_iff] at hl hr
  obtain ⟨e, he, rfl⟩ := hc
  obtain ⟨b, hb, rfl⟩ := hl
  obtain ⟨b', hb', rfl⟩ := hr
  cases hb.symm.trans hb'
  exact forall₂_getElem? each he hb

/-- A value as a whole stands on one side, its null shape on the other. -/
theorem Term.Plain.splits {value : Term} (plain : value.Plain) :
    Splits value value.asDict value.nullShape ∧ Splits value value.nullShape value.asDict := by
  induction plain with
  | @intro x _ _ ih =>
    cases container : x.isContainer with
    | false =>
      rw [Term.asDict_scalar container, Term.nullShape_scalar container]
      exact ⟨.left container, .right container⟩
    | true =>
      rw [Term.asDict_container container, Term.nullShape_container container]
      exact ⟨.of_forall₂ container (List.forall₂_map_right_iff.2
          (List.forall₂_same.2 fun e mem => (ih e mem).1)),
        .of_forall₂ container (List.forall₂_map_right_iff.2
          (List.forall₂_same.2 fun e mem => (ih e mem).2))⟩

/-- The projections of a verdict split the value that it is about, maps read as plain ones. -/
def SplitBy (value : Term) (verdict : Verdict) : Prop :=
  Splits value verdict.toTerm.lval.asDict verdict.toTerm.rval.asDict

theorem splitBy_rules : AnswerRules SplitBy where
  whole {value} accepted plain := by
    obtain ⟨kept, hidden⟩ := plain.payloadPart .left
    obtain ⟨kept', hidden'⟩ := plain.payloadPart .right
    cases accepted with
    | false =>
      show Splits value (Term.payloadPart .left true value).asDict
        (Term.payloadPart .right false value).asDict
      rw [kept, hidden', plain.asDict_nullShape]
      exact plain.splits.1
    | true =>
      show Splits value (Term.payloadPart .left false value).asDict
        (Term.payloadPart .right true value).asDict
      rw [kept', hidden, plain.asDict_nullShape]
      exact plain.splits.2
  nested_left h := h
  nested_right h := h
  gathered {value verdicts} complete plain container each := by
    have length : verdicts.length = value.children.length := Term.length_children_of_forall₂ each
    have projected (side : Side) :
        (Term.part side (gather value verdicts complete).toTerm).asDict =
          value.withChildren (verdicts.map fun verdict =>
            (Term.part side verdict.toTerm).asDict) := by
      rw [part_gather container length,
        Term.asDict_withChildren container (by rwa [List.length_map]), List.map_map]
      rfl
    unfold SplitBy Term.lval Term.rval
    rw [projected, projected]
    exact .of_forall₂ container each

/-- The projections of a match split the value, whether it is accepted or rejected: both have its
shape, and no leaf is lost, doubled, moved or made up. A core spec whose names resolve and whose
objects answer always gives such a verdict. -/
theorem create_splits (ctx : Context) (w : World) (spec value key : Term) (closed : Bool)
    (core : CoreSpec w.store.constraint spec) (plain : value.Plain) :
    (∀ verdict w', create ctx spec value key closed w = .ok verdict w' →
      Splits value verdict.toTerm.lval.asDict verdict.toTerm.rval.asDict) ∧
    (SpecTree (fun t => t.CoreLeaf ∧ ctx.Answers t ∧ ctx.Resolves t) w.store.constraint spec →
      ∃ verdict w', create ctx spec value key closed w = .ok verdict w') :=
  ⟨fun _ _ run => create_answers splitBy_rules core plain run,
    fun answering => create_succeeds ctx w answering value key closed⟩

/-- A pair is matched whose number fits and whose settings do not. -/
theorem pair_splits :
    let spec : Term := .list [.builtin .isInt, .allOf [.map .plain [(.str "on", .builtin .isBool)]]]
    let value : Term := .tuple [.int 1, .map .ordered [(.str "on", .str "yes")]]
    ∃ verdict w', create .bare spec value .null false {} = .ok verdict w' ∧
      Splits value verdict.toTerm.lval.asDict verdict.toTerm.rval.asDict := by
  intro spec value
  have leaf (f : Builtin) (h : f ≠ .descend) : (Term.builtin f).CoreLeaf ∧
      Context.bare.Answers (.builtin f) ∧ Context.bare.Resolves (.builtin f) :=
    ⟨h, trivial, trivial⟩
  have isInt := leaf .isInt (by decide)
  have isBool := leaf .isBool (by decide)
  have tree : SpecTree (fun t => t.CoreLeaf ∧ Context.bare.Answers t ∧ Context.bare.Resolves t)
      (World.store {}).constraint spec := by
    refine .container rfl trivial (.array rfl) ?_
    simp only [spec, Term.entries, Term.positions, List.forall_mem_cons]
    refine ⟨.leaf isInt, .allOf ?_, List.forall_mem_nil _⟩
    intro settings mem
    obtain rfl := List.mem_singleton.1 mem
    refine .container rfl trivial ⟨?_, ?_⟩ ?_
    · simp [Term.entries, Term.hashable]
    · simp [Term.entries]
    · intro e mem
      obtain rfl := List.mem_singleton.1 mem
      exact .leaf isBool
  have settings : (Term.map .ordered [(.str "on", .str "yes")]).Plain := by
    refine .intro ⟨⟨?_, ?_⟩, rfl⟩ ?_
    · simp [Term.entries, Term.hashable]
    · simp [Term.entries]
    · intro e mem
      obtain rfl := List.mem_singleton.1 mem
      exact Term.Plain.scalar rfl rfl
  have plain : value.Plain := by
    refine .intro ⟨.array rfl, rfl⟩ ?_
    simp only [value, Term.entries, Term.positions, List.forall_mem_cons]
    exact ⟨Term.Plain.scalar rfl rfl, settings, List.forall_mem_nil _⟩
  obtain ⟨answers, total⟩ := create_splits .bare {} spec value .null false
    (tree.mono fun t leaf => leaf.1) plain
  obtain ⟨verdict, w', run⟩ := total tree
  exact ⟨verdict, w', run, answers verdict w' run⟩

/-! ## Accepted matches -/

/-- No rejection stands in a result, at any depth. -/
inductive Term.LeftFree : Term → Prop
  | right {payload : Term} : LeftFree payload → LeftFree (.right payload)
  | scalar {x : Term} : x.isContainer = false → x.isVerdict = false → LeftFree x
  | container {x : Term} : x.isContainer → (∀ c ∈ x.children, LeftFree c) → LeftFree x

theorem Term.Plain.leftFree {value : Term} (plain : value.Plain) : value.LeftFree := by
  induction plain with
  | @intro x here _ ih =>
    cases container : x.isContainer with
    | false => exact .scalar container here.2
    | true =>
      refine .container container ?_
      intro c mem
      obtain ⟨e, he, rfl⟩ := List.mem_map.1 mem
      exact ih e he

/-- An acceptance holds no rejection, and projects to the value on the one side and to its null
shape on the other. -/
def KeepsAll (value : Term) (verdict : Verdict) : Prop :=
  verdict.accepted = true → verdict.toTerm.LeftFree ∧
    verdict.toTerm.rval.asDict = value.asDict ∧ verdict.toTerm.lval = value.nullShape

/-- What holds of the members of a sequence that pass a test holds of all if all pass it. -/
theorem forall₂_of_all {α β : Type} {p : β → Prop} {R : α → β → Prop} {as : List α} {bs : List β}
    (h : as.Forall₂ (fun a b => p b → R a b) bs) (all : ∀ b ∈ bs, p b) : as.Forall₂ R bs := by
  induction h with
  | nil => exact .nil
  | cons first _ ih =>
    obtain ⟨here, rest⟩ := List.forall_mem_cons.1 all
    exact .cons (first here) (ih rest)

theorem forall₂_right {α β : Type} {p : β → Prop} {as : List α} {bs : List β}
    (h : as.Forall₂ (fun _ b => p b) bs) : ∀ b ∈ bs, p b := by
  induction h with
  | nil => nofun
  | cons first _ ih => exact List.forall_mem_cons.2 ⟨first, ih⟩

theorem map_eq_of_forall₂ {x : Term} {β : Type} {f : Term → Term} {g : β → Term} {bs : List β}
    (h : x.entries.Forall₂ (fun e b => g b = f e.2) bs) : bs.map g = x.children.map f := by
  have equal : (bs.map g).Forall₂ (· = ·) (x.children.map f) := by
    rw [Term.children, List.map_map, List.forall₂_map_left_iff, List.forall₂_map_right_iff]
    exact h.flip
  rwa [List.forall₂_eq_eq_eq] at equal

theorem keepsAll_rules : AnswerRules KeepsAll where
  whole {value} accepted plain := by
    cases accepted with
    | false => nofun
    | true =>
      intro _
      exact ⟨.right plain.leftFree, (plain.payloadPart .right).1, (plain.payloadPart .left).2⟩
  nested_left _ := nofun
  nested_right h _ := ⟨.right (h rfl).1, (h rfl).2⟩
  gathered {value verdicts} complete plain container each accepted := by
    have length : verdicts.length = value.children.length := Term.length_children_of_forall₂ each
    rw [gather, Verdict.accepted_when, Bool.and_eq_true, List.all_eq_true] at accepted
    have each := forall₂_of_all each accepted.2
    refine ⟨?_, ?_, ?_⟩
    · have leftFree := forall₂_right (each.imp fun _ _ h => h.1)
      rw [gather, accepted.1, List.all_eq_true.2 accepted.2]
      refine .right (.container (by rwa [Term.isContainer_withChildren]) ?_)
      rw [Term.children_withChildren container (by rwa [List.length_map])]
      exact List.forall_mem_map.2 leftFree
    · unfold Term.rval
      rw [part_gather container length,
        Term.asDict_withChildren container (by rwa [List.length_map]), List.map_map,
        Term.asDict_container container]
      exact congrArg _ (map_eq_of_forall₂ (each.imp fun _ _ h => h.2.1))
    · unfold Term.lval
      rw [part_gather container length, Term.nullShape_container container]
      exact congrArg _ (map_eq_of_forall₂ (each.imp fun _ _ h => h.2.2))

/-- An accepted match loses nothing: it holds no rejection at any depth, its accepted part is the
value and its failing part is empty. -/
theorem create_keeps_all (ctx : Context) (w : World) (spec value key : Term) (closed : Bool)
    (core : CoreSpec w.store.constraint spec) (plain : value.Plain) :
    (∀ payload w', create ctx spec value key closed w = .ok (.right payload) w' →
      payload.LeftFree ∧ (Term.right payload).rval.asDict = value.asDict ∧
        (Term.right payload).lval = value.nullShape) ∧
    (SpecTree (fun t => t.CoreLeaf ∧ ctx.Answers t ∧ ctx.Resolves t) w.store.constraint spec →
      ∃ verdict w', create ctx spec value key closed w = .ok verdict w') := by
  refine ⟨fun payload w' run => ?_, fun answering =>
    create_succeeds ctx w answering value key closed⟩
  obtain ⟨leftFree, projections⟩ := create_answers keepsAll_rules core plain run rfl
  cases leftFree with
  | right leftFree => exact ⟨leftFree, projections⟩
  | scalar _ noVerdict => cases noVerdict
  | container container _ => cases container

/-- A pair of a number and nothing is matched item by item, with one acceptance in another. -/
theorem pair_keeps_all :
    let spec : Term := .everyItem (.anyOf [.builtin .isInt, .maybe (.builtin .isString)])
    let value : Term := .tuple [.int 1, .null]
    ∃ payload w', create .bare spec value .null false {} = .ok (.right payload) w' ∧
      payload.LeftFree ∧ (Term.right payload).rval.asDict = value ∧
        (Term.right payload).lval = .tuple [.null, .null] := by
  intro spec value
  have core : CoreSpec (World.store {}).constraint spec := by
    refine .everyItem (.anyOf ?_)
    simp only [List.forall_mem_cons]
    have isInt : (Term.builtin .isInt).CoreLeaf := by simp [Term.CoreLeaf]
    have isString : (Term.builtin .isString).CoreLeaf := by simp [Term.CoreLeaf]
    exact ⟨.leaf isInt, .maybe (.leaf isString), List.forall_mem_nil _⟩
  have plain : value.Plain := by
    refine .intro ⟨.array rfl, rfl⟩ ?_
    simp only [value, Term.entries, Term.positions, List.forall_mem_cons]
    exact ⟨Term.Plain.scalar rfl rfl, Term.Plain.scalar rfl rfl, List.forall_mem_nil _⟩
  have run : create .bare spec value .null false {} =
      .ok (.right (.tuple [.right (.right (.int 1)), .right (.right .null)])) {} := rfl
  exact ⟨_, _, run, (create_keeps_all .bare {} spec value .null false core plain).1 _ _ run⟩

end SpecMatch
