import SpecMatch.Proofs.Matching.Projection
import SpecMatch.Proofs.Term.Nesting

/-!
# Mirror images

The mirror image of a result has its two sides exchanged: in the verdict itself, through verdicts
that stand directly in one another and through containers of nothing but verdicts. Every other
payload stays as it is, whatever verdicts stand deeper in it (`Term.mirror`).

A projection looks at a result in the same way, so projecting a mirror image on one side is
projecting the result on the other (`payloadPart_mirror`), and both projections have one shape
(`nullShape_payloadPart`). Nothing is assumed of the result: it need not be the answer of a match.
-/

namespace SpecMatch

/-- The opposite side. -/
def Side.other : Side → Side
  | .left => .right
  | .right => .left

namespace Term

/-! ## Payloads -/

/-- What a payload can be: a verdict, a container of verdicts, or plain data to the projections. -/
@[elab_as_elim]
theorem payload_induction {motive : Term → Prop}
    (left : ∀ payload, motive payload → motive (.left payload))
    (right : ∀ payload, motive payload → motive (.right payload))
    (structural : ∀ x, x.isStructural → (∀ c ∈ x.children, motive c) → motive x)
    (raw : ∀ x, x.isVerdict = false → x.isStructural = false → motive x) (x : Term) :
    motive x := by
  induction nesting : x.nesting using Nat.strong_induction_on generalizing x with
  | _ n ih =>
  subst nesting
  cases verdict : x.isVerdict with
  | true =>
    cases x with
    | left payload => exact left payload (ih _ (Nat.lt_succ_self _) payload rfl)
    | right payload => exact right payload (ih _ (Nat.lt_succ_self _) payload rfl)
    | _ => cases verdict
  | false =>
    cases children : x.isStructural with
    | false => exact raw x verdict children
    | true =>
      refine structural x children ?_
      intro c mem
      obtain ⟨e, he, rfl⟩ := List.mem_map.1 mem
      exact ih _ (nesting_lt_of_mem he) e.2 rfl

section

variable {x : Term}

theorem isStructural_iff : x.isStructural ↔ x.isContainer ∧ ∀ c ∈ x.children, c.isVerdict := by
  rw [isStructural, Bool.and_eq_true, List.all_eq_true]

variable (side : Side) (keep : Bool)

/-- A verdict is projected in the same way wherever it stands. -/
theorem part_verdict (verdict : x.isVerdict) : part side x = payloadPart side keep x := by
  cases x with
  | left payload | right payload => rfl
  | _ => cases verdict

theorem payloadPart_structural (structural : x.isStructural) :
    payloadPart side keep x = x.withChildren (x.children.map (part side)) := by
  obtain ⟨container, verdicts⟩ := isStructural_iff.1 structural
  rw [payloadPart_container side keep container, if_pos (List.all_eq_true.2 verdicts)]

/-- Plain data is shown or hidden as a whole. -/
theorem payloadPart_raw (noVerdict : x.isVerdict = false) (raw : x.isStructural = false) :
    payloadPart side keep x = shown keep x := by
  cases container : x.isContainer with
  | false => exact payloadPart_scalar side keep container noVerdict
  | true =>
    rw [isStructural, container, Bool.true_and] at raw
    rw [payloadPart_container side keep container, raw, if_neg Bool.false_ne_true]

end

/-! ## The mirror image of a result -/

mutual

/-- A result with its two sides exchanged, as far as it consists of verdicts and of containers of
verdicts. -/
def mirror : Term → Term
  | .left payload => .right (mirror payload)
  | .right payload => .left (mirror payload)
  | .list items => .list (if items.all isVerdict then mirrorItems items else items)
  | .tuple items => .tuple (if items.all isVerdict then mirrorItems items else items)
  | .map kind entries =>
    .map kind (if entries.all (·.2.isVerdict) then mirrorEntries entries else entries)
  | .fields attributes =>
    .fields (if attributes.all (·.2.isVerdict) then mirrorAttributes attributes else attributes)
  | x => x

/-- The mirror images of a sequence. -/
def mirrorItems : List Term → List Term
  | [] => []
  | x :: xs => mirror x :: mirrorItems xs

/-- Entries with the mirror images of their values. -/
def mirrorEntries : List (Term × Term) → List (Term × Term)
  | [] => []
  | (k, v) :: es => (k, mirror v) :: mirrorEntries es

/-- Attributes with the mirror images of their values. -/
def mirrorAttributes : List (String × Term) → List (String × Term)
  | [] => []
  | (n, v) :: as => (n, mirror v) :: mirrorAttributes as

end

/-- A container of the same kind with every child replaced by what a function makes of it. -/
def mapChildren (f : Term → Term) : Term → Term
  | .list items => .list (items.map f)
  | .tuple items => .tuple (items.map f)
  | .map kind entries => .map kind (entries.map fun e => (e.1, f e.2))
  | .fields attributes => .fields (attributes.map fun a => (a.1, f a.2))
  | x => x

section

variable {x : Term} (f : Term → Term)

theorem isContainer_mapChildren : (x.mapChildren f).isContainer = x.isContainer := by
  cases x <;> rfl

theorem children_mapChildren : (x.mapChildren f).children = x.children.map f := by
  cases x with
  | list items => rw [mapChildren, children_list, children_list]
  | tuple items => rw [mapChildren, children_tuple, children_tuple]
  | map kind es => simp [mapChildren, children, entries]
  | fields attributes => simp [mapChildren, children_fields]
  | _ => rfl

theorem withChildren_mapChildren (children : List Term) :
    (x.mapChildren f).withChildren children = x.withChildren children := by
  cases x with
  | map kind entries | fields entries => simp [mapChildren, withChildren, List.zipWith_map_left]
  | _ => rfl

end

section

variable {x : Term}

theorem isVerdict_mirror (x : Term) : x.mirror.isVerdict = x.isVerdict := by
  cases x <;> rfl

/-- A container is exchanged child by child if it holds nothing but verdicts, else not at all. -/
theorem mirror_container (container : x.isContainer) :
    x.mirror = if x.children.all isVerdict then x.mapChildren mirror else x := by
  cases x with
  | list items =>
    rw [mirror, children_list, eq_map_of_cons (g := mirrorItems) rfl fun _ _ => rfl]
    split <;> rfl
  | tuple items =>
    rw [mirror, children_tuple, eq_map_of_cons (g := mirrorItems) rfl fun _ _ => rfl]
    split <;> rfl
  | map kind entries =>
    rw [mirror, children, List.all_map, eq_map_of_cons (g := mirrorEntries) rfl fun _ _ => rfl]
    exact apply_ite (Term.map kind) _ _ _
  | fields attributes =>
    rw [mirror, children_fields, List.all_map,
      eq_map_of_cons (g := mirrorAttributes) rfl fun _ _ => rfl]
    exact apply_ite Term.fields _ _ _
  | _ => cases container

theorem mirror_structural (structural : x.isStructural) : x.mirror = x.mapChildren mirror := by
  obtain ⟨container, verdicts⟩ := isStructural_iff.1 structural
  rw [mirror_container container, if_pos (List.all_eq_true.2 verdicts)]

/-- Plain data is its own mirror image. -/
theorem mirror_raw (noVerdict : x.isVerdict = false) (raw : x.isStructural = false) :
    x.mirror = x := by
  cases container : x.isContainer with
  | false =>
    cases x with
    | left _ | right _ => cases noVerdict
    | list _ | tuple _ | map _ _ | fields _ => cases container
    | _ => rfl
  | true =>
    rw [isStructural, container, Bool.true_and] at raw
    rw [mirror_container container, raw, if_neg Bool.false_ne_true]

/-- The mirror image of a container of verdicts is one. -/
theorem isStructural_mirror (structural : x.isStructural) : x.mirror.isStructural := by
  obtain ⟨container, verdicts⟩ := isStructural_iff.1 structural
  rw [mirror_structural structural, isStructural_iff, isContainer_mapChildren,
    children_mapChildren]
  refine ⟨container, List.forall_mem_map.2 ?_⟩
  intro c mem
  rw [isVerdict_mirror]
  exact verdicts c mem

end

/-! ## Projections of mirror images -/

/-- Projecting the mirror image of a payload is projecting the payload on the other side. -/
theorem payloadPart_mirror (side : Side) (keep : Bool) (x : Term) :
    payloadPart side keep x.mirror = payloadPart side.other keep x := by
  induction x using payload_induction generalizing keep with
  | left payload ih =>
    -- The verdict is kept where it now stands: on the right exactly if it stood on the left.
    have kept : (side == .right) = (side.other == .left) := by cases side <;> rfl
    rw [mirror, payloadPart, payloadPart, ih, kept]
  | right payload ih =>
    have kept : (side == .left) = (side.other == .right) := by cases side <;> rfl
    rw [mirror, payloadPart, payloadPart, ih, kept]
  | structural x structural ih =>
    have verdicts := (isStructural_iff.1 structural).2
    rw [payloadPart_structural side keep (isStructural_mirror structural),
      payloadPart_structural side.other keep structural, mirror_structural structural,
      children_mapChildren, withChildren_mapChildren, List.map_map]
    congr 1
    refine List.map_congr_left ?_
    intro c mem
    have mirrored : c.mirror.isVerdict := (isVerdict_mirror c).trans (verdicts c mem)
    rw [Function.comp_apply, part_verdict side keep mirrored, ih c mem,
      part_verdict side.other keep (verdicts c mem)]
  | raw x noVerdict raw =>
    rw [mirror_raw noVerdict raw, payloadPart_raw side keep noVerdict raw,
      payloadPart_raw side.other keep noVerdict raw]

/-! ## The shape of projections -/

/-- All projections of a payload have one shape. -/
theorem nullShape_payloadPart (side side' : Side) (keep keep' : Bool) (x : Term) :
    (payloadPart side keep x).nullShape = (payloadPart side' keep' x).nullShape := by
  induction x using payload_induction generalizing keep keep' with
  | left payload ih | right payload ih => exact ih _ _
  | structural x structural ih =>
    obtain ⟨container, verdicts⟩ := isStructural_iff.1 structural
    rw [payloadPart_structural side keep structural, payloadPart_structural side' keep' structural,
      nullShape_withChildren container (List.length_map _),
      nullShape_withChildren container (List.length_map _), List.map_map, List.map_map]
    congr 1
    refine List.map_congr_left ?_
    intro c mem
    rw [Function.comp_apply, Function.comp_apply, part_verdict side keep (verdicts c mem),
      part_verdict side' keep' (verdicts c mem)]
    exact ih c mem keep keep'
  | raw x noVerdict raw =>
    have shown_shape (keep : Bool) : (shown keep x).nullShape = x.nullShape := by
      cases keep with
      | true => rfl
      | false => exact nullShape_nullShape x
    rw [payloadPart_raw side keep noVerdict raw, payloadPart_raw side' keep' noVerdict raw,
      shown_shape, shown_shape]

end Term

/-- The accepted part of a result is the failing part of its mirror image and the other way round,
and both parts have one shape. This holds of every verdict, whether a match has answered it or
not. -/
theorem projections_mirror (verdict : Verdict) :
    let r := verdict.toTerm
    r.rval = r.mirror.lval ∧ r.lval = r.mirror.rval ∧ r.lval.nullShape = r.rval.nullShape := by
  intro r
  have isVerdict : r.isVerdict := by cases verdict <;> rfl
  have mirrored : r.mirror.isVerdict := (Term.isVerdict_mirror r).trans isVerdict
  have exchanged (side : Side) : Term.part side r.mirror = Term.part side.other r := by
    rw [Term.part_verdict side true mirrored, Term.part_verdict side.other true isVerdict]
    exact Term.payloadPart_mirror side true r
  refine ⟨(exchanged .left).symm, (exchanged .right).symm, ?_⟩
  rw [Term.lval, Term.rval, Term.part_verdict .left true isVerdict,
    Term.part_verdict .right true isVerdict]
  exact Term.nullShape_payloadPart .left .right true true r

/-- A container that also holds plain data is exchanged as a whole, with the verdict in it as it is;
an empty one is shown on both sides. -/
example :
    let mixed : Term := .list [.left (.int 1), .int 2]
    let r : Term := .right (.map .ordered [(.str "a", .left mixed),
      (.str "b", .right (.left (.tuple [])))])
    r.mirror = .left (.map .ordered [(.str "a", .right mixed),
        (.str "b", .left (.right (.tuple [])))]) ∧
      r.lval = .map .plain [(.str "a", mixed), (.str "b", .tuple [])] ∧
      r.rval = .map .plain [(.str "a", .list [.null, .null]), (.str "b", .tuple [])] :=
  ⟨rfl, rfl, rfl⟩

end SpecMatch
