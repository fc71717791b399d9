import SpecMatch.Proofs.Matching.Acceptance

/-!
# Specs of key paths

A key spec whose path is an array matches its specs against the segments of the key, as a closed
container spec against a container (`MatchesSegments`). So a key with more segments than specs is
rejected, but a key with fewer segments is not always: a spec without a segment is matched against
`null`, like a child that is absent, and may accept it. `keyed_path_accepts_iff` says what such a
key spec accepts, and when this is what it is meant to accept (`FitsSegments`): as many segments as
specs, each accepted by the spec in its position.

Specs that do not accept `null` keep to what is meant, and so a path of numbers and texts is an
exact test for the last or the first segments of a key (`literal_path_accepts_iff`).
-/

namespace SpecMatch

/-! ## Segments against specs -/

section

variable {fits fits' : Term → Term → Term → Prop} {specs segments : List Term}

/-- Specs are meant for the segments of a key: there are as many of the one as of the other, and
each spec fits the segment in its position. -/
structure FitsSegments (fits : Term → Term → Term → Prop) (specs segments : List Term) : Prop where
  length : segments.length = specs.length
  each : ∀ (i : Nat) (spec x : Term), specs[i]? = some spec → segments[i]? = some x →
    fits spec x (.int i)

/-- Specs are matched with the segments of a key: no segment is left over and none is the missing
mark, each spec fits the segment in its position, and the specs behind the segments fit `null`. -/
structure MatchesSegments (fits : Term → Term → Term → Prop) (specs segments : List Term) :
    Prop where
  length : segments.length ≤ specs.length
  present : Term.missing ∉ segments
  each : ∀ (i : Nat) (spec x : Term), specs[i]? = some spec → segments[i]? = some x →
    fits spec x (.int i)
  behind : ∀ (i : Nat) (spec : Term), specs[i]? = some spec → segments.length ≤ i →
    fits spec .null .null

theorem MatchesSegments.imp (h : MatchesSegments fits specs segments)
    (le : ∀ spec ∈ specs, ∀ x k, fits spec x k → fits' spec x k) :
    MatchesSegments fits' specs segments where
  length := h.length
  present := h.present
  each i spec x declared stands :=
    le spec (List.mem_of_getElem? declared) x _ (h.each i spec x declared stands)
  behind i spec declared behind :=
    le spec (List.mem_of_getElem? declared) _ _ (h.behind i spec declared behind)

theorem MatchesSegments.congr (same : ∀ spec ∈ specs, ∀ x k, fits spec x k ↔ fits' spec x k) :
    MatchesSegments fits specs segments ↔ MatchesSegments fits' specs segments := by
  constructor
  · intro h
    exact h.imp fun spec mem x k => (same spec mem x k).1
  · intro h
    exact h.imp fun spec mem x k => (same spec mem x k).2

/-- With a segment for each spec, no spec stands behind the segments. -/
theorem matchesSegments_iff_fits (present : Term.missing ∉ segments)
    (enough : specs.length ≤ segments.length) :
    MatchesSegments fits specs segments ↔ FitsSegments fits specs segments := by
  constructor
  · intro h
    exact ⟨Nat.le_antisymm h.length enough, h.each⟩
  · intro h
    refine ⟨h.length.le, present, h.each, fun i spec declared behind => ?_⟩
    have inside := (List.getElem?_eq_some_iff.1 declared).1
    omega

/-- Specs that fit themselves alone, and not `null`, match no segments but themselves. -/
theorem matchesSegments_eq_iff (present : Term.missing ∉ specs) (noNull : Term.null ∉ specs) :
    MatchesSegments (fun spec x _ => spec = x) specs segments ↔ specs = segments := by
  constructor
  · intro h
    refine List.ext_getElem? fun i => ?_
    cases declared : specs[i]? with
    | none =>
      have past := List.getElem?_eq_none_iff.1 declared
      rw [List.getElem?_eq_none (Nat.le_trans h.length past)]
    | some spec =>
      cases stands : segments[i]? with
      | some x => rw [h.each i spec x declared stands]
      | none =>
        obtain rfl := h.behind i spec declared (List.getElem?_eq_none_iff.1 stands)
        exact absurd (List.mem_of_getElem? declared) noNull
  · rintro rfl
    refine (matchesSegments_iff_fits present (Nat.le_refl _)).2 ⟨rfl, ?_⟩
    intro i spec x declared stands
    exact Option.some.inj (declared.symm.trans stands)

end

section

variable {path : Term} {specs segments : List Term}

theorem Term.lookup_tuple (items : List Term) (i : Nat) :
    (Term.tuple items).lookup (.int i) = items[i]?.getD .missing := by
  simp [lookup, lookup?]

theorem Term.form?_array (array : path = .list specs ∨ path = .tuple specs) :
    path.form? = some .array := by
  rcases array with rfl | rfl <;> rfl

theorem Term.isContainer_array (array : path = .list specs ∨ path = .tuple specs) :
    path.isContainer := by
  rcases array with rfl | rfl <;> rfl

theorem Term.mem_entries_array (array : path = .list specs ∨ path = .tuple specs)
    {e : Term × Term} :
    e ∈ path.entries ↔ ∃ i : Nat, specs[i]? = some e.2 ∧ e.1 = .int i := by
  have entries : path.entries = positions 0 specs := by rcases array with rfl | rfl <;> rfl
  simp [entries, mem_positions]

/-- A path declares every segment if there is a spec for each, and none is the missing mark, which
is taken for an absent child. -/
theorem Term.declares_segments (array : path = .list specs ∨ path = .tuple specs) :
    path.declares (.tuple segments) ↔
      segments.length ≤ specs.length ∧ Term.missing ∉ segments := by
  have segment_entry {e : Term × Term} : e ∈ (Term.tuple segments).entries ↔
      ∃ i : Nat, segments[i]? = some e.2 ∧ e.1 = .int i := mem_entries_array (.inr rfl)
  rw [declares_iff]
  constructor
  · intro declared
    have each (i : Nat) (x : Term) (stands : segments[i]? = some x) :
        i < specs.length ∧ x ≠ .missing := by
      obtain ⟨e, mem, same, there⟩ := declared (.int i, x) (segment_entry.2 ⟨i, stands, rfl⟩)
      obtain ⟨j, spec, key⟩ := (mem_entries_array array).1 mem
      rw [key] at same there
      obtain rfl : j = i := Int.ofNat.inj (sameKey_int.1 same)
      rw [lookup_tuple, stands] at there
      exact ⟨(List.getElem?_eq_some_iff.1 spec).1, there⟩
    refine ⟨?_, fun mem => ?_⟩
    · by_contra longer
      have inside : specs.length < segments.length := by omega
      have declared := each specs.length _ (List.getElem?_eq_getElem inside)
      omega
    · obtain ⟨i, stands⟩ := List.mem_iff_getElem?.1 mem
      exact (each i _ stands).2 rfl
  · rintro ⟨fits, present⟩ d mem
    obtain ⟨i, stands, key⟩ := segment_entry.1 mem
    have inside : i < segments.length := (List.getElem?_eq_some_iff.1 stands).1
    refine ⟨(.int i, specs[i]), (mem_entries_array array).2 ⟨i, by simp, rfl⟩, ?_, ?_⟩
    · rw [key]
      exact sameKey_int.2 rfl
    · rw [lookup_tuple, stands]
      intro missing
      rw [Option.getD_some] at missing
      exact present (missing ▸ List.mem_of_getElem? stands)

/-- The spec in a position is matched against the segment there, or against `null` behind the
segments. -/
theorem Term.childHolds_segment {inner : Term → Term → Bool} (present : Term.missing ∉ segments)
    (i : Nat) :
    childHolds inner (.tuple segments) (.int i) =
      match segments[i]? with
      | some x => inner x (.int i)
      | none => inner .null .null := by
  have found := lookup_tuple segments i
  cases stands : segments[i]? with
  | none =>
    rw [stands, Option.getD_none] at found
    exact childHolds_missing found
  | some x =>
    rw [stands, Option.getD_some] at found
    have there : x ≠ .missing := by
      rintro rfl
      exact present (List.mem_of_getElem? stands)
    rw [childHolds_of_ne (found ▸ there), found]

/-- A key spec holds of a key if its specs match the segments. -/
theorem Store.holds_keyed_path (s : Store) (leafHolds : Term → Term → Bool)
    (array : path = .list specs ∨ path = .tuple specs) {start : Int} {length : Option Int}
    {key : Term} (cut : segment key.keyPath start length = segments) (value : Term)
    (closed : Bool) :
    s.holds leafHolds (.keyed path start length) value key closed ↔
      MatchesSegments (fun spec x k => s.holds leafHolds spec x k false) specs segments := by
  have container : (Term.tuple segments).isContainer = true := rfl
  rw [s.holds_keyed_array leafHolds value key closed (Term.form?_array array), cut,
    s.holds_container leafHolds _ _ _ (Term.isContainer_array array)]
  simp only [container, Bool.true_and, Bool.and_eq_true, Bool.not_true, Bool.false_or,
    Term.declares_segments array, List.all_eq_true]
  constructor
  · rintro ⟨each, fits, present⟩
    have at_position {i : Nat} {spec : Term} (declared : specs[i]? = some spec) :=
      each (.int i, spec) ((Term.mem_entries_array array).2 ⟨i, declared, rfl⟩)
    simp only [Term.childHolds_segment present] at at_position
    refine ⟨fits, present, fun i spec x declared stands => ?_, fun i spec declared behind => ?_⟩
    · simpa only [stands] using at_position declared
    · simpa only [List.getElem?_eq_none behind] using at_position declared
  · intro h
    refine ⟨fun e mem => ?_, h.length, h.present⟩
    obtain ⟨i, declared, key⟩ := (Term.mem_entries_array array).1 mem
    rw [key, Term.childHolds_segment h.present]
    split
    · next x stands => exact h.each i e.2 x declared stands
    · next none => exact h.behind i e.2 declared (List.getElem?_eq_none_iff.1 none)

end

/-! ## Key specs in the library -/

/-- A spec accepts a value under a key when it is matched in a world. -/
def Context.Accepts (ctx : Context) (w : World) (spec value key : Term) : Prop :=
  ∃ w', accepts ctx spec value key false w = .ok true w'

section

variable {ctx : Context} {test : Handle → Term → Bool} {w : World}

/-- Asking whether a core spec accepts answers whether it holds. -/
theorem accepts_holds {spec : Term}
    (core : SpecTree (fun t => t.CoreLeaf ∧ ctx.Decides test t ∧ ctx.Resolves t)
      w.store.constraint spec) (value key : Term) (closed : Bool) :
    ∃ w', accepts ctx spec value key closed w =
      .ok (w.store.holds (ctx.leafHolds w.store.alike test) spec value key closed) w' := by
  obtain ⟨verdict, w', run, holds⟩ := create_holds ctx test w core value key closed
  refine ⟨w', ?_⟩
  rw [accepts, Eval.bind_apply, run, ← holds]
  rfl

theorem Context.accepts_iff_holds {spec : Term}
    (core : SpecTree (fun t => t.CoreLeaf ∧ ctx.Decides test t ∧ ctx.Resolves t)
      w.store.constraint spec) (value key : Term) :
    ctx.Accepts w spec value key ↔
      w.store.holds (ctx.leafHolds w.store.alike test) spec value key false := by
  obtain ⟨w', run⟩ := accepts_holds core value key false
  constructor
  · rintro ⟨v, accepted⟩
    rw [run] at accepted
    exact (EStateM.Result.ok.inj accepted).1
  · intro holds
    exact ⟨w', holds ▸ run⟩

/-- The functions of the library are core specs in every context, apart from the one that goes on to
children. -/
theorem builtin_core (ctx : Context) {f : Builtin} (other : f ≠ .descend)
    (test : Handle → Term → Bool) :
    (Term.builtin f).CoreLeaf ∧ ctx.Decides test (.builtin f) ∧ ctx.Resolves (.builtin f) :=
  ⟨other, trivial, trivial⟩

/-- Core specs in an array are the path of a core key spec. -/
theorem SpecTree.keyed_path {leaf : Term → Prop} {constraint : Nat → Term} {path : Term}
    {specs : List Term} (array : path = .list specs ∨ path = .tuple specs)
    (core : ∀ spec ∈ specs, SpecTree leaf constraint spec) (start : Int) (length : Option Int) :
    SpecTree leaf constraint (.keyed path start length) := by
  have keyed : path.WellKeyed := .array (Term.form?_array array)
  have declarative : path.Declarative := by rcases array with rfl | rfl <;> trivial
  refine .keyed (.container (Term.isContainer_array array) declarative keyed ?_)
  intro e mem
  obtain ⟨i, declared, -⟩ := (Term.mem_entries_array array).1 mem
  exact core e.2 (List.mem_of_getElem? declared)

/-- Asking whether a key spec with an array of core specs accepts answers whether these match the
segments. -/
theorem accepts_keyed_path {path : Term} {specs : List Term}
    (array : path = .list specs ∨ path = .tuple specs) (start : Int) (length : Option Int)
    (value key : Term) (closed : Bool)
    (core : ∀ spec ∈ specs, SpecTree (fun t => t.CoreLeaf ∧ ctx.Decides test t ∧ ctx.Resolves t)
      w.store.constraint spec) :
    ∃ accepted w', accepts ctx (.keyed path start length) value key closed w = .ok accepted w' ∧
      (accepted = true ↔
        MatchesSegments (ctx.Accepts w) specs (segment key.keyPath start length)) := by
  obtain ⟨w', run⟩ := accepts_holds (.keyed_path array core start length) value key closed
  refine ⟨_, w', run, ?_⟩
  rw [w.store.holds_keyed_path _ array rfl]
  exact MatchesSegments.congr fun spec mem x k =>
    (Context.accepts_iff_holds (core spec mem) x k).symm

/-- What a key spec with an array of specs as its path accepts. No segment may be left over and none
may be the missing mark; the specs in the positions of segments accept these, and the specs behind
them accept `null`. So the key spec keeps to what it is meant for exactly as long as it rejects the
key if that has fewer segments than there are specs. -/
theorem keyed_path_accepts_iff {path : Term} {specs : List Term}
    (array : path = .list specs ∨ path = .tuple specs) (start : Int) (length : Option Int)
    (value key : Term) (closed : Bool)
    (core : ∀ spec ∈ specs, SpecTree (fun t => t.CoreLeaf ∧ ctx.Decides test t ∧ ctx.Resolves t)
      w.store.constraint spec) :
    let segments := segment key.keyPath start length
    ∃ accepted w', accepts ctx (.keyed path start length) value key closed w = .ok accepted w' ∧
      (accepted = true ↔ MatchesSegments (ctx.Accepts w) specs segments) ∧
      (Term.missing ∉ segments →
        ((accepted = true ↔ FitsSegments (ctx.Accepts w) specs segments) ↔
          (segments.length < specs.length → accepted = false))) := by
  intro segments
  obtain ⟨accepted, w', run, accepted_iff⟩ :=
    accepts_keyed_path array start length value key closed core
  refine ⟨accepted, w', run, accepted_iff, fun present => ?_⟩
  rcases Nat.lt_or_ge segments.length specs.length with shorter | enough
  · -- A key that is too short is not meant to be accepted.
    have unfit : ¬ FitsSegments (ctx.Accepts w) specs segments :=
      fun fits => Nat.ne_of_lt shorter fits.length
    simp [unfit, shorter]
  · have same : accepted = true ↔ FitsSegments (ctx.Accepts w) specs segments :=
      accepted_iff.trans (matchesSegments_iff_fits present enough)
    simp [same, enough]

end

/-- A key of two segments fits no path of three specs, but the last two accept `null`. -/
theorem row_path_accepts :
    let w : World := { store := { cells := #[⟨"index", .maybe (.builtin .isInt), none⟩] } }
    let specs : List Term := [.allOf [.builtin .isString], .maybe (.builtin .isString), .var 0]
    let key : Term := .tuple [.str "rows", .str "a", .str "id"]
    (∃ w', accepts .bare (.keyed (.tuple specs) (-2) none) .null key false w = .ok true w') ∧
      ¬ FitsSegments (Context.bare.Accepts w) specs [.str "a", .str "id"] := by
  intro w specs key
  have isString := builtin_core .bare (f := .isString) (by decide) fun _ _ => false
  have isInt := builtin_core .bare (f := .isInt) (by decide) fun _ _ => false
  have bound : w.store.constraint 0 ≠ .null := by simp [w, Store.constraint, Store.cell]
  have core : ∀ spec ∈ specs, SpecTree (fun t => t.CoreLeaf ∧
      Context.bare.Decides (fun _ _ => false) t ∧ Context.bare.Resolves t)
      w.store.constraint spec := by
    simp only [specs, List.forall_mem_cons]
    refine ⟨.allOf ?_, .maybe (.leaf isString), .constrained bound (.maybe (.leaf isInt)),
      List.forall_mem_nil _⟩
    simpa using .leaf isString
  obtain ⟨accepted, w', run, accepted_iff, -⟩ :=
    keyed_path_accepts_iff (.inr rfl) (-2) none .null key false core
  have cut : segment key.keyPath (-2) none = [.str "a", .str "id"] := rfl
  rw [cut] at accepted_iff
  have accepts : accepted = true := by
    refine accepted_iff.2 ⟨by decide, by simp, ?_, ?_⟩
    · rintro (_ | _ | i) spec x declared stands
      · cases declared
        cases stands
        exact ⟨_, rfl⟩
      · cases declared
        cases stands
        exact ⟨_, rfl⟩
      · cases stands
    · rintro (_ | _ | _ | i) spec declared behind
      · simp at behind
      · simp at behind
      · cases declared
        exact ⟨_, rfl⟩
      · cases declared
  exact ⟨⟨w', accepts ▸ run⟩, fun fits => by cases fits.length⟩

/-- A path of two specs accepts a key of one segment. -/
theorem short_key_accepted :
    let specs : List Term := [.builtin .isString, .maybe (.builtin .isInt)]
    let key : Term := .tuple [.str "a"]
    (∃ w', accepts .bare (.keyed (.list specs) 0 none) (.int 1) key false {} = .ok true w') ∧
      ¬ FitsSegments (Context.bare.Accepts {}) specs (segment key.keyPath 0 none) := by
  intro specs key
  have isString := builtin_core .bare (f := .isString) (by decide) fun _ _ => false
  have isInt := builtin_core .bare (f := .isInt) (by decide) fun _ _ => false
  have core : ∀ spec ∈ specs, SpecTree (fun t => t.CoreLeaf ∧
      Context.bare.Decides (fun _ _ => false) t ∧ Context.bare.Resolves t)
      (World.store {}).constraint spec := by
    simp only [specs, List.forall_mem_cons]
    exact ⟨.leaf isString, .maybe (.leaf isInt), List.forall_mem_nil _⟩
  obtain ⟨w', run⟩ := accepts_holds (.keyed_path (.inl rfl) core 0 none) (.int 1) key false
  have holds : (World.store {}).holds (Context.bare.leafHolds (World.store {}).alike
      fun _ _ => false) (.keyed (.list specs) 0 none) (.int 1) key false = true := by
    decide +kernel
  exact ⟨⟨w', holds ▸ run⟩, fun fits => by cases fits.length⟩

/-! ## Paths of literals -/

/-- A number, or a text that names no type. -/
def Context.IsSegment (ctx : Context) : Term → Prop
  | .int _ => True
  | .str s => ctx.registry.contains s = false
  | _ => False

namespace Context.IsSegment

variable {ctx : Context} {x : Term} (literal : ctx.IsSegment x)
include literal

theorem core (test : Handle → Term → Bool) :
    x.CoreLeaf ∧ ctx.Decides test x ∧ ctx.Resolves x := by
  cases x with
  | int i => exact ⟨trivial, trivial, trivial⟩
  | str s =>
    refine ⟨trivial, trivial, fun registered => ?_⟩
    rw [IsSegment] at literal
    rw [literal] at registered
    cases registered
  | _ => exact literal.elim

/-- It holds of what it strictly equals. -/
theorem holds_eq (s : Store) (test : Handle → Term → Bool) (value key : Term) :
    s.holds (ctx.leafHolds s.alike test) x value key false =
      Term.strictlyEqual s.alike x value := by
  cases x with
  | int i => rfl
  | str name => exact if_neg (Bool.eq_false_iff.1 literal)
  | _ => exact literal.elim

/-- It strictly equals itself alone. -/
theorem strictlyEqual_iff (alike : String → String → Bool) {y : Term} :
    Term.strictlyEqual alike x y ↔ x = y := by
  cases x with
  | int i =>
    constructor
    · intro equal
      obtain ⟨sameClass, sameNumber⟩ := Bool.and_eq_true_iff.1 equal
      cases y with
      | int j => rw [Number.ofInt_inj.1 (Option.some.inj (beq_iff_eq.1 sameNumber))]
      | bool b => cases sameClass
      | float d => cases sameClass
      | _ => cases sameNumber
    · rintro rfl
      exact Bool.and_eq_true_iff.2 ⟨rfl, beq_self_eq_true _⟩
  | str s =>
    constructor
    · intro equal
      obtain ⟨-, sameText⟩ := Bool.and_eq_true_iff.1 equal
      cases y with
      | str t => rw [beq_iff_eq.1 sameText]
      | _ => cases sameText
    · rintro rfl
      exact Bool.and_eq_true_iff.2 ⟨rfl, beq_self_eq_true s⟩
  | _ => exact literal.elim

end Context.IsSegment

section

variable {α : Type}

/-- A negative start takes so many elements from the end, as far as there are so many. -/
theorem segment_neg (xs : List α) {n : Nat} (pos : 0 < n) :
    segment xs (-n) none = xs.drop (xs.length - n) := by
  have start : (segmentStart xs.length (-n)).toNat = xs.length - n := by
    unfold segmentStart
    split <;> omega
  have stop : ¬ ((xs.length : Int) < 0) := by omega
  simp [segment, segmentEnd, start, stop]

/-- A length takes so many elements from the beginning, as far as there are so many. -/
theorem segment_zero_length (xs : List α) (n : Nat) : segment xs 0 (some n) = xs.take n := by
  have stop : ¬ ((n : Int) < 0) := by omega
  simp [segment, segmentStart, segmentEnd, stop]

end

section

variable {ctx : Context} {p : List Term} (literal : ∀ x ∈ p, ctx.IsSegment x)
include literal

/-- Literals strictly equal the segments one by one if they are the segments. -/
theorem forall₂_strictlyEqual_iff (alike : String → String → Bool) {segments : List Term} :
    p.Forall₂ (fun x y => Term.strictlyEqual alike x y) segments ↔ p = segments := by
  induction p generalizing segments with
  | nil => rw [List.forall₂_nil_left_iff, eq_comm]
  | cons x xs ih =>
    obtain ⟨here, rest⟩ := List.forall_mem_cons.1 literal
    cases segments with
    | nil => simp
    | cons y ys =>
      rw [List.forall₂_cons, here.strictlyEqual_iff alike, ih rest, List.cons.injEq]

/-- A path of literals accepts a key exactly if it is the segments that are cut from the key. -/
theorem accepts_literal_path (w : World) (start : Int) (length : Option Int) (value key : Term)
    (closed : Bool) :
    ∃ accepted w', accepts ctx (.keyed (.list p) start length) value key closed w =
        .ok accepted w' ∧
      (accepted = true ↔ p = segment key.keyPath start length) := by
  have core : ∀ x ∈ p, SpecTree (fun t => t.CoreLeaf ∧ ctx.Decides (fun _ _ => false) t ∧
      ctx.Resolves t) w.store.constraint x := fun x mem => .leaf ((literal x mem).core _)
  obtain ⟨accepted, w', run, accepted_iff⟩ :=
    accepts_keyed_path (.inl rfl) start length value key closed core
  have equal (x : Term) (mem : x ∈ p) (y k : Term) : ctx.Accepts w x y k ↔ x = y := by
    rw [Context.accepts_iff_holds (core x mem), (literal x mem).holds_eq,
      (literal x mem).strictlyEqual_iff]
  refine ⟨accepted, w', run, accepted_iff.trans ((MatchesSegments.congr equal).trans ?_)⟩
  exact matchesSegments_eq_iff (fun mem => literal _ mem) fun mem => literal _ mem

end

/-- A path of literals is an exact test for the end of a key if it is cut from the end, and for its
beginning if it is cut from there: the key has at least as many segments, and these strictly equal
the literals one by one. -/
theorem literal_path_accepts_iff (ctx : Context) (w : World) {p : List Term} (nonempty : p ≠ [])
    (literal : ∀ x ∈ p, ctx.IsSegment x) (value key : Term) (closed : Bool) :
    let path := key.keyPath
    let equal (x y : Term) : Prop := Term.strictlyEqual w.store.alike x y
    (∃ accepted w', accepts ctx (.keyed (.list p) (-p.length) none) value key closed w =
        .ok accepted w' ∧
      (accepted = true ↔
        p.length ≤ path.length ∧ p.Forall₂ equal (path.drop (path.length - p.length))) ∧
      (accepted = true ↔ p <:+ path)) ∧
    ∃ accepted w', accepts ctx (.keyed (.list p) 0 (some p.length)) value key closed w =
        .ok accepted w' ∧
      (accepted = true ↔ p.length ≤ path.length ∧ p.Forall₂ equal (path.take p.length)) ∧
      (accepted = true ↔ p <+: path) := by
  intro path equal
  have equal_iff (segments : List Term) : p.Forall₂ equal segments ↔ p = segments :=
    forall₂_strictlyEqual_iff literal w.store.alike
  have fits {segments : List Term} (le : p = segments → p.length ≤ path.length) :
      p = segments ↔ p.length ≤ path.length ∧ p.Forall₂ equal segments := by
    rw [equal_iff]
    exact ⟨fun same => ⟨le same, same⟩, fun h => h.2⟩
  constructor
  · obtain ⟨accepted, w', run, accepted_iff⟩ :=
      accepts_literal_path literal w (-p.length) none value key closed
    rw [segment_neg _ (List.length_pos_iff.2 nonempty)] at accepted_iff
    have final : p <:+ path ↔ p = path.drop (path.length - p.length) := List.suffix_iff_eq_drop
    refine ⟨accepted, w', run, ?_, accepted_iff.trans final.symm⟩
    exact accepted_iff.trans (fits fun same => (final.2 same).length_le)
  · obtain ⟨accepted, w', run, accepted_iff⟩ :=
      accepts_literal_path literal w 0 (some p.length) value key closed
    rw [segment_zero_length] at accepted_iff
    have initial : p <+: path ↔ p = path.take p.length := List.prefix_iff_eq_take
    refine ⟨accepted, w', run, ?_, accepted_iff.trans initial.symm⟩
    exact accepted_iff.trans (fits fun same => (initial.2 same).length_le)

/-- The path of an entry ends in the two names that are asked for, and begins otherwise. -/
theorem names_end_path :
    let p : List Term := [.str "meta", .str "id"]
    let key : Term := .tuple [.str "rows", .int 3, .str "meta", .str "id"]
    (∃ w', accepts .bare (.keyed (.list p) (-2) none) (.int 1) key false {} = .ok true w') ∧
      ∃ w', accepts .bare (.keyed (.list p) 0 (some 2)) (.int 1) key false {} = .ok false w' := by
  intro p key
  have literal : ∀ x ∈ p, Context.bare.IsSegment x := by
    simp only [p, List.forall_mem_cons]
    exact ⟨rfl, rfl, List.forall_mem_nil _⟩
  obtain ⟨⟨atEnd, w', run, -, final⟩, ⟨atStart, v', run', -, initial⟩⟩ :=
    literal_path_accepts_iff .bare {} (List.cons_ne_nil _ _) literal (.int 1) key false
  have accepted : atEnd = true := final.2 ⟨[.str "rows", .int 3], rfl⟩
  have rejected : atStart = false := by
    refine Bool.eq_false_iff.2 fun accepted => ?_
    simpa [p, key, Term.keyPath, List.cons_prefix_cons] using initial.1 accepted
  exact ⟨⟨w', accepted ▸ run⟩, ⟨v', rejected ▸ run'⟩⟩

end SpecMatch
