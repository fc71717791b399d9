import SpecMatch.Proofs.Matching.Pointwise
import SpecMatch.Proofs.Matching.Projection
import SpecMatch.Proofs.Term.Likeness

/-!
# Data that is its own spec

A value of plain data may be given as the spec for itself. No part of it is read as anything but a
container or a literal: there are no classes, variables or functions in it, no text in it is the
name of a type, and its field bags do not bind. Each entry finds its own child, whatever the key is,
so the value is accepted as a whole, and the accepted part is the value again (`create_self`).
-/

namespace SpecMatch

/-- What plain data may be, as far as one value in it goes. A NaN does not equal itself, the name of
a registered type stands for its class, and a field bag that binds is asked what it matches. -/
def Context.Datum (ctx : Context) : Term → Prop
  | .null | .bool _ | .int _ | .bytes _ => True
  | .float (.nan _) => False
  | .float _ => True
  | .str s => ctx.registry.contains s = false
  | x => x.ByEntries ∧ x.WellKeyed

/-- A value of plain data, at all depths. -/
abbrev Context.PlainData (ctx : Context) (value : Term) : Prop := value.Everywhere ctx.Datum

namespace Context.Datum

variable {ctx : Context} {x : Term}

theorem container (datum : ctx.Datum x) (container : x.isContainer) :
    x.ByEntries ∧ x.WellKeyed := by
  cases x with
  | list _ | tuple _ | map _ _ | fields _ => exact datum
  | _ => cases container

theorem same_self (datum : ctx.Datum x) (scalar : x.isContainer = false)
    (alike : String → String → Bool) : Term.same alike x x := by
  refine Term.same_refl ?_
  cases x with
  | null | bool _ | int _ | float _ | str _ | bytes _ => rfl
  | list _ | tuple _ | map _ _ | fields _ => cases scalar
  | _ => exact datum.1.elim

theorem equal_eq_same (datum : ctx.Datum x) (alike : String → String → Bool) (y : Term) :
    Term.equal alike x y = Term.same alike x y := by
  cases x with
  | float number =>
    cases number with
    | nan id => exact datum.elim
    | infinite _ | finite _ _ => rfl
  | _ => rfl

theorem equal_asDict_eq_same (datum : ctx.Datum x) (alike : String → String → Bool) (y : Term) :
    Term.equal alike x.asDict y = Term.same alike x.asDict y := by
  cases container : x.isContainer with
  | false =>
    rw [Term.asDict_scalar container]
    exact datum.equal_eq_same alike y
  | true => cases x <;> first | rfl | cases container

/-- No part of plain data marks an absent child. -/
theorem present (datum : ctx.Datum x) : x ≠ .missing := by
  rintro rfl
  exact datum.1

theorem noVerdict (datum : ctx.Datum x) : x.isVerdict = false := by
  cases x with
  | left _ | right _ => exact datum.1.elim
  | _ => rfl

/-- What is no container is matched as a literal. -/
theorem create_literal (datum : ctx.Datum x) (scalar : x.isContainer = false) (levels : Nat)
    (key : Term) (closed : Bool) :
    (interp ctx (levels + 1)).create x x key closed = matchLiteral x x := by
  cases x with
  | null | bool _ | int _ | float _ | bytes _ => rfl
  | str s =>
    rw [create_name, if_neg (Bool.eq_false_iff.1 datum)]
  | list _ | tuple _ | map _ _ | fields _ => cases scalar
  | _ => exact datum.1.elim

/-- A literal accepts itself. -/
theorem matchLiteral_self (datum : ctx.Datum x) (scalar : x.isContainer = false) (w : World) :
    matchLiteral x x w = .ok (.right x) w := by
  have strict : Term.strictlyEqual w.store.alike x x = true := by
    rw [Term.strictlyEqual, beq_self_eq_true, datum.equal_eq_same, datum.same_self scalar]
    rfl
  have plain : x.comparable x = false := by
    cases x with
    | null | bool _ | int _ | float _ | str _ | bytes _ =>
      simp [Term.comparable, Term.openTo, Term.isPlain]
    | list _ | tuple _ | map _ _ | fields _ => cases scalar
    | _ => exact datum.1.elim
  have unasked : matchLiteral x x w =
      .ok (.when (Term.strictlyEqual w.store.alike x x) x) w := by
    unfold matchLiteral Eval.ask
    rw [plain]
    rfl
  rw [unasked, strict]
  rfl

end Context.Datum

section

variable {i : Interp} {x : Term} {w : World} {R : Term → Verdict → Prop}

/-- If every entry finds its own child and is matched against it, the verdicts are found under the
keys of the entries. -/
theorem checkEntries_self {entries : Entries} (found : ∀ e ∈ entries, x.lookup e.1 = e.2)
    (present : ∀ e ∈ entries, e.2 ≠ .missing)
    (each : ∀ e ∈ entries, ∃ verdict, i.create e.2 e.2 e.1 false w = .ok verdict w ∧
      R e.2 verdict) :
    ∃ verdicts, checkEntries i x entries w =
        .ok { verdicts := (entries.map (·.1)).zip verdicts } w ∧
      entries.Forall₂ (fun e verdict => R e.2 verdict) verdicts := by
  induction entries with
  | nil => exact ⟨[], rfl, .nil⟩
  | cons e rest ih =>
    obtain ⟨here, found⟩ := List.forall_mem_cons.1 found
    obtain ⟨there, present⟩ := List.forall_mem_cons.1 present
    obtain ⟨⟨verdict, run, holds⟩, each⟩ := List.forall_mem_cons.1 each
    obtain ⟨verdicts, later, all⟩ := ih found present each
    refine ⟨verdict :: verdicts, ?_, .cons holds all⟩
    have step : checkEntries i x (e :: rest) = (do
        let verdict ← i.create e.2 e.2 e.1 false
        let checked ← checkEntries i x rest
        return { checked with verdicts := (e.1, verdict) :: checked.verdicts }) := by
      rw [checkEntries, here]
      split
      · exact absurd ‹_› there
      · rfl
    rw [step, Eval.bind_apply, run]
    dsimp only
    rw [Eval.bind_apply, later]
    rfl

/-- A container that is its own spec gathers the verdicts on its children, in their order. -/
theorem matchEntries_self (keyed : x.WellKeyed) (present : ∀ e ∈ x.entries, e.2 ≠ .missing)
    (each : ∀ e ∈ x.entries, ∃ verdict, i.create e.2 e.2 e.1 false w = .ok verdict w ∧
      R e.2 verdict) (closed : Bool) :
    ∃ verdicts, matchEntries i x x closed w = .ok (gather x verdicts) w ∧
      x.entries.Forall₂ (fun e verdict => R e.2 verdict) verdicts := by
  have found : ∀ e ∈ x.entries, x.lookup e.1 = e.2 := fun e mem => by
    rw [Term.lookup, keyed.lookup?_eq mem]
    rfl
  obtain ⟨verdicts, run, all⟩ := checkEntries_self found present each
  refine ⟨verdicts, ?_, all⟩
  have own := map_entryVerdict_zip keyed.hashable keyed.distinct all.length_eq.symm closed
  rw [matchEntries, Eval.bind_apply, run]
  dsimp only
  rw [own]
  rfl

end

/-- Verdicts that all accept are gathered to an acceptance. -/
theorem gather_accepted (x : Term) {verdicts : List Verdict}
    (accepted : ∀ verdict ∈ verdicts, verdict.accepted) :
    gather x verdicts = .right (x.withChildren (verdicts.map (·.toTerm))) := by
  rw [gather, List.all_eq_true.2 accepted]
  rfl

section

variable {ctx : Context} {d : Term}

/-- On as many levels as it is nested, plain data accepts itself, and what is accepted of it is all
of it. -/
theorem Context.PlainData.create_within (data : ctx.PlainData d) {levels : Nat}
    (enough : d.nesting ≤ levels) (key : Term) (closed : Bool) (w : World) :
    ∃ payload, (interp ctx levels).create d d key closed w = .ok (.right payload) w ∧
      (Term.right payload).rval = d.asDict := by
  induction data generalizing levels key closed with
  | @intro x here below ih =>
    obtain ⟨levels, rfl⟩ := Nat.exists_eq_add_one_of_ne_zero
      (Nat.ne_of_gt (Nat.lt_of_lt_of_le x.nesting_pos enough))
    cases container : x.isContainer with
    | false =>
      refine ⟨x, ?_, ?_⟩
      · rw [here.create_literal container, here.matchLiteral_self container]
      · rw [Term.asDict_scalar container]
        exact Term.payloadPart_scalar .right true container here.noVerdict
    | true =>
      obtain ⟨byEntries, keyed⟩ := here.container container
      -- Every child accepts itself on the levels that are left.
      have each : ∀ e ∈ x.entries, ∃ verdict : Verdict,
          (interp ctx levels).create e.2 e.2 e.1 false w = .ok verdict w ∧
            (verdict.accepted ∧ verdict.toTerm.rval = e.2.asDict) := by
        intro e mem
        have nested := Nat.lt_of_lt_of_le (Term.nesting_lt_of_mem mem) enough
        obtain ⟨payload, run, rval⟩ := ih e mem (Nat.le_of_lt_succ nested) e.1 false
        exact ⟨.right payload, run, rfl, rval⟩
      obtain ⟨verdicts, run, all⟩ := matchEntries_self
        (R := fun c verdict => verdict.accepted ∧ verdict.toTerm.rval = c.asDict) keyed
        (fun e mem => (below e mem).here.present) each closed
      have length : verdicts.length = x.children.length := Term.length_children_of_forall₂ all
      have gathered := gather_accepted x (forall₂_right (all.imp fun _ _ h => h.1))
      rw [gathered] at run
      refine ⟨_, (congrFun (create_byEntries ctx levels x key closed byEntries container) w).trans
        run, ?_⟩
      have rval : (gather x verdicts).toTerm.rval =
          x.withChildren (verdicts.map fun verdict => verdict.toTerm.rval) :=
        part_gather container length true .right
      rw [gathered, map_eq_of_forall₂ (all.imp fun _ _ h => h.2)] at rval
      rw [Term.asDict_container container]
      exact rval

/-- Plain data equals itself with its maps read as plain ones. -/
theorem Context.PlainData.equal_asDict (data : ctx.PlainData d) (alike : String → String → Bool) :
    Term.equal alike d.asDict d := by
  have same : Term.same alike d.asDict d := by
    induction data with
    | @intro x here _ ih =>
      cases container : x.isContainer with
      | false =>
        rw [Term.asDict_scalar container]
        exact here.same_self container alike
      | true =>
        rw [Term.asDict_container container,
          Term.same_withChildren_iff container (here.container container).2 (List.length_map _),
          List.forall₂_map_left_iff, List.forall₂_same]
        exact List.forall_mem_map.2 ih
  rwa [data.here.equal_asDict_eq_same]

/-- Plain data accepts itself, whatever the key and whether the match is open or closed, and it does
so without any effect. What is accepted is the value again, with plain maps, and equals it. -/
theorem create_self (ctx : Context) (d : Term) (data : ctx.PlainData d) (key : Term)
    (closed : Bool) (w : World) :
    ∃ payload, create ctx d d key closed w = .ok (.right payload) w ∧
      (Term.right payload).rval = d.asDict ∧
      ∀ alike, Term.equal alike (Term.right payload).rval d := by
  have enough : d.nesting ≤ w.store.budget d [d, key] :=
    Nat.le_trans (Nat.le_add_left _ _) (w.store.programs_le_budget d [d, key])
  obtain ⟨payload, run, rval⟩ := data.create_within enough key closed w
  exact ⟨payload, run, rval, fun alike => rval ▸ data.equal_asDict alike⟩

end

/-- A record keyed by numbers of two classes, a tuple and the name of a type, with a field bag that
would decide acceptance of a scalar, is its own spec. -/
theorem record_accepts_itself :
    let ctx : Context := { Context.bare with registry := ⟨[(.str "Text", .cls .str)]⟩ }
    let d : Term := .map .ordered [(.int 2, .list [.float (.infinite true), .str "free"]),
      (.bool true, .map .proxy [(.str "Text", .bytes [0])]),
      (.tuple [.int 1, .str "Text"], .fields [("accepts", .bool false), ("rest", .tuple [])])]
    ctx.PlainData d ∧ ∃ payload, create ctx d d (.int 7) true {} = .ok (.right payload) {} ∧
      (Term.right payload).rval =
        .map .plain [(.int 2, .list [.float (.infinite true), .str "free"]),
          (.bool true, .map .plain [(.str "Text", .bytes [0])]),
          (.tuple [.int 1, .str "Text"],
            .fields [("accepts", .bool false), ("rest", .tuple [])])] ∧
      Term.equal (· == ·) (Term.right payload).rval d := by
  intro ctx d
  have free : ctx.registry.contains "free" = false := by decide
  have data : ctx.PlainData d := by
    refine .intro ⟨trivial, by decide +kernel⟩ ?_
    simp only [d, Term.entries, List.forall_mem_cons]
    refine ⟨.intro ⟨trivial, .array rfl⟩ ?_, .intro ⟨trivial, by decide⟩ ?_,
      .intro ⟨rfl, by decide⟩ ?_, List.forall_mem_nil _⟩
    · simp only [Term.entries, Term.positions, List.forall_mem_cons]
      exact ⟨.scalar rfl trivial, .scalar rfl free, List.forall_mem_nil _⟩
    · simp only [Term.entries, List.forall_mem_cons]
      exact ⟨.scalar rfl trivial, List.forall_mem_nil _⟩
    · simp only [Term.entries, List.map_cons, List.map_nil, List.forall_mem_cons]
      exact ⟨.scalar rfl trivial, .intro ⟨trivial, .array rfl⟩ (List.forall_mem_nil _),
        List.forall_mem_nil _⟩
  obtain ⟨payload, run, rval, equal⟩ := create_self ctx d data (.int 7) true {}
  exact ⟨data, payload, run, rval, equal _⟩

end SpecMatch
