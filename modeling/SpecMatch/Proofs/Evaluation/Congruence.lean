import Mathlib.Data.List.Forall2
import SpecMatch.Matcher.Create

/-!
# Relations that evaluation respects

An evaluation is put together from a few steps: it answers or fails, reads the store, notes a
request, tells an event, and sets or resets a variable. A relation between evaluations that holds
of each step with itself and passes through sequencing (`Eval.Congruence`) therefore relates
matching with one `Interp` to matching with another as soon as the two are related
(`Interp.Related`).

Containers, quantifiers, connectives and key specs touch nothing of the world themselves. For them
it is enough that answers, faults and sequences are related (`Eval.Compositional`) and that the two
ways are related on the specs inside.

The module follows every function of the matcher once. What evaluation keeps of the world and what
a larger budget changes are instances of `interp_related`, for relations chosen elsewhere.
-/

namespace SpecMatch

/-- The variable that an event is about. -/
def Event.cell? : Event → Option Nat
  | .bound id _ | .reset id => some id
  | _ => none

/-- A relation between evaluations that holds of answers and faults with themselves and passes
through sequencing. -/
structure Eval.Compositional (R : ∀ α : Type, Eval α → Eval α → Prop) : Prop where
  answer : ∀ {α : Type} (a : α), R α (pure a) (pure a)
  fail : ∀ {α : Type} (fault : Fault), R α (throw fault) (throw fault)
  seq : ∀ {α β : Type} {m m' : Eval α} {f f' : α → Eval β},
    R α m m' → (∀ a, R β (f a) (f' a)) → R β (m >>= f) (m' >>= f')

/-- Such a relation that also holds of the steps with themselves that leave the store as it is. -/
structure Eval.Observing (R : ∀ α : Type, Eval α → Eval α → Prop) : Prop extends
    Eval.Compositional R where
  store : R Store Eval.store Eval.store
  emit : ∀ event : Event, event.cell? = none → R Unit (Eval.emit event) (Eval.emit event)

/-- Such a relation that holds of every other step with itself as well. -/
structure Eval.Congruence (R : ∀ α : Type, Eval α → Eval α → Prop) : Prop extends
    Eval.Observing R where
  note : ∀ receiver request, R Unit (Eval.note receiver request) (Eval.note receiver request)
  setCell : ∀ id value key, R Unit (setCell id value key) (setCell id value key)
  resetCell : ∀ id, R Unit (resetCell id) (resetCell id)

/-- Two ways to match are related on a spec if what they make of it is, whatever the value. -/
def Interp.RelatedOn (R : ∀ α : Type, Eval α → Eval α → Prop) (i i' : Interp) (spec : Term) :
    Prop :=
  ∀ value key closed,
    R Verdict (i.create spec value key closed) (i'.create spec value key closed)

/-- Two ways to match and to call are related if what they make of the same arguments is. -/
structure Interp.Related (R : ∀ α : Type, Eval α → Eval α → Prop) (i i' : Interp) : Prop where
  create : ∀ spec, i.RelatedOn R i' spec
  call : ∀ f arguments, R Term (i.call f arguments) (i'.call f arguments)

/-! ## Evaluations that go no deeper -/

section

variable {R : ∀ α : Type, Eval α → Eval α → Prop} (hR : Eval.Compositional R)
include hR

section

variable (tell : ∀ event : Event, event.cell? = none → event.question? = none →
  R Unit (Eval.emit event) (Eval.emit event))
include tell

theorem importPath_related (modules : Modules) (name path : String) :
    R Term (Registry.importPath modules name path) (Registry.importPath modules name path) := by
  unfold Registry.importPath
  split
  · exact hR.fail _
  · split
    · exact hR.fail _
    · split
      · exact hR.seq (tell _ rfl rfl) fun _ => hR.fail _
      · split
        · exact hR.seq (tell _ rfl rfl) fun _ => hR.fail _
        · exact hR.seq (tell _ rfl rfl) fun _ => hR.answer _

/-- Resolving a name looks at the store only to say what stands for the name instead of a class. -/
theorem resolve_related_of_named
    (named : ∀ name target,
      R Class (Registry.classNamed name target) (Registry.classNamed name target))
    (r : Registry) (modules : Modules) (name : String) :
    R Class (r.resolve modules name) (r.resolve modules name) := by
  unfold Registry.resolve
  split
  · exact hR.fail _
  · exact hR.fail _
  · exact hR.seq (importPath_related hR tell modules name _) fun _ => named name _
  · exact named name _

end

/-- A relation holds of a question with itself. -/
abbrev Question.Related (R : ∀ α : Type, Eval α → Eval α → Prop) (question : Question) : Prop :=
  R Unit (Eval.emit (.asked question)) (Eval.emit (.asked question))

theorem ask_related {question : Question} (asked : question.Related R) (needed : Bool) :
    R Unit (Eval.ask question needed) (Eval.ask question needed) := by
  unfold Eval.ask
  split
  · exact asked
  · exact hR.answer _

theorem isInstance_related {c : Class} {x : Term} (asked : (Question.admits c x).Related R) :
    R Bool (isInstance c x) (isInstance c x) :=
  hR.seq (ask_related hR asked _) fun _ => hR.answer _

theorem findOption_related {value : Term} {options : List Term}
    (asked : ∀ option ∈ options, (Question.equals option value).Related R)
    (alike : String → String → Bool) (exact : Bool) :
    R Bool (findOption alike exact value options) (findOption alike exact value options) := by
  induction options with
  | nil => exact hR.answer _
  | cons option rest ih =>
    obtain ⟨first, later⟩ := List.forall_mem_cons.1 asked
    refine hR.seq (ask_related hR first _) fun _ => ?_
    split
    · exact hR.answer _
    · exact ih later

section

variable (store : R Store Eval.store Eval.store)
include store

theorem comparisonHolds_related {symbol : String} {operand value : Term}
    (asked : (Question.compares symbol value operand).Related R) :
    R Bool (comparisonHolds symbol operand value) (comparisonHolds symbol operand value) := by
  refine hR.seq store ?_
  intro s
  dsimp only
  split
  · exact hR.seq (ask_related hR asked _) fun _ => hR.answer _
  · split
    · exact hR.seq (ask_related hR asked _) fun _ => hR.answer _
    · exact hR.fail _

theorem isOneOf_related {options : List Term} (value : Term)
    (asked : ∀ option ∈ options, (Question.equals option value).Related R) (exact : Bool) :
    R Bool (isOneOf options exact value) (isOneOf options exact value) :=
  hR.seq store fun _ => findOption_related hR asked _ _

theorem matchLiteral_related {spec value : Term} (asked : (Question.equals spec value).Related R) :
    R Verdict (matchLiteral spec value) (matchLiteral spec value) :=
  hR.seq store fun _ => hR.seq (ask_related hR asked _) fun _ => hR.answer _

end

end

section

variable {R : ∀ α : Type, Eval α → Eval α → Prop} (hR : Eval.Observing R)
include hR

theorem Eval.Observing.asked (question : Question) : question.Related R := hR.emit _ rfl

theorem misuse_related {α : Type} (cause : Misuse) : R α (Eval.misuse cause) (Eval.misuse cause) :=
  hR.fail _

theorem readCell_related (id : Nat) : R Term (readCell id) (readCell id) :=
  hR.seq hR.store fun _ => hR.answer _

theorem classNamed_related (name : String) (target : Term) :
    R Class (Registry.classNamed name target) (Registry.classNamed name target) := by
  unfold Registry.classNamed
  split
  · exact hR.answer _
  · exact hR.seq hR.store fun _ => hR.fail _

theorem resolve_related (r : Registry) (modules : Modules) (name : String) :
    R Class (r.resolve modules name) (r.resolve modules name) :=
  resolve_related_of_named hR.toCompositional (fun event silent _ => hR.emit event silent)
    (classNamed_related hR) r modules name

end

/-! ## What stands under a key -/

/-- What the spec under a key is matched against, and with which key. -/
def Term.under (value key : Term) : Term × Term :=
  match value.lookup key with
  | .missing => (.null, .null)
  | child => (child, key)

theorem Term.under_missing {value key : Term} (missing : value.lookup key = .missing) :
    value.under key = (.null, .null) := by
  rw [under, missing]

theorem Term.under_present {value key : Term} (there : value.lookup key ≠ .missing) :
    value.under key = (value.lookup key, key) := by
  unfold under
  split
  · next missing => exact absurd missing there
  · rfl

/-- Matches the spec of an entry against what stands under its key. -/
abbrev Interp.createUnder (i : Interp) (value : Term) (e : Term × Term) : Eval Verdict :=
  i.create e.2 (value.under e.1).1 (value.under e.1).2 false

/-- What was found, with the verdict of one more entry. -/
def Checked.extend (checked : Checked) (value key : Term) (verdict : Verdict) : Checked :=
  match value.lookup key with
  | .missing => { checked with incomplete := checked.incomplete || !verdict.accepted }
  | _ => { checked with verdicts := (key, verdict) :: checked.verdicts }

theorem Checked.extend_missing {value key : Term} (missing : value.lookup key = .missing)
    (checked : Checked) (verdict : Verdict) : checked.extend value key verdict =
      { checked with incomplete := checked.incomplete || !verdict.accepted } := by
  rw [extend, missing]

theorem Checked.extend_present {value key : Term} (there : value.lookup key ≠ .missing)
    (checked : Checked) (verdict : Verdict) : checked.extend value key verdict =
      { checked with verdicts := (key, verdict) :: checked.verdicts } := by
  unfold extend
  split
  · next missing => exact absurd missing there
  · rfl

/-- The first entry is matched against what stands under its key, then the others are. -/
theorem checkEntries_cons (i : Interp) (value : Term) (e : Term × Term) (rest : Entries) :
    checkEntries i value (e :: rest) = do
      let verdict ← i.createUnder value e
      let checked ← checkEntries i value rest
      return checked.extend value e.1 verdict := by
  rw [checkEntries]
  split
  · next missing =>
    simp only [Interp.createUnder, Term.under_missing missing, Checked.extend_missing missing,
      Interp.accepts, bind_assoc, pure_bind]
  · next there =>
    simp only [Interp.createUnder, Term.under_present there, Checked.extend_present there]

section

variable {R : ∀ α : Type, Eval α → Eval α → Prop} (hR : Eval.Compositional R)
variable {i i' : Interp}
include hR

/-! ## Structure, quantifiers and connectives

The two specs need not be the same, nor the two keys, and they need to be related only on what they
are matched against. -/

theorem accepts_related {spec spec' value key key' : Term} {closed : Bool}
    (on : R Verdict (i.create spec value key closed) (i'.create spec' value key' closed)) :
    R Bool (i.accepts spec value key closed) (i'.accepts spec' value key' closed) :=
  hR.seq on fun _ => hR.answer _

theorem checkEntries_related {entries : Entries} (value : Term)
    (on : ∀ e ∈ entries, R Verdict (i.createUnder value e) (i'.createUnder value e)) :
    R Checked (checkEntries i value entries) (checkEntries i' value entries) := by
  induction entries with
  | nil => exact hR.answer _
  | cons e rest ih =>
    obtain ⟨first, later⟩ := List.forall_mem_cons.1 on
    rw [checkEntries_cons, checkEntries_cons]
    exact hR.seq first fun _ => hR.seq (ih later) fun _ => hR.answer _

theorem matchEntries_related {spec value : Term}
    (on : ∀ e ∈ spec.entries, R Verdict (i.createUnder value e) (i'.createUnder value e))
    (closed : Bool) :
    R Verdict (matchEntries i spec value closed) (matchEntries i' spec value closed) :=
  hR.seq (checkEntries_related hR value on) fun _ => hR.answer _

section

variable {spec spec' : Term} {entries : Entries}
variable (on : ∀ e ∈ entries, R Verdict (i.create spec e.2 e.1 false)
  (i'.create spec' e.2 e.1 false))
include on

theorem matchEach_related :
    R (List Verdict) (matchEach i spec entries) (matchEach i' spec' entries) := by
  induction entries with
  | nil => exact hR.answer _
  | cons e rest ih =>
    obtain ⟨first, later⟩ := List.forall_mem_cons.1 on
    exact hR.seq first fun _ => hR.seq (ih later) fun _ => hR.answer _

theorem matchSome_related : R Bool (matchSome i spec entries) (matchSome i' spec' entries) := by
  induction entries with
  | nil => exact hR.answer _
  | cons e rest ih =>
    obtain ⟨first, later⟩ := List.forall_mem_cons.1 on
    refine hR.seq (accepts_related hR first) ?_
    intro accepted
    cases accepted
    · exact ih later
    · exact hR.answer _

end

section

variable {spec spec' value key key' : Term}
variable (null : value = .null →
  R Verdict (i.create spec .null key false) (i'.create spec' .null key' false))
variable (each : ∀ e ∈ value.entries,
  R Verdict (i.create spec e.2 e.1 false) (i'.create spec' e.2 e.1 false))
include null each

theorem everyItem_related :
    R Verdict (everyItem i spec value key) (everyItem i' spec' value key') := by
  unfold everyItem
  split
  · exact hR.seq (accepts_related hR (null rfl)) fun _ => hR.answer _
  · split
    · exact hR.seq (matchEach_related hR each) fun _ => hR.answer _
    · exact hR.answer _

theorem someItem_related :
    R Verdict (someItem i spec value key) (someItem i' spec' value key') := by
  unfold someItem
  split
  · exact hR.seq (accepts_related hR (null rfl)) fun _ => hR.answer _
  · exact hR.seq (matchSome_related hR each) fun _ => hR.answer _

end

section

variable {specs specs' : List Term} {value key key' : Term}
variable (on : specs.Forall₂ (fun spec spec' =>
  R Verdict (i.create spec value key false) (i'.create spec' value key' false)) specs')
include on

theorem allOf_related : R Verdict (allOf i value key specs) (allOf i' value key' specs') := by
  induction on with
  | nil => exact hR.answer _
  | cons first _ ih =>
    refine hR.seq first ?_
    intro verdict
    split
    · exact ih
    · exact hR.answer _

theorem anyOf_related : R Verdict (anyOf i value key specs) (anyOf i' value key' specs') := by
  induction on with
  | nil => exact hR.answer _
  | cons first _ ih =>
    refine hR.seq first ?_
    intro verdict
    split
    · exact hR.answer _
    · exact ih

end

theorem maybe_related {spec spec' value key key' : Term}
    (on : R Verdict (i.create spec value key false) (i'.create spec' value key' false)) :
    R Verdict (maybe i spec value key) (maybe i' spec' value key') := by
  unfold maybe
  split
  · exact hR.answer _
  · exact on

/-- What a variable does once it is known whether its constraint accepts. -/
theorem settle_related {id : Nat} {value : Term} (key key' : Term)
    (set : R Unit (setCell id value key) (setCell id value key'))
    (reset : R Unit (resetCell id) (resetCell id)) (allowed : Bool) :
    R Verdict
      (if allowed then do setCell id value key; return .right value
        else do resetCell id; return .left value)
      (if allowed then do setCell id value key'; return .right value
        else do resetCell id; return .left value) := by
  cases allowed
  · exact hR.seq reset fun _ => hR.answer _
  · exact hR.seq set fun _ => hR.answer _

/-- An array as a path is matched as a list against a segment of the key, any other path against the
cut key. -/
theorem keyed_related {path key : Term} {start : Int} {length : Option Int}
    (on : R Verdict (i.create path (key.cutKey start length) .null false)
      (i'.create path (key.cutKey start length) .null false))
    (on_segment : ∀ specs, path = .list specs ∨ path = .tuple specs →
      R Verdict (i.create (.list specs) (.tuple (segment key.keyPath start length)) .null true)
        (i'.create (.list specs) (.tuple (segment key.keyPath start length)) .null true)) :
    R Bool (keyed i path start length key) (keyed i' path start length key) := by
  unfold keyed
  split
  · exact accepts_related hR (on_segment _ (.inl rfl))
  · exact accepts_related hR (on_segment _ (.inr rfl))
  · exact accepts_related hR on

end

section

variable {R : ∀ α : Type, Eval α → Eval α → Prop} (hR : Eval.Congruence R)
variable {i i' : Interp} (hi : i.Related R i')
include hR hi

theorem bindCell_related (id : Nat) (value key : Term) :
    R Verdict (bindCell i id value key) (bindCell i' id value key) := by
  refine hR.seq hR.store ?_
  intro s
  have settle := settle_related hR.toCompositional key key (hR.setCell id value key)
    (hR.resetCell id)
  dsimp only
  split
  · exact hR.seq (hR.answer true) settle
  · exact hR.seq (accepts_related hR.toCompositional (hi.create _ _ _ _)) settle

end

/-! ## Dispatch -/

section

variable {R : ∀ α : Type, Eval α → Eval α → Prop} {i i' : Interp}

/-- Filling a template that is no container calls it or leaves it. -/
theorem fillLeaf_related (hR : Eval.Congruence R) (hi : i.Related R i') (value key leaf : Term) :
    R Term (if leaf.isCallable then i.call leaf [value, key] else pure leaf)
      (if leaf.isCallable then i'.call leaf [value, key] else pure leaf) := by
  split
  · exact hi.call leaf _
  · exact hR.answer leaf

mutual

theorem fill_related (hR : Eval.Congruence R) (hi : i.Related R i') (value key : Term) :
    ∀ template : Term, R Term (fill i value key template) (fill i' value key template)
  | .list items | .tuple items =>
    hR.seq (fillItems_related hR hi value key items) fun _ => hR.answer _
  | .map _ entries => hR.seq (fillEntries_related hR hi value key entries) fun _ => hR.answer _
  | .fields attributes =>
    hR.seq (fillAttributes_related hR hi value key attributes) fun _ => hR.answer _
  | .action _ | .cls _ => hR.answer _
  | .null | .bool _ | .int _ | .float _ | .str _ | .bytes _ | .missing | .circle _ | .square _
  | .left _ | .right _ | .foreign .. | .builtin _ | .comparison .. | .oneOf .. | .allOf _
  | .anyOf _ | .negation _ | .maybe _ | .strict _ | .everyItem _ | .someItem _ | .keyed ..
  | .fanout _ | .dispatcher _ | .var _ | .recorder .. | .object _ => by
    unfold fill
    exact fillLeaf_related hR hi value key _

theorem fillItems_related (hR : Eval.Congruence R) (hi : i.Related R i') (value key : Term) :
    ∀ items : List Term,
      R (List Term) (fillItems i value key items) (fillItems i' value key items)
  | [] => hR.answer _
  | x :: xs => hR.seq (fill_related hR hi value key x) fun _ =>
    hR.seq (fillItems_related hR hi value key xs) fun _ => hR.answer _

theorem fillEntries_related (hR : Eval.Congruence R) (hi : i.Related R i') (value key : Term) :
    ∀ entries : List (Term × Term),
      R (List (Term × Term)) (fillEntries i value key entries) (fillEntries i' value key entries)
  | [] => hR.answer _
  | (_, v) :: es => hR.seq (fill_related hR hi value key v) fun _ =>
    hR.seq (fillEntries_related hR hi value key es) fun _ => hR.answer _

theorem fillAttributes_related (hR : Eval.Congruence R) (hi : i.Related R i') (value key : Term) :
    ∀ attributes : List (String × Term),
      R (List (String × Term)) (fillAttributes i value key attributes)
        (fillAttributes i' value key attributes)
  | [] => hR.answer _
  | (_, v) :: as => hR.seq (fill_related hR hi value key v) fun _ =>
    hR.seq (fillAttributes_related hR hi value key as) fun _ => hR.answer _

end

end

section

variable {R : ∀ α : Type, Eval α → Eval α → Prop} (hR : Eval.Congruence R)
variable {i i' : Interp} (hi : i.Related R i')
include hR hi

theorem runHandler_related (self value key handler : Term) :
    R Term (runHandler i self value key handler) (runHandler i' self value key handler) := by
  unfold runHandler
  split
  · exact hR.answer _
  · split
    · exact hi.call handler _
    · split
      · exact fill_related hR hi value key handler
      · exact hR.answer handler

theorem runCases_related (self value key : Term) (cases : List (Term × Term)) :
    ∀ index : Nat,
      R Term (runCases i self value key index cases) (runCases i' self value key index cases) := by
  induction cases with
  | nil => exact fun _ => hR.seq (hR.emit _ rfl) fun _ => hR.answer _
  | cons c rest ih =>
    intro index
    refine hR.seq (accepts_related hR.toCompositional (hi.create _ _ _ _)) ?_
    intro accepted
    cases accepted
    · exact ih (index + 1)
    · exact hR.seq (hR.emit _ rfl) fun _ => runHandler_related hR hi _ _ _ _

theorem dispatchEntries_related (function key : Term) (entries : Entries) :
    R (List Term) (dispatchEntries i function key entries)
      (dispatchEntries i' function key entries) := by
  induction entries with
  | nil => exact hR.answer _
  | cons e rest ih => exact hR.seq (hi.call _ _) fun _ => hR.seq ih fun _ => hR.answer _

theorem descend_related (value key function : Term) :
    R Term (descend i value key function) (descend i' value key function) := by
  unfold descend
  split
  · exact hR.seq (dispatchEntries_related hR hi _ _ _) fun _ => hR.answer _
  · exact hR.fail _

theorem fanOut_related (arguments functions : List Term) :
    R (List Term) (fanOut i arguments functions) (fanOut i' arguments functions) := by
  induction functions with
  | nil => exact hR.answer _
  | cons f rest ih => exact hR.seq (hi.call _ _) fun _ => hR.seq ih fun _ => hR.answer _

/-! ## Objects of the host -/

theorem run_related (response : Response) : R Term (response.run i) (response.run i') := by
  induction response with
  | answer result => exact hR.answer _
  | fail fault => exact hR.fail _
  | ask f arguments resume ih => exact hR.seq (hi.call f arguments) ih

theorem request_related (ctx : Context) (handle : Handle) (request : Request) :
    R Term (ctx.request i handle request) (ctx.request i' handle request) :=
  hR.seq hR.store fun _ => hR.seq (hR.note _ _) fun _ => run_related hR hi _

/-! ## Matching and calling -/

theorem applyTo_related (ctx : Context) (f : Term) (arguments : List Term) :
    R Term (applyTo ctx i f arguments) (applyTo ctx i' f arguments) := by
  have parts := hR.toCompositional
  have reads := hR.toObserving
  have on := hi.create
  unfold applyTo
  dsimp only
  split
  · exact hR.answer _
  · exact descend_related hR hi _ _ _
  · exact hR.answer _
  · exact hR.seq (comparisonHolds_related parts hR.store (reads.asked _)) fun _ => hR.answer _
  · exact hR.seq (isOneOf_related parts hR.store _ (fun _ _ => reads.asked _) _) fun _ => hR.answer _
  · exact hR.seq (allOf_related parts (List.forall₂_same.2 fun _ _ => on _ _ _ _)) fun _ =>
      hR.answer _
  · exact hR.seq (anyOf_related parts (List.forall₂_same.2 fun _ _ => on _ _ _ _)) fun _ =>
      hR.answer _
  · refine hR.seq (hR.seq ?_ fun _ => hR.answer _) fun _ => hR.answer _
    exact accepts_related parts (on _ _ _ _)
  · exact hR.seq (maybe_related parts (on _ _ _ _)) fun _ => hR.answer _
  · exact hR.seq (on _ _ _ _) fun _ => hR.answer _
  · exact hR.seq (everyItem_related parts (fun _ => on _ _ _ _) fun _ _ => on _ _ _ _) fun _ =>
      hR.answer _
  · exact hR.seq (someItem_related parts (fun _ => on _ _ _ _) fun _ _ => on _ _ _ _) fun _ =>
      hR.answer _
  · exact hR.seq (keyed_related parts (on _ _ _ _) fun _ _ => on _ _ _ _) fun _ => hR.answer _
  · exact hR.seq (fanOut_related hR hi _ _) fun _ => hR.answer _
  · exact runCases_related hR hi _ _ _ _ _
  · exact readCell_related reads _
  · exact hR.seq (hR.note _ _) fun _ => hR.answer _
  · exact request_related hR hi ctx _ _
  · exact misuse_related reads _

theorem callAt_related (ctx : Context) (f : Term) (arguments : List Term) :
    R Term (callAt ctx i f arguments) (callAt ctx i' f arguments) := by
  have reads := hR.toObserving
  unfold callAt
  split
  · exact misuse_related reads _
  · split
    · exact applyTo_related hR hi ctx f arguments
    · exact misuse_related reads _

theorem createAt_related (ctx : Context) (spec value key : Term) (closed : Bool) :
    R Verdict (createAt ctx i spec value key closed) (createAt ctx i' spec value key closed) := by
  have reads := hR.toObserving
  have instances (c : Class) : R Verdict (do return .when (← isInstance c value) value)
      (do return .when (← isInstance c value) value) :=
    hR.seq (isInstance_related hR.toCompositional (reads.asked _)) fun _ => hR.answer _
  have literal : R Verdict (matchLiteral spec value) (matchLiteral spec value) :=
    matchLiteral_related hR.toCompositional hR.store (reads.asked _)
  unfold createAt
  split
  · exact instances _
  · exact bindCell_related hR hi _ _ _
  · exact hR.seq (request_related hR hi ctx _ _) fun _ => hR.answer _
  · exact hR.seq (callAt_related hR hi ctx _ _) fun _ => hR.answer _
  · exact matchEntries_related hR.toCompositional (fun _ _ => hi.create _ _ _ _) _
  · exact hR.seq (request_related hR hi ctx _ _) fun _ => hR.answer _
  · exact hR.seq (callAt_related hR hi ctx _ _) fun _ => hR.answer _
  · exact hR.seq (callAt_related hR hi ctx _ _) fun _ => hR.answer _
  · split
    · exact hR.seq (resolve_related reads _ _ _) instances
    · exact literal
  · exact literal

end

/-! ## Levels -/

/-- Levels of matching and calling above another way to match and to call, which nothing but the
lowest of them asks. -/
def interpAbove (ctx : Context) (base : Interp) : Nat → Interp
  | 0 => base
  | levels + 1 =>
    { create := fun spec value key closed =>
        createAt ctx (interpAbove ctx base levels) spec value key closed
      call := fun f arguments => callAt ctx (interpAbove ctx base levels) f arguments }

/-- A budget is as many levels, with nothing below them. -/
theorem interp_eq_interpAbove (ctx : Context) (budget : Nat) :
    interp ctx budget = interpAbove ctx .exhausted budget := by
  induction budget with
  | zero => rfl
  | succ budget ih => rw [interp, interpAbove, ih]

/-- A larger budget is the levels of a smaller one above what is left of it. -/
theorem interp_add_eq_interpAbove (ctx : Context) (levels extra : Nat) :
    interp ctx (levels + extra) = interpAbove ctx (interp ctx extra) levels := by
  induction levels with
  | zero => rw [Nat.zero_add, interpAbove]
  | succ levels ih => rw [Nat.add_right_comm, interp, interpAbove, ih]

/-- Matching and calling with the same levels above two other ways are related if these are: a level
more on both sides changes nothing about that. -/
theorem interpAbove_related {R : ∀ α : Type, Eval α → Eval α → Prop} (hR : Eval.Congruence R)
    (ctx : Context) {base base' : Interp} (related : base.Related R base') :
    ∀ levels : Nat, (interpAbove ctx base levels).Related R (interpAbove ctx base' levels)
  | 0 => related
  | levels + 1 =>
    have below := interpAbove_related hR ctx related levels
    ⟨createAt_related hR below ctx, callAt_related hR below ctx⟩

/-- Matching and calling with two budgets are related if they are with nothing left of the smaller
one. -/
theorem interp_related {R : ∀ α : Type, Eval α → Eval α → Prop} (hR : Eval.Congruence R)
    (ctx : Context) (extra : Nat) (base : Interp.exhausted.Related R (interp ctx extra))
    (budget : Nat) : (interp ctx budget).Related R (interp ctx (budget + extra)) := by
  rw [interp_eq_interpAbove, interp_add_eq_interpAbove]
  exact interpAbove_related hR ctx base budget

end SpecMatch
