import SpecMatch.Proofs.Dispatch.Templates
import SpecMatch.Proofs.Term.Unmarked

/-!
# Evaluation without the missing mark

The missing mark stands for a child that is absent. Matching never makes a value of it: if it is
nowhere in the terms that an evaluation is about, nor in what the host answers, then it is nowhere
in the answer and in what is bound on the way (`interp_unmarked`).

`Eval.Ensures` is a triple whose invariant holds however the evaluation ends, since what was bound
before a fault stays bound. The invariant may rely on unmarked terms wherever a variable is bound or
a request is noted (`World.UnmarkedInvariant`).
-/

namespace SpecMatch

/-- From a world with the invariant, the evaluation keeps it even if it fails, and what it answers
is as the postcondition says. -/
def Eval.Ensures (I : World → Prop) {α : Type} (m : Eval α) (post : α → Prop) : Prop :=
  ∀ w, I w → match m w with
    | .ok a w' => I w' ∧ post a
    | .error _ w' => I w'

namespace Eval.Ensures

variable {I : World → Prop} {α β : Type}

theorem pure {a : α} {post : α → Prop} (h : post a) : (Pure.pure a : Eval α).Ensures I post :=
  fun _ hw => ⟨hw, h⟩

theorem throw {fault : Fault} {post : α → Prop} :
    (MonadExcept.throw fault : Eval α).Ensures I post := fun _ hw => hw

theorem bind {m : Eval α} {f : α → Eval β} {mid : α → Prop} {post : β → Prop}
    (hm : m.Ensures I mid) (hf : ∀ a, mid a → (f a).Ensures I post) :
    (m >>= f).Ensures I post := by
  intro w hw
  have hm := hm w hw
  rw [Eval.bind_apply]
  cases run : m w with
  | ok a w' =>
    rw [run] at hm
    exact hf a hm.2 w' hm.1
  | error fault w' =>
    rw [run] at hm
    exact hm

/-- What is made of an answer. -/
theorem map {m : Eval α} {f : α → β} {mid : α → Prop} {post : β → Prop} (hm : m.Ensures I mid)
    (hf : ∀ a, mid a → post (f a)) : (do return f (← m) : Eval β).Ensures I post :=
  hm.bind fun a ha => pure (hf a ha)

/-- What goes through a list answers as the postcondition says for every element. -/
theorem each {f : α → Eval β} {g : List α → Eval (List β)} (nil : g [] = Pure.pure [])
    (cons : ∀ x xs, g (x :: xs) = do
      let y ← f x
      return y :: (← g xs)) {xs : List α} {post : β → Prop}
    (ensures : ∀ x ∈ xs, (f x).Ensures I post) :
    (g xs).Ensures I fun ys => ∀ y ∈ ys, post y := by
  induction xs with
  | nil =>
    rw [nil]
    exact pure (List.forall_mem_nil _)
  | cons x xs ih =>
    obtain ⟨first, later⟩ := List.forall_mem_cons.1 ensures
    rw [cons]
    exact first.bind fun y hy => (ih later).map fun ys each => List.forall_mem_cons.2 ⟨hy, each⟩

/-- An evaluation of which nothing but what it keeps is known. -/
theorem of_keeps {m : Eval α} (keeps : m.Keeps I) : m.Ensures I fun _ => True := by
  intro w hw
  have after := keeps w hw
  unfold Eval.after at after
  cases run : m w with
  | ok a w' =>
    rw [run] at after
    exact ⟨after, trivial⟩
  | error fault w' =>
    rw [run] at after
    exact after

theorem keeps {m : Eval α} {post : α → Prop} (hm : m.Ensures I post) : m.Keeps I := by
  intro w hw
  have hm := hm w hw
  unfold Eval.after
  cases run : m w with
  | ok a w' =>
    rw [run] at hm
    exact hm.1
  | error fault w' =>
    rw [run] at hm
    exact hm

end Eval.Ensures

/-! ## Unmarked worlds and hosts -/

/-- The missing mark is nowhere in a cell. -/
structure Cell.Unmarked (c : Cell) : Prop where
  constraint : c.constraint.Unmarked
  value : ∀ v, c.value = some v → v.Unmarked

/-- The missing mark is nowhere in a request. -/
def Request.Unmarked : Request → Prop
  | .bind value key => value.Unmarked ∧ key.Unmarked
  | .accept value => value.Unmarked
  | .call arguments => ∀ x ∈ arguments, x.Unmarked

/-- The missing mark is nowhere in a call. -/
structure Call.Unmarked (c : Call) : Prop where
  receiver : c.receiver.Unmarked
  request : c.request.Unmarked

/-- The missing mark is nowhere in a store. -/
structure Store.Unmarked (s : Store) : Prop where
  cells : ∀ id, (s.cell id).Unmarked
  calls : ∀ c ∈ s.calls, c.Unmarked

/-- After a change to one cell, every cell is as it was or changed like that. -/
theorem Store.cell_updateCell (s : Store) (id : Nat) (f : Cell → Cell) (j : Nat) :
    (s.updateCell id f).cell j = s.cell j ∨ (s.updateCell id f).cell j = f (s.cell j) := by
  simp only [updateCell, cell, Array.getElem?_modify]
  split
  · cases s.cells[j]? with
    | none => exact .inl rfl
    | some c => exact .inr rfl
  · exact .inl rfl

theorem Store.Unmarked.updateCell {s : Store} (unmarked : s.Unmarked) (id : Nat) {f : Cell → Cell}
    (changed : ∀ c, c.Unmarked → (f c).Unmarked) : (s.updateCell id f).Unmarked := by
  refine ⟨fun j => ?_, unmarked.calls⟩
  rcases s.cell_updateCell id f j with same | new
  · rw [same]
    exact unmarked.cells j
  · rw [new]
    exact changed _ (unmarked.cells j)

theorem Store.Unmarked.push {s : Store} (unmarked : s.Unmarked) (label : String) {constraint : Term}
    (hconstraint : constraint.Unmarked) :
    Store.Unmarked { s with cells := s.cells.push ⟨label, constraint, none⟩ } := by
  refine ⟨fun j => ?_, unmarked.calls⟩
  rw [cell, Array.getElem?_push]
  split
  · exact ⟨hconstraint, fun _ held => by cases held⟩
  · exact unmarked.cells j

/-- A response does not bring the missing mark in. -/
inductive Response.Unmarked : Response → Prop
  | answer {result : Term} (result_unmarked : result.Unmarked) : Unmarked (.answer result)
  | fail (fault : Fault) : Unmarked (.fail fault)
  | ask {function : Term} {arguments : List Term} {resume : Term → Response}
    (function_unmarked : function.Unmarked) (arguments_unmarked : ∀ x ∈ arguments, x.Unmarked)
    (resume_unmarked : ∀ result, result.Unmarked → Unmarked (resume result)) :
    Unmarked (.ask function arguments resume)

/-- The host does not bring the missing mark in. -/
def Host.Unmarked (host : Host) : Prop :=
  ∀ handle request calls, request.Unmarked → (∀ c ∈ calls, c.Unmarked) →
    (host.respond handle request calls).Unmarked

/-- A property of unmarked worlds that the primitive changes keep as long as what is bound and what
is noted is unmarked. -/
structure World.UnmarkedInvariant (I : World → Prop) : Prop where
  store : ∀ w, I w → w.store.Unmarked
  note : ∀ receiver request, receiver.Unmarked → request.Unmarked →
    (Eval.note receiver request).Keeps I
  emit : ∀ event : Event, event.cell? = none → (Eval.emit event).Keeps I
  setCell : ∀ id value key, value.Unmarked → (setCell id value key).Keeps I
  resetCell : ∀ id, (resetCell id).Keeps I

/-- What is bound and what is noted is all that comes into the store. -/
theorem World.unmarked_invariant : World.UnmarkedInvariant (·.store.Unmarked) where
  store _ hw := hw
  note receiver request hreceiver hrequest w hw := by
    refine ⟨hw.cells, fun c mem => ?_⟩
    rcases Array.mem_push.1 mem with there | rfl
    · exact hw.calls c there
    · exact ⟨hreceiver, hrequest⟩
  emit _ _ _ hw := hw
  setCell id value key hvalue w hw := by
    dsimp only
    rw [store_after_setCell]
    refine hw.updateCell id fun c hc => ⟨hc.constraint, fun v held => ?_⟩
    cases value <;> cases held <;> exact hvalue
  resetCell id w hw := by
    dsimp only
    rw [store_after_resetCell]
    exact hw.updateCell id fun c hc => ⟨hc.constraint, fun v held => by cases held⟩

/-- A way to match and to call makes unmarked terms of unmarked terms. -/
structure Interp.Unmarked (I : World → Prop) (i : Interp) : Prop where
  create : ∀ {spec value key : Term} (closed : Bool), spec.Unmarked → value.Unmarked →
    key.Unmarked → (i.create spec value key closed).Ensures I Verdict.Unmarked
  call : ∀ {function : Term} {arguments : List Term}, function.Unmarked →
    (∀ x ∈ arguments, x.Unmarked) → (i.call function arguments).Ensures I Term.Unmarked

section

variable {I : World → Prop}

/-- Answers of which nothing need be known come from evaluations that are put together. -/
theorem World.UnmarkedInvariant.observing (hI : World.UnmarkedInvariant I) :
    Eval.Observing fun _ m _ => m.Ensures I fun _ => True where
  answer _ := .pure trivial
  fail _ := .throw
  seq hm hf := hm.bind fun a _ => hf a
  store _ hw := ⟨hw, trivial⟩
  emit event silent := .of_keeps (hI.emit event silent)

theorem World.UnmarkedInvariant.read (hI : World.UnmarkedInvariant I) :
    Eval.store.Ensures I Store.Unmarked := fun w hw => ⟨hw, hI.store w hw⟩

end

section

variable {I : World → Prop} {i : Interp} (hi : i.Unmarked I)
include hi

/-! ## Connectives and key specs -/

section

variable {value key : Term} (hvalue : value.Unmarked) (hkey : key.Unmarked)
include hvalue hkey

theorem accepts_ensures {spec : Term} (hspec : spec.Unmarked) (closed : Bool) :
    (i.accepts spec value key closed).Ensures I fun _ => True :=
  (hi.create closed hspec hvalue hkey).map fun _ _ => trivial

theorem maybe_ensures {spec : Term} (hspec : spec.Unmarked) :
    (maybe i spec value key).Ensures I Verdict.Unmarked := by
  unfold maybe
  split
  · exact .pure (Term.unmarked_right.2 Term.unmarked_null)
  · exact hi.create false hspec hvalue hkey

theorem allOf_ensures {specs : List Term} (each : ∀ s ∈ specs, s.Unmarked) :
    (allOf i value key specs).Ensures I Verdict.Unmarked := by
  induction specs with
  | nil => exact .pure (Term.unmarked_right.2 hvalue)
  | cons spec rest ih =>
    obtain ⟨first, later⟩ := List.forall_mem_cons.1 each
    refine (hi.create false first hvalue hkey).bind fun verdict payload => ?_
    split
    · exact ih later
    · exact .pure (Term.unmarked_left.2 payload)

theorem anyOf_ensures {specs : List Term} (each : ∀ s ∈ specs, s.Unmarked) :
    (anyOf i value key specs).Ensures I Verdict.Unmarked := by
  induction specs with
  | nil => exact .pure (Term.unmarked_left.2 hvalue)
  | cons spec rest ih =>
    obtain ⟨first, later⟩ := List.forall_mem_cons.1 each
    refine (hi.create false first hvalue hkey).bind fun verdict payload => ?_
    split
    · exact .pure (Term.unmarked_right.2 payload)
    · exact ih later

end

theorem keyed_ensures {path key : Term} (hpath : path.Unmarked) (hkey : key.Unmarked) (start : Int)
    (length : Option Int) : (keyed i path start length key).Ensures I fun _ => True := by
  have segments := Term.unmarked_tuple.2 (hkey.segment start length)
  unfold keyed
  split
  · exact accepts_ensures hi segments Term.unmarked_null hpath true
  · exact accepts_ensures hi segments Term.unmarked_null
      (Term.unmarked_list.2 (Term.unmarked_tuple.1 hpath)) true
  · exact accepts_ensures hi (hkey.cutKey start length) Term.unmarked_null hpath false

/-! ## Containers -/

omit hi in
theorem gather_unmarked {value : Term} (hvalue : value.Unmarked) {verdicts : List Verdict}
    (each : ∀ v ∈ verdicts, v.Unmarked) (complete : Bool) :
    (gather value verdicts complete).Unmarked :=
  Verdict.unmarked_when (hvalue.withChildren (List.forall_mem_map.2 each)) _

section

variable {value : Term} (hvalue : value.Unmarked)
include hvalue

theorem checkEntries_ensures {entries : Entries}
    (each : ∀ e ∈ entries, e.1.Unmarked ∧ e.2.Unmarked) :
    (checkEntries i value entries).Ensures I fun checked =>
      ∀ c ∈ checked.verdicts, c.2.Unmarked := by
  induction entries with
  | nil => exact .pure (List.forall_mem_nil _)
  | cons e rest ih =>
    obtain ⟨⟨hkey, hspec⟩, later⟩ := List.forall_mem_cons.1 each
    unfold checkEntries
    split
    · refine (accepts_ensures hi Term.unmarked_null Term.unmarked_null hspec false).bind
        fun _ _ => ?_
      exact (ih later).map fun _ verdicts => verdicts
    · next present =>
      refine (hi.create false hspec (hvalue.lookup present) hkey).bind fun verdict payload => ?_
      exact (ih later).map fun _ verdicts => List.forall_mem_cons.2 ⟨payload, verdicts⟩

theorem matchEntries_ensures {spec : Term} (hspec : spec.Unmarked) (closed : Bool) :
    (matchEntries i spec value closed).Ensures I Verdict.Unmarked := by
  refine (checkEntries_ensures hi hvalue fun _ => hspec.entry).map fun checked verdicts => ?_
  refine gather_unmarked hvalue (List.forall_mem_map.2 fun e mem => ?_) _
  unfold entryVerdict Checked.get?
  cases found : checked.verdicts.find? fun c => c.1.sameKey e.1 with
  | none => exact Verdict.unmarked_when (hvalue.entry mem).2 _
  | some c => exact verdicts c (List.mem_of_find?_eq_some found)

end

section

variable {spec : Term} (hspec : spec.Unmarked)
include hspec

theorem matchEach_ensures {entries : Entries}
    (each : ∀ e ∈ entries, e.1.Unmarked ∧ e.2.Unmarked) :
    (matchEach i spec entries).Ensures I fun verdicts => ∀ v ∈ verdicts, v.Unmarked :=
  .each (g := matchEach i spec) rfl (fun _ _ => rfl) fun e mem =>
    hi.create false hspec (each e mem).2 (each e mem).1

theorem matchSome_ensures {entries : Entries}
    (each : ∀ e ∈ entries, e.1.Unmarked ∧ e.2.Unmarked) :
    (matchSome i spec entries).Ensures I fun _ => True := by
  induction entries with
  | nil => exact .pure trivial
  | cons e rest ih =>
    obtain ⟨⟨hkey, hchild⟩, later⟩ := List.forall_mem_cons.1 each
    refine (accepts_ensures hi hchild hkey hspec false).bind fun accepted _ => ?_
    cases accepted
    · exact ih later
    · exact .pure trivial

variable {value key : Term} (hvalue : value.Unmarked) (hkey : key.Unmarked)
include hvalue hkey

theorem everyItem_ensures : (everyItem i spec value key).Ensures I Verdict.Unmarked := by
  unfold everyItem
  split
  · exact (accepts_ensures hi hvalue hkey hspec false).map fun accepted _ =>
      Verdict.unmarked_when hvalue accepted
  · split
    · exact (matchEach_ensures hi hspec fun _ => hvalue.entry).map fun _ verdicts =>
        gather_unmarked hvalue verdicts true
    · exact .pure (Term.unmarked_left.2 hvalue)

theorem someItem_ensures : (someItem i spec value key).Ensures I Verdict.Unmarked := by
  unfold someItem
  split
  · exact (accepts_ensures hi hvalue hkey hspec false).map fun accepted _ =>
      Verdict.unmarked_when hvalue accepted
  · exact (matchSome_ensures hi hspec fun _ => hvalue.entry).map fun accepted _ =>
      Verdict.unmarked_when hvalue accepted

end

/-! ## Dispatch -/

theorem fanOut_ensures {functions arguments : List Term} (each : ∀ f ∈ functions, f.Unmarked)
    (harguments : ∀ x ∈ arguments, x.Unmarked) :
    (fanOut i arguments functions).Ensures I fun results => ∀ x ∈ results, x.Unmarked :=
  .each (g := fanOut i arguments) rfl (fun _ _ => rfl) fun f mem => hi.call (each f mem) harguments

section

variable {value key : Term} (hvalue : value.Unmarked) (hkey : key.Unmarked)
include hvalue hkey

omit hvalue in
theorem dispatchEntries_ensures {function : Term} (hfunction : function.Unmarked)
    {entries : Entries} (each : ∀ e ∈ entries, e.1.Unmarked ∧ e.2.Unmarked) :
    (dispatchEntries i function key entries).Ensures I fun results =>
      ∀ x ∈ results, x.Unmarked := by
  refine .each (g := dispatchEntries i function key) rfl (fun _ _ => rfl) fun e mem =>
    hi.call hfunction ?_
  obtain ⟨hk, hchild⟩ := each e mem
  exact List.forall_mem_cons.2 ⟨hchild, List.forall_mem_singleton.2 (hkey.childKey hk)⟩

theorem descend_ensures {function : Term} (hfunction : function.Unmarked) :
    (descend i value key function).Ensures I Term.Unmarked := by
  unfold descend
  split
  · exact (dispatchEntries_ensures hi hkey hfunction fun _ => hvalue.entry).map
      fun _ results => hvalue.withChildren results
  · exact .throw

theorem fill_ensures {template : Term} (htemplate : template.Unmarked) :
    (fill i value key template).Ensures I Term.Unmarked := by
  induction template using Term.container_induction with
  | scalar x scalar =>
    rw [fill_scalar _ _ _ scalar]
    unfold fillLeaf
    split
    · exact .pure (htemplate.part (List.mem_singleton_self _))
    · exact .pure htemplate
    · split
      · exact hi.call htemplate
          (List.forall_mem_cons.2 ⟨hvalue, List.forall_mem_singleton.2 hkey⟩)
      · exact .pure htemplate
  | container x container ih =>
    rw [fill_container _ _ _ container]
    have children : (x.children.mapM (fill i value key)).Ensures I fun results =>
        ∀ y ∈ results, y.Unmarked := by
      refine .each List.mapM_nil (fun _ _ => List.mapM_cons) ?_
      exact List.forall_mem_map.2 fun e mem => ih e mem (htemplate.entry mem).2
    exact children.map fun _ results => htemplate.withChildren results

theorem runHandler_ensures {self handler : Term} (hself : self.Unmarked)
    (hhandler : handler.Unmarked) :
    (runHandler i self value key handler).Ensures I Term.Unmarked := by
  unfold runHandler
  split
  · exact .pure (hhandler.part (List.mem_singleton_self _))
  · split
    · refine hi.call hhandler ?_
      simp [hvalue, hkey, hself]
    · split
      · exact fill_ensures hi hvalue hkey hhandler
      · exact .pure hhandler

theorem runCases_ensures (hI : World.UnmarkedInvariant I) {self : Term} (hself : self.Unmarked)
    {cases : List (Term × Term)} (each : ∀ c ∈ cases, c.1.Unmarked ∧ c.2.Unmarked) (index : Nat) :
    (runCases i self value key index cases).Ensures I Term.Unmarked := by
  induction cases generalizing index with
  | nil => exact (hI.observing.emit _ rfl).map fun _ _ => Term.unmarked_null
  | cons c rest ih =>
    obtain ⟨⟨hspec, hhandler⟩, later⟩ := List.forall_mem_cons.1 each
    refine (accepts_ensures hi hvalue hkey hspec false).bind fun accepted _ => ?_
    cases accepted
    · exact ih later (index + 1)
    · exact (hI.observing.emit _ rfl).bind fun _ _ =>
        runHandler_ensures hi hvalue hkey hself hhandler

end

variable (hI : World.UnmarkedInvariant I)
include hI

/-! ## Variables and objects of the host -/

theorem bindCell_ensures {value key : Term} (hvalue : value.Unmarked) (hkey : key.Unmarked)
    (id : Nat) : (bindCell i id value key).Ensures I Verdict.Unmarked := by
  refine hI.read.bind fun s hs => ?_
  have settle (allowed : Bool) : (if allowed then do setCell id value key; return .right value
      else do resetCell id; return .left value : Eval Verdict).Ensures I Verdict.Unmarked := by
    cases allowed
    · exact (Eval.Ensures.of_keeps (hI.resetCell id)).map fun _ _ => Term.unmarked_left.2 hvalue
    · exact (Eval.Ensures.of_keeps (hI.setCell id value key hvalue)).map fun _ _ =>
        Term.unmarked_right.2 hvalue
  dsimp only
  split
  · exact settle true
  · exact (accepts_ensures hi hvalue hkey (hs.cells id).constraint false).bind fun allowed _ =>
      settle allowed

omit hi in
theorem readCell_ensures (id : Nat) : (readCell id).Ensures I Term.Unmarked := by
  refine hI.read.map fun s hs => ?_
  cases held : (s.cell id).value with
  | none => exact Term.unmarked_null
  | some v => exact (hs.cells id).value v held

omit hI in
theorem run_ensures {response : Response} (unmarked : response.Unmarked) :
    (response.run i).Ensures I Term.Unmarked := by
  induction unmarked with
  | answer result => exact .pure result
  | fail fault => exact .throw
  | ask hfunction harguments _ ih => exact (hi.call hfunction harguments).bind ih

variable {ctx : Context} (host : ctx.host.Unmarked)
include host

theorem request_ensures (handle : Handle) (request : Request) (unmarked : request.Unmarked) :
    (ctx.request i handle request).Ensures I Term.Unmarked := by
  refine hI.read.bind fun s hs => ?_
  have note := hI.note (.object handle) request (Term.unmarked_object handle) unmarked
  exact (Eval.Ensures.of_keeps note).bind fun _ _ =>
    run_ensures hi (host handle request s.calls unmarked hs.calls)

/-! ## Matching and calling -/

theorem applyTo_ensures {f : Term} {arguments : List Term} (hf : f.Unmarked)
    (harguments : ∀ x ∈ arguments, x.Unmarked) :
    (applyTo ctx i f arguments).Ensures I Term.Unmarked := by
  have argument (n : Nat) : (arguments[n]?.getD .null).Unmarked := by
    cases found : arguments[n]? with
    | none => exact Term.unmarked_null
    | some x => exact harguments x (List.mem_of_getElem? found)
  have hvalue := argument 0
  have hkey := argument 1
  have truth {answer : Eval Bool} (ensures : answer.Ensures I fun _ => True) :
      (do return .bool (← answer) : Eval Term).Ensures I Term.Unmarked :=
    ensures.map fun b _ => Term.unmarked_bool b
  have verdict {answer : Eval Verdict} (ensures : answer.Ensures I Verdict.Unmarked) :
      (do return (← answer).toTerm : Eval Term).Ensures I Term.Unmarked :=
    ensures.map fun _ payload => payload
  have reads := hI.observing
  unfold applyTo
  dsimp only
  split
  · exact .pure hvalue
  · exact descend_ensures hi hvalue hkey (argument 2)
  · exact .pure (Term.unmarked_bool _)
  · exact truth (comparisonHolds_related reads.toCompositional reads.store (reads.asked _))
  · exact truth (isOneOf_related reads.toCompositional reads.store _ (fun _ _ => reads.asked _) _)
  · exact verdict (allOf_ensures hi hvalue hkey fun _ => hf.part)
  · exact verdict (anyOf_ensures hi hvalue hkey fun _ => hf.part)
  · have spec := accepts_ensures hi hvalue hkey (hf.part (List.mem_singleton_self _)) false
    exact truth (spec.map fun _ _ => trivial)
  · exact verdict (maybe_ensures hi hvalue hkey (hf.part (List.mem_singleton_self _)))
  · exact verdict (hi.create true (hf.part (List.mem_singleton_self _)) hvalue hkey)
  · exact verdict (everyItem_ensures hi (hf.part (List.mem_singleton_self _)) hvalue hkey)
  · exact verdict (someItem_ensures hi (hf.part (List.mem_singleton_self _)) hvalue hkey)
  · exact truth (keyed_ensures hi (hf.part (List.mem_singleton_self _)) hkey _ _)
  · exact (fanOut_ensures hi (fun _ => hf.part) harguments).map fun _ results =>
      Term.unmarked_list.2 results
  · exact runCases_ensures hi hvalue hkey hI hf (Term.unmarked_dispatcher.1 hf) 0
  · exact readCell_ensures hI _
  · have note := hI.note _ (.call arguments) hf harguments
    exact (Eval.Ensures.of_keeps note).map fun _ _ => hf.part (List.mem_singleton_self _)
  · exact request_ensures hi hI host _ (.call arguments) harguments
  · exact .throw

theorem callAt_ensures {f : Term} {arguments : List Term} (hf : f.Unmarked)
    (harguments : ∀ x ∈ arguments, x.Unmarked) :
    (callAt ctx i f arguments).Ensures I Term.Unmarked := by
  unfold callAt
  split
  · exact .throw
  · split
    · exact applyTo_ensures hi hI host hf harguments
    · exact .throw

omit hi host in
theorem matchLiteral_ensures {value : Term} (hvalue : value.Unmarked) (spec : Term) :
    (matchLiteral spec value).Ensures I Verdict.Unmarked := by
  refine hI.read.bind fun s _ => ?_
  exact (ask_related hI.observing.toCompositional (hI.observing.asked _) _).map fun _ _ =>
    Verdict.unmarked_when hvalue _

omit hi host in
theorem isInstance_ensures {value : Term} (hvalue : value.Unmarked) (c : Class) :
    (do return .when (← isInstance c value) value : Eval Verdict).Ensures I Verdict.Unmarked :=
  (isInstance_related hI.observing.toCompositional (hI.observing.asked _)).map fun _ _ =>
    Verdict.unmarked_when hvalue _

theorem createAt_ensures {spec value key : Term} (hspec : spec.Unmarked) (hvalue : value.Unmarked)
    (hkey : key.Unmarked) (closed : Bool) :
    (createAt ctx i spec value key closed).Ensures I Verdict.Unmarked := by
  have outcome {answer : Eval Term} (ensures : answer.Ensures I Term.Unmarked) :
      (do return .ofOutcome (← answer) value : Eval Verdict).Ensures I Verdict.Unmarked :=
    ensures.map fun _ result => Verdict.unmarked_ofOutcome result hvalue
  have truth {answer : Eval Term} (ensures : answer.Ensures I Term.Unmarked) :
      (do return .when (← answer).truthy value : Eval Verdict).Ensures I Verdict.Unmarked :=
    ensures.map fun _ _ => Verdict.unmarked_when hvalue _
  have pair : ∀ x ∈ [value, key], x.Unmarked :=
    List.forall_mem_cons.2 ⟨hvalue, List.forall_mem_singleton.2 hkey⟩
  unfold createAt
  split
  · exact isInstance_ensures hI hvalue _
  · exact bindCell_ensures hi hI hvalue hkey _
  · exact outcome (request_ensures hi hI host _ (.bind value key) ⟨hvalue, hkey⟩)
  · next read => exact outcome (callAt_ensures hi hI host (hspec.attribute (.inl read)) pair)
  · exact matchEntries_ensures hi hvalue hspec closed
  · exact truth (request_ensures hi hI host _ (.accept value) hvalue)
  · next read =>
      exact truth (callAt_ensures hi hI host (hspec.attribute (.inr read))
        (List.forall_mem_singleton.2 hvalue))
  · exact outcome (callAt_ensures hi hI host hspec pair)
  · split
    · exact (resolve_related hI.observing _ _ _).bind fun _ _ => isInstance_ensures hI hvalue _
    · exact matchLiteral_ensures hI hvalue spec
  · exact matchLiteral_ensures hI hvalue spec

end

/-- Matching and calling make unmarked terms of unmarked terms, with any budget. -/
theorem interp_unmarked {I : World → Prop} (hI : World.UnmarkedInvariant I) {ctx : Context}
    (host : ctx.host.Unmarked) (budget : Nat) : (interp ctx budget).Unmarked I := by
  induction budget with
  | zero => exact ⟨fun _ _ _ _ => .throw, fun _ _ => .throw⟩
  | succ budget ih =>
    exact ⟨fun closed hspec hvalue hkey => createAt_ensures ih hI host hspec hvalue hkey closed,
      callAt_ensures ih hI host⟩

end SpecMatch
