import SpecMatch.Proofs.Evaluation.Invariant

/-!
# Evaluations among objections

An evaluation among objections is the evaluation without them, or what it does up to the first entry
of its log that there is an objection to (`Eval.heeding_cases`). Looking at the log afterwards comes
to the same as stopping on the way: an evaluation that only adds to the log (`Eval.Tells`) heeds
objections if each of its parts does (`Eval.heeding_bind`).
-/

namespace SpecMatch

variable {α β : Type}

/-! ## What is told -/

/-- An evaluation only adds to the log, and only entries with a property. -/
def Eval.Tells (P : LogEntry → Prop) (m : Eval α) : Prop :=
  ∀ w, ∃ entries : List LogEntry, (m.after w).log.toList = w.log.toList ++ entries ∧
    ∀ e ∈ entries, P e

section

variable {P : LogEntry → Prop} {m : Eval α} {w : World}

theorem Eval.told_of_append {entries : List LogEntry}
    (added : (m.after w).log.toList = w.log.toList ++ entries) : m.told w = entries := by
  rw [told, added, ← Array.length_toList, List.drop_left]

theorem Eval.Tells.log_after (tells : m.Tells P) (w : World) :
    (m.after w).log.toList = w.log.toList ++ m.told w := by
  obtain ⟨entries, added, -⟩ := tells w
  rw [told_of_append added, added]

theorem Eval.Tells.told (tells : m.Tells P) (w : World) : ∀ e ∈ m.told w, P e := by
  obtain ⟨entries, added, each⟩ := tells w
  rw [told_of_append added]
  exact each

theorem Eval.Tells.imp {Q : LogEntry → Prop} (tells : m.Tells P) (h : ∀ e, P e → Q e) :
    m.Tells Q := fun w =>
  have ⟨entries, added, each⟩ := tells w
  ⟨entries, added, fun e mem => h e (each e mem)⟩

/-- An evaluation that leaves the log as it is tells nothing. -/
theorem Eval.Tells.of_log_eq (same : ∀ w, (m.after w).log = w.log) : m.Tells P := fun w =>
  ⟨[], by rw [same, List.append_nil], List.forall_mem_nil _⟩

theorem Eval.Tells.emit {event : Event} (h : ∀ s, P ⟨event, s⟩) : (Eval.emit event).Tells P :=
  fun w => ⟨[⟨event, w.store⟩], Array.toList_push, List.forall_mem_singleton.2 (h w.store)⟩

theorem Eval.Tells.setCell {id : Nat} {value key : Term} (h : ∀ s, P ⟨.bound id key, s⟩) :
    (SpecMatch.setCell id value key).Tells P := fun w =>
  ⟨[⟨.bound id key, ((SpecMatch.setCell id value key).after w).store⟩], Array.toList_push,
    List.forall_mem_singleton.2 (h _)⟩

theorem Eval.Tells.resetCell {id : Nat} (h : ∀ s, P ⟨.reset id, s⟩) :
    (SpecMatch.resetCell id).Tells P := by
  intro w
  rw [after, resetCell_apply]
  dsimp only
  split
  · exact ⟨[⟨.reset id, w.store⟩], Array.toList_push, List.forall_mem_singleton.2 (h w.store)⟩
  · exact ⟨[], (List.append_nil _).symm, List.forall_mem_nil _⟩

/-- What comes after an answer may depend on the answer. -/
theorem Eval.Tells.bind {f : α → Eval β} (hm : m.Tells P)
    (hf : ∀ w a w', m w = .ok a w' → (f a).Tells P) : (m >>= f).Tells P := by
  intro w
  obtain ⟨entries, added, each⟩ := hm w
  rw [after] at added
  rw [after, bind_apply]
  cases run : m w with
  | ok a w' =>
    rw [run] at added
    obtain ⟨later, more, each'⟩ := hf w a w' run w'
    exact ⟨entries ++ later, by rw [← List.append_assoc, ← added]; exact more,
      List.forall_mem_append.2 ⟨each, each'⟩⟩
  | error fault w' =>
    rw [run] at added
    exact ⟨entries, added, each⟩

theorem Eval.tells_compositional (P : LogEntry → Prop) :
    Eval.Compositional fun _ m _ => m.Tells P where
  answer _ := .of_log_eq fun _ => rfl
  fail _ := .of_log_eq fun _ => rfl
  seq hm hf := hm.bind fun _ a _ _ => hf a

/-- Whatever is evaluated only adds to the log. -/
theorem Eval.tells_congruence (all : ∀ e, P e) : Eval.Congruence fun _ m _ => m.Tells P where
  toCompositional := tells_compositional P
  store := .of_log_eq fun _ => rfl
  note _ _ := .of_log_eq fun _ => rfl
  emit _ _ := .emit fun _ => all _
  setCell _ _ _ := .setCell fun _ => all _
  resetCell _ := .resetCell fun _ => all _

/-- A sequence tells what its parts tell. -/
theorem Eval.told_bind {f : α → Eval β} {a : α} {w' : World} (hm : m.Tells P)
    (hf : (f a).Tells P) (run : m w = .ok a w') : (m >>= f).told w = m.told w ++ (f a).told w' := by
  refine told_of_append ?_
  have first := hm.log_after w
  have later := hf.log_after w'
  rw [after, run] at first
  rw [after, bind_apply, run, ← List.append_assoc, ← first]
  exact later

theorem Eval.told_bind_error {f : α → Eval β} {fault : Fault} {w' : World}
    (run : m w = .error fault w') : (m >>= f).told w = m.told w := by
  rw [told, told, after, after, bind_apply, run]

end

/-! ## Objections -/

section

variable {objection : Objection}

/-- The first entry that there is an objection to is found, unless there is none. -/
theorem Objection.first?_cases (objection : Objection) (told : Array LogEntry)
    (entries : List LogEntry) :
    ((∀ e ∈ entries, objection e = none) ∧ objection.first? told entries = none) ∨
      ∃ before e after fault, entries = before ++ e :: after ∧
        (∀ d ∈ before, objection d = none) ∧ objection e = some fault ∧
        objection.first? told entries = some (fault, ⟨e.store, told ++ before.toArray⟩) := by
  induction entries generalizing told with
  | nil => exact .inl ⟨List.forall_mem_nil _, rfl⟩
  | cons e rest ih =>
    rw [first?]
    cases objects : objection e with
    | some fault =>
      exact .inr ⟨[], e, rest, fault, rfl, List.forall_mem_nil _, objects, by simp⟩
    | none =>
      obtain ⟨free, none⟩ | ⟨before, d, after, fault, rfl, free, found, first⟩ := ih (told.push e)
      · exact .inl ⟨List.forall_mem_cons.2 ⟨objects, free⟩, none⟩
      · exact .inr ⟨e :: before, d, after, fault, rfl, List.forall_mem_cons.2 ⟨objects, free⟩,
          found, by simpa using first⟩

variable {m : Eval α} {w : World}

/-- Among objections an evaluation is itself, or it ends where it tells the first thing that there
is one to, in the world as it was then. -/
theorem Eval.heeding_cases (objection : Objection) (m : Eval α) (w : World) :
    ((∀ e ∈ m.told w, objection e = none) ∧ m.heeding objection w = m w) ∨
      ∃ before e after fault, m.told w = before ++ e :: after ∧
        (∀ d ∈ before, objection d = none) ∧ objection e = some fault ∧
        m.heeding objection w = .error fault ⟨e.store, w.log ++ before.toArray⟩ := by
  unfold heeding
  refine (objection.first?_cases w.log (m.told w)).imp ?_ ?_
  · rintro ⟨free, none⟩
    exact ⟨free, by rw [none]⟩
  · rintro ⟨before, e, after, fault, split, free, objects, first⟩
    exact ⟨before, e, after, fault, split, free, objects, by rw [first]⟩

theorem Eval.heeding_of_free (free : ∀ e ∈ m.told w, objection e = none) :
    m.heeding objection w = m w := by
  obtain ⟨-, same⟩ | ⟨before, e, after, fault, split, -, objects, -⟩ := heeding_cases objection m w
  · exact same
  · rw [free e (split ▸ List.mem_append_cons_self)] at objects
    cases objects

/-- Evaluations that are the same from a world heed objections alike from there. -/
theorem Eval.heeding_congr {m' : Eval α} (same : m w = m' w) :
    m.heeding objection w = m'.heeding objection w := by
  rw [heeding, heeding, told, told, after, after, same]

/-- There is an answer among objections if and only if it is the answer without them and there is
no objection to anything that is told on the way. -/
theorem Eval.heeding_eq_ok_iff {a : α} {w' : World} :
    m.heeding objection w = .ok a w' ↔
      m w = .ok a w' ∧ ∀ e ∈ m.told w, objection e = none := by
  refine ⟨fun run => ?_, fun ⟨run, free⟩ => (heeding_of_free free).trans run⟩
  obtain ⟨free, same⟩ | ⟨_, _, _, _, -, -, -, cut⟩ := heeding_cases objection m w
  · exact ⟨same.symm.trans run, free⟩
  · rw [cut] at run
    cases run

/-- Nothing that is told is heeded twice. -/
theorem Objection.first?_append (objection : Objection) (told : Array LogEntry)
    (entries later : List LogEntry) :
    objection.first? told (entries ++ later) =
      (objection.first? told entries).or (objection.first? (told ++ entries.toArray) later) := by
  induction entries generalizing told with
  | nil => simp [first?]
  | cons e rest ih =>
    rw [List.cons_append, first?, first?]
    cases objection e with
    | some fault => rfl
    | none => simpa using ih (told.push e)

/-- A sequence heeds objections part by part. -/
theorem Eval.heeding_bind {f : α → Eval β} {P : LogEntry → Prop} (hm : m.Tells P)
    (hf : ∀ a, (f a).Tells P) :
    (m >>= f).heeding objection = m.heeding objection >>= fun a => (f a).heeding objection := by
  funext w
  rw [bind_apply]
  cases run : m w with
  | ok a w' =>
    have log : w.log ++ (m.told w).toArray = w'.log := by
      have first := hm.log_after w
      rw [after, run] at first
      exact Array.toList_inj.1 (by simpa using first.symm)
    have goes : (m >>= f) w = f a w' := by rw [bind_apply, run]
    rw [heeding, told_bind hm (hf a) run, objection.first?_append, log, goes, heeding]
    cases objection.first? w.log (m.told w) with
    | some stop => rfl
    | none =>
      rw [run]
      rfl
  | error fault w' =>
    have goes : (m >>= f) w = .error fault w' := by rw [bind_apply, run]
    rw [heeding, told_bind_error run, goes, heeding]
    cases objection.first? w.log (m.told w) with
    | some stop => rfl
    | none =>
      rw [run]

/-- An evaluation that tells nothing that there is an objection to is itself. -/
theorem Eval.Tells.heeding (tells : m.Tells fun e => objection e = none) :
    m.heeding objection = m := funext fun w => heeding_of_free (tells.told w)

theorem Eval.heeding_pure (a : α) : (pure a : Eval α).heeding objection = pure a :=
  Eval.Tells.heeding (.of_log_eq fun _ => rfl)

end

/-! ## What holds all along -/

/-- A property holds of a world, and it held at each entry that has been told since the log was
`log`, but for some entries. -/
structure World.AllAlong (I : World → Prop) (except : LogEntry → Prop) (log : List LogEntry)
    (w : World) : Prop where
  now : I w
  grown : log <+: w.log.toList
  earlier : ∀ before e after, w.log.toList = log ++ before ++ e :: after → ¬ except e →
    I ⟨e.store, (log ++ before).toArray⟩

section

variable {I : World → Prop} {except : LogEntry → Prop} {log : List LogEntry} {w w' : World}

theorem World.AllAlong.start (hw : I w) : w.AllAlong I except w.log.toList where
  now := hw
  grown := List.prefix_rfl
  earlier before e after split := by
    have length := congrArg List.length split
    simp only [List.length_append, List.length_cons] at length
    omega

theorem World.AllAlong.same (hw : w.AllAlong I except log) (now : I w') (told : w'.log = w.log) :
    w'.AllAlong I except log where
  now := now
  grown := told ▸ hw.grown
  earlier := told ▸ hw.earlier

/-- In a list with an element more at the end, an element is the last one or stands before it. -/
theorem snoc_eq_split {xs before after : List α} {x y : α}
    (split : xs ++ [x] = before ++ y :: after) :
    (before = xs ∧ y = x) ∨ ∃ rest, xs = before ++ y :: rest := by
  rcases List.eq_nil_or_concat after with rfl | ⟨rest, z, rfl⟩
  · obtain ⟨rfl, last⟩ := List.append_inj' split rfl
    cases last
    exact .inl ⟨rfl, rfl⟩
  · rw [List.concat_eq_append, ← List.cons_append, ← List.append_assoc] at split
    exact .inr ⟨rest, (List.append_inj' split rfl).1⟩

theorem World.AllAlong.push (hw : w.AllAlong I except log) (now : I w') {e : LogEntry}
    (told : w'.log = w.log.push e) (held : ¬ except e → I ⟨e.store, w.log⟩) :
    w'.AllAlong I except log where
  now := now
  grown := by
    rw [told, Array.toList_push]
    exact hw.grown.trans (List.prefix_append _ _)
  earlier before d after split := by
    rw [told, Array.toList_push] at split
    obtain ⟨all, rfl⟩ | ⟨rest, split⟩ := snoc_eq_split split
    · rw [all]
      exact held
    · exact hw.earlier before d rest split

/-- What holds all along holds where an evaluation ends among objections, unless that is an entry
that is left out. -/
theorem World.AllAlong.heeding {m : Eval α} {objection : Objection}
    (keeps : m.Keeps (World.AllAlong I except w.log.toList)) (hw : I w)
    (unstopped : ∀ e ∈ (m.told w).find? fun e => (objection e).isSome, ¬ except e) :
    I ((m.heeding objection).after w) := by
  have ends := keeps w (.start hw)
  unfold Eval.after
  obtain ⟨-, same⟩ | ⟨before, e, after, fault, split, free, objects, cut⟩ :=
    Eval.heeding_cases objection m w
  · rw [same]
    exact ends.now
  · obtain ⟨added, grown⟩ := ends.grown
    have told : m.told w = added := Eval.told_of_append grown.symm
    have whole : (m.after w).log.toList = w.log.toList ++ before ++ e :: after := by
      rw [← grown, ← told, split, List.append_assoc]
    have regular : ¬ except e :=
      unstopped e (List.find?_eq_some_iff_append.2
        ⟨by simp [objects], before, after, split, fun d mem => by simp [free d mem]⟩)
    have log : (w.log.toList ++ before).toArray = w.log ++ before.toArray := by simp
    rw [cut]
    exact log ▸ ends.earlier before e after whole regular

theorem World.AllAlong.note {receiver : Term} {request : Request}
    (keeps : (Eval.note receiver request).Keeps I) :
    (Eval.note receiver request).Keeps (World.AllAlong I except log) :=
  fun w hw => hw.same (keeps w hw.now) rfl

theorem World.AllAlong.emit {event : Event} (keeps : (Eval.emit event).Keeps I) :
    (Eval.emit event).Keeps (World.AllAlong I except log) :=
  fun w hw => hw.push (keeps w hw.now) rfl fun _ => hw.now

/-- A reset is told before anything is changed. -/
theorem World.AllAlong.resetCell {id : Nat} (keeps : (SpecMatch.resetCell id).Keeps I) :
    (SpecMatch.resetCell id).Keeps (World.AllAlong I except log) := by
  intro w hw
  have now := keeps w hw.now
  rw [Eval.after, resetCell_apply] at now ⊢
  by_cases held : (w.store.cell id).value.isSome
  · rw [if_pos held] at now ⊢
    exact hw.push now rfl fun _ => hw.now
  · rw [if_neg held] at now ⊢
    exact hw.same now rfl

/-- A binding is told after it was done. -/
theorem World.AllAlong.setCell {id : Nat} {value key : Term}
    (keeps : (SpecMatch.setCell id value key).Keeps I)
    (untold : ∀ w, I w →
      ¬ except ⟨.bound id key, ((SpecMatch.setCell id value key).after w).store⟩ →
      I ⟨((SpecMatch.setCell id value key).after w).store, w.log⟩) :
    (SpecMatch.setCell id value key).Keeps (World.AllAlong I except log) :=
  fun w hw => hw.push (keeps w hw.now) rfl (untold w hw.now)

end

end SpecMatch
