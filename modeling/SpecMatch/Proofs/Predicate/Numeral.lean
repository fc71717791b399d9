import Mathlib.Data.List.TakeWhile
import SpecMatch.Proofs.Evaluation.Budget

/-!
# The grammar of numerals

A numeral is made of blanks, a sign, a mantissa, an exponent and blanks, in this order; all but the
mantissa may be empty (`Numeral.Spells`). `isNumeral` reads the parts from the left and takes as
much as it can for each of them.

Taking as much as possible never misses a way to read the text, because nothing that may follow a
part in a numeral could prolong it: a mantissa is followed by neither a digit nor a point
(`afterMantissa?_append`), and an exponent by a blank (`afterExponent_append`). So the test accepts
exactly the numerals (`call_isNumeric_iff`).
-/

namespace SpecMatch

namespace Numeral

/-! ## The grammar -/

/-- A run of blanks. -/
def Blanks (cs : List Char) : Prop := ∀ c ∈ cs, c ∈ ['\t', '\n', '\x0c', '\r', ' ']

/-- A run of decimal digits. -/
def Digits (cs : List Char) : Prop := ∀ c ∈ cs, '0' ≤ c ∧ c ≤ '9'

/-- An optional sign. -/
def Sign (cs : List Char) : Prop := cs = [] ∨ cs = ['+'] ∨ cs = ['-']

/-- Digits with an optional point, of which at least one digit stands on one side. -/
inductive Mantissa : List Char → Prop
  | whole {digits : List Char} : digits ≠ [] → Digits digits → Mantissa digits
  | point {digits fraction : List Char} : digits ≠ [] → Digits digits → Digits fraction →
      Mantissa (digits ++ '.' :: fraction)
  | fraction {digits : List Char} : digits ≠ [] → Digits digits → Mantissa ('.' :: digits)

/-- An optional exponent. -/
inductive Exponent : List Char → Prop
  | absent : Exponent []
  | marked {mark : Char} {sign digits : List Char} : mark = 'e' ∨ mark = 'E' → Sign sign →
      digits ≠ [] → Digits digits → Exponent (mark :: (sign ++ digits))

/-- The text of a decimal number. -/
def Spells (cs : List Char) : Prop :=
  ∃ before sign mantissa exponent after : List Char,
    cs = before ++ sign ++ mantissa ++ exponent ++ after ∧ Blanks before ∧ Sign sign ∧
      Mantissa mantissa ∧ Exponent exponent ∧ Blanks after

/-! ## Characters -/

theorem isDigit_iff {c : Char} : c.isDigit = true ↔ '0' ≤ c ∧ c ≤ '9' := by
  rw [Char.isDigit, Bool.and_eq_true, decide_eq_true_eq, decide_eq_true_eq]
  exact Iff.rfl

theorem isBlank_iff {c : Char} : isBlank c = true ↔ c ∈ ['\t', '\n', '\x0c', '\r', ' '] := by
  simp [isBlank, or_assoc]

theorem digits_iff {cs : List Char} : Digits cs ↔ ∀ c ∈ cs, c.isDigit = true :=
  forall₂_congr fun _ _ => isDigit_iff.symm

theorem blanks_iff {cs : List Char} : Blanks cs ↔ ∀ c ∈ cs, isBlank c = true :=
  forall₂_congr fun _ _ => isBlank_iff.symm

/-- A digit is no character of another kind. -/
theorem beq_of_isDigit {c d : Char} (digit : c.isDigit = true) (other : d.isDigit = false) :
    (c == d) = false := by
  rw [beq_eq_false_iff_ne]
  rintro rfl
  rw [digit] at other
  cases other

theorem noSign_of_isDigit {c : Char} (digit : c.isDigit = true) :
    (c == '+' || c == '-') = false := by
  rw [beq_of_isDigit digit rfl, beq_of_isDigit digit rfl]
  rfl

theorem isBlank_of_isDigit {c : Char} (digit : c.isDigit = true) : isBlank c = false := by
  simp [isBlank, beq_of_isDigit digit]

/-- The first character of the text, if there is one, is not of the given kind. -/
def Stops (p : Char → Bool) (cs : List Char) : Prop := ∀ c ∈ cs.head?, p c = false

theorem stops_dropWhile (p : Char → Bool) (cs : List Char) : Stops p (cs.dropWhile p) := by
  intro c first
  have stop := List.head?_dropWhile_not p cs
  rw [Option.mem_def.1 first] at stop
  exact stop

/-- A run is taken as a whole, and nothing behind it. -/
theorem dropWhile_run {p : Char → Bool} {run rest : List Char} (all : ∀ c ∈ run, p c = true)
    (stops : Stops p rest) : (run ++ rest).dropWhile p = rest := by
  rw [List.dropWhile_append_of_pos all]
  cases rest with
  | nil => rfl
  | cons c rest => exact List.dropWhile_cons_of_neg (by simp [stops c rfl])

/-- Blanks start with none of the characters of a number. -/
theorem Blanks.stops {cs : List Char} (blanks : Blanks cs) {p : Char → Bool}
    (none : ∀ c ∈ ['\t', '\n', '\x0c', '\r', ' '], p c = false) : Stops p cs :=
  fun c first => none c (blanks c (List.mem_of_mem_head? first))

theorem Digits.stops {cs rest : List Char} (filled : cs ≠ []) (digits : Digits cs)
    {p : Char → Bool} (none : ∀ c : Char, c.isDigit = true → p c = false) :
    Stops p (cs ++ rest) := by
  cases cs with
  | nil => exact absurd rfl filled
  | cons d ds =>
    rintro c ⟨⟩
    exact none d (digits_iff.1 digits d List.mem_cons_self)

/-! ## The parts -/

/-- A sign is taken off where there is one. -/
theorem exists_sign (cs : List Char) : ∃ sign, Sign sign ∧ cs = sign ++ afterSign cs := by
  unfold afterSign
  split
  · exact ⟨['+'], .inr (.inl rfl), rfl⟩
  · exact ⟨['-'], .inr (.inr rfl), rfl⟩
  · exact ⟨[], .inl rfl, rfl⟩

theorem afterSign_append {sign rest : List Char} (isSign : Sign sign)
    (stops : Stops (fun c => c == '+' || c == '-') rest) : afterSign (sign ++ rest) = rest := by
  rcases isSign with rfl | rfl | rfl
  · cases rest with
    | nil => rfl
    | cons c rest =>
      have other := stops c rfl
      rw [Bool.or_eq_false_iff, beq_eq_false_iff_ne, beq_eq_false_iff_ne] at other
      rw [List.nil_append, afterSign]
      · exact fun _ eq => other.1 (List.cons.inj eq).1
      · exact fun _ eq => other.2 (List.cons.inj eq).1
  · rfl
  · rfl

/-- Digits are taken off up to the first other character. -/
theorem afterDigits?_eq_some_iff {cs rest : List Char} :
    afterDigits? cs = some rest ↔
      ∃ digits, digits ≠ [] ∧ Digits digits ∧ Stops Char.isDigit rest ∧ cs = digits ++ rest := by
  constructor
  · intro read
    cases cs with
    | nil => cases read
    | cons c cs =>
      rw [afterDigits?] at read
      split at read
      next digit =>
        cases read
        refine ⟨(c :: cs).takeWhile Char.isDigit, ?_, ?_, stops_dropWhile _ _, ?_⟩
        · rw [List.takeWhile_cons_of_pos digit]
          exact List.cons_ne_nil _ _
        · exact digits_iff.2 fun _ mem => List.mem_takeWhile_imp mem
        · exact List.takeWhile_append_dropWhile.symm
      next => cases read
  · rintro ⟨digits, filled, areDigits, stops, rfl⟩
    have all := digits_iff.1 areDigits
    have dropped := dropWhile_run all stops
    cases digits with
    | nil => exact absurd rfl filled
    | cons d ds =>
      rw [List.cons_append] at dropped ⊢
      rw [afterDigits?, if_pos (all d List.mem_cons_self), dropped]

/-- What is taken off as a mantissa is one. -/
theorem exists_mantissa {cs rest : List Char} (read : afterMantissa? cs = some rest) :
    ∃ mantissa, Mantissa mantissa ∧ cs = mantissa ++ rest := by
  unfold afterMantissa? at read
  split at read
  next behind =>
    obtain ⟨digits, filled, areDigits, -, rfl⟩ := afterDigits?_eq_some_iff.1 read
    exact ⟨'.' :: digits, .fraction filled areDigits, rfl⟩
  next =>
    obtain ⟨_, taken, goesOn⟩ := Option.map_eq_some_iff.1 read
    obtain ⟨digits, filled, areDigits, -, rfl⟩ := afterDigits?_eq_some_iff.1 taken
    split at goesOn
    next behind _ =>
      refine ⟨digits ++ '.' :: behind.takeWhile Char.isDigit, .point filled areDigits ?_, ?_⟩
      · exact digits_iff.2 fun _ mem => List.mem_takeWhile_imp mem
      · rw [← goesOn, List.append_assoc, List.cons_append, List.takeWhile_append_dropWhile]
    next =>
      subst goesOn
      exact ⟨digits, .whole filled areDigits, rfl⟩

/-- A mantissa is taken off as a whole if neither a digit nor a point is behind it. -/
theorem afterMantissa?_append {mantissa rest : List Char} (isMantissa : Mantissa mantissa)
    (digit : Stops Char.isDigit rest) (point : Stops (· == '.') rest) :
    afterMantissa? (mantissa ++ rest) = some rest := by
  have noPoint {cs : List Char} (stops : Stops (· == '.') cs) (behind : List Char) :
      cs ≠ '.' :: behind := by
    rintro rfl
    cases stops '.' rfl
  have wholeFirst {digits behind : List Char} (filled : digits ≠ []) (areDigits : Digits digits) :
      Stops (· == '.') (digits ++ behind) :=
    areDigits.stops filled fun _ digit => beq_of_isDigit digit rfl
  cases isMantissa with
  | whole filled areDigits =>
    have taken := afterDigits?_eq_some_iff.2 ⟨mantissa, filled, areDigits, digit, rfl⟩
    rw [afterMantissa?, taken, Option.map_some]
    · split
      next behind => exact absurd rfl (noPoint point behind)
      next => rfl
    · exact noPoint (wholeFirst filled areDigits)
  | @point digits fraction filled areDigits areFraction =>
    have stops : Stops Char.isDigit ('.' :: (fraction ++ rest)) := by
      rintro c ⟨⟩
      rfl
    have taken := afterDigits?_eq_some_iff.2 ⟨digits, filled, areDigits, stops, rfl⟩
    rw [List.append_assoc, List.cons_append, afterMantissa?, taken, Option.map_some]
    · exact congrArg some (dropWhile_run (digits_iff.1 areFraction) digit)
    · exact noPoint (wholeFirst filled areDigits)
  | fraction filled areDigits =>
    exact afterDigits?_eq_some_iff.2 ⟨_, filled, areDigits, digit, rfl⟩

/-- What is taken off as an exponent is one. -/
theorem exists_exponent (cs : List Char) :
    ∃ exponent, Exponent exponent ∧ cs = exponent ++ afterExponent cs := by
  cases cs with
  | nil => exact ⟨[], .absent, rfl⟩
  | cons c rest =>
    rw [afterExponent]
    split
    next mark =>
      rw [Bool.or_eq_true, beq_iff_eq, beq_iff_eq] at mark
      obtain ⟨sign, isSign, split⟩ := exists_sign rest
      cases taken : afterDigits? (afterSign rest) with
      | none => exact ⟨[], .absent, rfl⟩
      | some behind =>
        obtain ⟨digits, filled, areDigits, -, eq⟩ := afterDigits?_eq_some_iff.1 taken
        refine ⟨c :: (sign ++ digits), .marked mark isSign filled areDigits, ?_⟩
        rw [Option.getD_some, List.cons_append, List.append_assoc, ← eq, ← split]
    next => exact ⟨[], .absent, rfl⟩

/-- An exponent is taken off as a whole if blanks are behind it. -/
theorem afterExponent_append {exponent after : List Char} (isExponent : Exponent exponent)
    (blanks : Blanks after) : afterExponent (exponent ++ after) = after := by
  cases isExponent with
  | absent =>
    cases after with
    | nil => rfl
    | cons c after =>
      have noMark : Stops (fun c => c == 'e' || c == 'E') (c :: after) := blanks.stops (by simp)
      exact if_neg (Bool.eq_false_iff.1 (noMark c rfl))
  | @marked mark sign digits isMark isSign filled areDigits =>
    have unsigned : afterSign (sign ++ (digits ++ after)) = digits ++ after :=
      afterSign_append isSign (areDigits.stops filled fun _ => noSign_of_isDigit)
    have taken : afterDigits? (digits ++ after) = some after :=
      afterDigits?_eq_some_iff.2 ⟨digits, filled, areDigits, blanks.stops (by simp), rfl⟩
    rw [List.cons_append, List.append_assoc, afterExponent, unsigned, taken, Option.getD_some]
    exact if_pos (by rwa [Bool.or_eq_true, beq_iff_eq, beq_iff_eq])

/-- The first character of a mantissa is a digit or a point. -/
theorem Mantissa.stops {mantissa rest : List Char} (isMantissa : Mantissa mantissa)
    {p : Char → Bool} (digit : ∀ c : Char, c.isDigit = true → p c = false)
    (point : p '.' = false) : Stops p (mantissa ++ rest) := by
  cases isMantissa with
  | whole filled areDigits => exact areDigits.stops filled digit
  | point filled areDigits _ =>
    rw [List.append_assoc]
    exact areDigits.stops filled digit
  | fraction _ _ =>
    rintro c ⟨⟩
    exact point

/-- Neither an exponent nor blanks start with a character that could belong to the mantissa. -/
theorem Exponent.stops {exponent after : List Char} (isExponent : Exponent exponent)
    (blanks : Blanks after) {p : Char → Bool}
    (none : ∀ c ∈ ['\t', '\n', '\x0c', '\r', ' ', 'e', 'E'], p c = false) :
    Stops p (exponent ++ after) := by
  cases isExponent with
  | absent => exact blanks.stops fun c blank => none c (List.mem_append_left ['e', 'E'] blank)
  | marked isMark _ _ _ =>
    rintro c ⟨⟩
    rcases isMark with rfl | rfl <;> exact none _ (by decide)

end Numeral

open Numeral

/-- The test reads a text if and only if it spells a number. -/
theorem isNumeral_iff {s : String} : isNumeral s = true ↔ Spells s.toList := by
  unfold isNumeral
  generalize s.toList = cs
  constructor
  · intro accepted
    split at accepted
    next rest read =>
      obtain ⟨sign, isSign, unsigned⟩ := exists_sign (cs.dropWhile isBlank)
      obtain ⟨mantissa, isMantissa, behindSign⟩ := exists_mantissa read
      obtain ⟨exponent, isExponent, behindMantissa⟩ := exists_exponent rest
      refine ⟨cs.takeWhile isBlank, sign, mantissa, exponent, afterExponent rest, ?_,
        blanks_iff.2 fun _ mem => List.mem_takeWhile_imp mem, isSign, isMantissa, isExponent,
        blanks_iff.2 (List.all_eq_true.1 accepted)⟩
      calc cs = cs.takeWhile isBlank ++ cs.dropWhile isBlank :=
            List.takeWhile_append_dropWhile.symm
        _ = cs.takeWhile isBlank ++ (sign ++ (mantissa ++ (exponent ++ afterExponent rest))) := by
            rw [← behindMantissa, ← behindSign, ← unsigned]
        _ = _ := by simp only [List.append_assoc]
    next => cases accepted
  · rintro ⟨before, sign, mantissa, exponent, after, rfl, blanks, isSign, isMantissa, isExponent,
      blanks'⟩
    have number : Stops isBlank (mantissa ++ (exponent ++ after)) :=
      isMantissa.stops (fun _ => isBlank_of_isDigit) rfl
    have start : Stops isBlank (sign ++ (mantissa ++ (exponent ++ after))) := by
      rcases isSign with rfl | rfl | rfl
      · exact number
      all_goals
        rintro c ⟨⟩
        rfl
    have unsigned : Stops (fun c => c == '+' || c == '-') (mantissa ++ (exponent ++ after)) :=
      isMantissa.stops (fun _ => noSign_of_isDigit) rfl
    have digit : Stops Char.isDigit (exponent ++ after) :=
      isExponent.stops blanks' (by simp [Char.isDigit])
    have point : Stops (· == '.') (exponent ++ after) := isExponent.stops blanks' (by simp)
    have stripped : (before ++ sign ++ mantissa ++ exponent ++ after).dropWhile isBlank =
        sign ++ (mantissa ++ (exponent ++ after)) := by
      simp only [List.append_assoc]
      exact dropWhile_run (blanks_iff.1 blanks) start
    rw [stripped, afterSign_append isSign unsigned, afterMantissa?_append isMantissa digit point]
    show (afterExponent (exponent ++ after)).all isBlank = true
    rw [afterExponent_append isExponent blanks']
    exact List.all_eq_true.2 (blanks_iff.1 blanks')

example : isNumeral " +.5e-3\n" = true ∧ isNumeral "1." = true := by decide

example : isNumeral "." = false ∧ isNumeral "1e" = false ∧ isNumeral "1 2" = false := by decide

/-- Asked about a text, with or without a key, the test for numbers answers whether the text is
blanks, an optional sign, digits with an optional point, an optional exponent and blanks. -/
theorem call_isNumeric_iff (ctx : Context) (w : World) (s : String) (key : Option Term) :
    ∃ answer, call ctx (.builtin .isNumeric) (.str s :: key.toList) w = .ok (.bool answer) w ∧
      (answer = true ↔ Spells s.toList) := by
  refine ⟨isNumeral s, ?_, isNumeral_iff⟩
  obtain ⟨levels, budget⟩ := w.store.exists_budget_succ (.builtin .isNumeric) (.str s :: key.toList)
  have run : call ctx (.builtin .isNumeric) (.str s :: key.toList) w =
      (interp ctx (w.store.budget (.builtin .isNumeric) (.str s :: key.toList))).call
        (.builtin .isNumeric) (.str s :: key.toList) w := rfl
  rw [run, budget]
  cases key <;> rfl

end SpecMatch
