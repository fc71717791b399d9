import SpecMatch.Term.Basic

/-!
# Equality of terms

Three relations tell terms apart. `Term.same` is the equality of elements and keys: an object is
the same as itself even if it is a NaN, numbers of different classes are the same when their exact
values are, maps are the same when they hold the same entries. `Term.equal` differs from it on a
NaN alone, which equals nothing. `Term.strictlyEqual` asks for the same class as well.

Two recorders are the same when their results and their calls are, and two objects of the host that
are compared by what they have been asked when they have been asked the same. What was asked is
known to the environment of a match, so the relations take it as the parameter `alike`.
-/

namespace SpecMatch

/-- Whether two objects are one, or of one class and alike in what they have been asked. -/
def Handle.resembles (alike : String → String → Bool) (a b : Handle) : Bool :=
  a == b || (a.cls == b.cls &&
    (match a.memory, b.memory with
      | some m, some n => alike m n
      | _, _ => false))

namespace Term

/-- The exact value of a number; truth values count as 1 and 0. -/
def number? : Term → Option Number
  | .bool b => some (.ofInt (if b then 1 else 0))
  | .int i => some (.ofInt i)
  | .float x => some (.ofDouble x)
  | _ => none

section Same

variable (alike : String → String → Bool)

mutual

/-- Whether two terms are the same element or key. -/
def same : Term → Term → Bool
  | .null, b => (b matches .null)
  | .bool a, b => b.number? == some (.ofInt (if a then 1 else 0))
  | .int a, b => b.number? == some (.ofInt a)
  | .float a, b => b.number? == some (.ofDouble a)
  | .str a, b => (match b with | .str b => a == b | _ => false)
  | .bytes a, b => (match b with | .bytes b => a == b | _ => false)
  | .missing, b => (b matches .missing)
  | .list a, b => (match b with | .list b => sameItems a b | _ => false)
  | .tuple a, b => (match b with | .tuple b => sameItems a b | _ => false)
  | .map .ordered a, b =>
    (match b with
      | .map .ordered b => samePairs a b
      | .map _ b => a.length == b.length && sameEntries a b
      | _ => false)
  | .map _ a, b =>
    (match b with
      | .map _ b => a.length == b.length && sameEntries a b
      | _ => false)
  | .fields a, b =>
    (match b with
      | .fields b => a.length == b.length && sameAttributes a b
      | _ => false)
  | .circle a, b => (match b with | .circle b => same a b | _ => false)
  | .square a, b => (match b with | .square b => same a b | _ => false)
  | .left a, b => (match b with | .left b => same a b | _ => false)
  | .right a, b => (match b with | .right b => same a b | _ => false)
  | .cls a, b => (match b with | .cls b => a == b | _ => false)
  | .builtin a, b => (match b with | .builtin b => a == b | _ => false)
  | .comparison s a, b => (match b with | .comparison t b => s == t && same a b | _ => false)
  | .oneOf a s, b => (match b with | .oneOf b t => sameItems a b && s == t | _ => false)
  | .allOf a, b => (match b with | .allOf b => sameItems a b | _ => false)
  | .anyOf a, b => (match b with | .anyOf b => sameItems a b | _ => false)
  | .negation a, b => (match b with | .negation b => same a b | _ => false)
  | .maybe a, b => (match b with | .maybe b => same a b | _ => false)
  | .strict a, b => (match b with | .strict b => same a b | _ => false)
  | .everyItem a, b => (match b with | .everyItem b => same a b | _ => false)
  | .someItem a, b => (match b with | .someItem b => same a b | _ => false)
  | .keyed a i m, b =>
    (match b with
      | .keyed b j n => same a b && i == j && m == n
      | _ => false)
  | .action a, b => (match b with | .action b => same a b | _ => false)
  | .fanout a, b => (match b with | .fanout b => sameItems a b | _ => false)
  | .dispatcher a, b => (match b with | .dispatcher b => samePairs a b | _ => false)
  | .var a, b => (match b with | .var b => a == b | _ => false)
  | .recorder m a, b =>
    (match b with
      | .recorder n b => m == n || (same a b && alike m n)
      | _ => false)
  | .object a, b => (match b with | .object b => a.resembles alike b | _ => false)
  | .foreign c a, b => (match b with | .foreign d b => c == d && a == b | _ => false)
termination_by structural a => a

/-- Whether two sequences hold the same elements. -/
def sameItems : List Term → List Term → Bool
  | [], [] => true
  | a :: as, b :: bs => same a b && sameItems as bs
  | _, _ => false
termination_by structural as => as

/-- Whether two sequences hold the same pairs in the same order. -/
def samePairs : List (Term × Term) → List (Term × Term) → Bool
  | [], [] => true
  | (k, v) :: as, b :: bs => same k b.1 && same v b.2 && samePairs as bs
  | _, _ => false
termination_by structural as => as

/-- Whether every entry has its counterpart in `bs`, wherever it stands. -/
def sameEntries : List (Term × Term) → List (Term × Term) → Bool
  | [], _ => true
  | (k, v) :: as, bs =>
    (match bs.find? (fun b => same k b.1) with
      | some b => same v b.2
      | none => false) && sameEntries as bs
termination_by structural as => as

/-- Whether every attribute has its counterpart in `bs`, wherever it stands. -/
def sameAttributes : List (String × Term) → List (String × Term) → Bool
  | [], _ => true
  | (n, v) :: as, bs =>
    (match bs.find? (fun b => n == b.1) with
      | some b => same v b.2
      | none => false) && sameAttributes as bs
termination_by structural as => as

end

/-- Whether a value equals another one; a NaN equals nothing. -/
def equal : Term → Term → Bool
  | .float (.nan _), _ => false
  | a, b => same alike a b

/-- Equality that asks for the same class as well. -/
def strictlyEqual (a b : Term) : Bool := a.classOf == b.classOf && equal alike a b

end Same

/-- Whether two terms are the same key. Keys hold nothing that is compared by what it has been
asked, so nothing needs to be known about calls. -/
def sameKey : Term → Term → Bool := same (fun m n => m == n)

end Term

end SpecMatch
