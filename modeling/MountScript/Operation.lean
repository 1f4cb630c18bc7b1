/-!
# Operations

An operation is one line of a name space script: one of seven actions, the placement flags and the
operands. A placement says how a new member joins the union at its mount point: at which end,
whether files may be created in it, and whether it is cached. It is a set of flags; each flag has a
letter in scripts and a bit in the numeric form. A script is a list of operations. Both are written
in the form in which scripts are read.
-/

namespace MountScript

inductive Action
  | splice
  | mount
  | unmount
  | reset
  | changeDir
  | includeScript
  | importTree
deriving DecidableEq

namespace Action

def all : List Action :=
  [splice, mount, unmount, reset, changeDir, includeScript, importTree]

def keyword : Action → String
  | splice => "bind"
  | mount => "mount"
  | unmount => "unmount"
  | reset => "clear"
  | changeDir => "cd"
  | includeScript => "."
  | importTree => "import"

def ofKeyword? (word : String) : Option Action :=
  all.find? fun a => a.keyword = word

theorem ofKeyword?_keyword (a : Action) : ofKeyword? a.keyword = some a := by
  cases a <;> decide

theorem keyword_of_ofKeyword? {word : String} {a : Action} (h : ofKeyword? word = some a) :
    a.keyword = word := by
  simpa using List.find?_some h

end Action

inductive Flag
  | after
  | before
  | create
  | cache
deriving DecidableEq

inductive Position
  | replace
  | before
  | after
deriving DecidableEq

structure Placement where
  before : Bool
  after : Bool
  create : Bool
  cache : Bool
deriving DecidableEq

namespace Flag

/-- Every flag, in the order in which letters are written. -/
def all : List Flag := [after, before, create, cache]

def letter : Flag → Char
  | after => 'a'
  | before => 'b'
  | create => 'c'
  | cache => 'C'

def ofLetter? (c : Char) : Option Flag :=
  all.find? fun f => f.letter = c

def bit : Flag → Nat
  | before => 1
  | after => 2
  | create => 4
  | cache => 16

def name : Flag → String
  | before => "BEFORE"
  | after => "AFTER"
  | create => "CREATE"
  | cache => "CACHE"

theorem ofLetter?_eq_some_iff {c : Char} {f : Flag} : ofLetter? c = some f ↔ c = f.letter := by
  constructor
  · intro h
    have found := List.find?_some h
    exact (of_decide_eq_true found).symm
  · rintro rfl
    cases f <;> decide

end Flag

namespace Placement

def replace : Placement := ⟨false, false, false, false⟩

def has (p : Placement) : Flag → Bool
  | .before => p.before
  | .after => p.after
  | .create => p.create
  | .cache => p.cache

def add (p : Placement) : Flag → Placement
  | .before => { p with before := true }
  | .after => { p with after := true }
  | .create => { p with create := true }
  | .cache => { p with cache := true }

def single (f : Flag) : Placement := replace.add f

def union (p q : Placement) : Placement :=
  ⟨p.before || q.before, p.after || q.after, p.create || q.create, p.cache || q.cache⟩

def contains (p q : Placement) : Bool :=
  Flag.all.all fun f => !q.has f || p.has f

def isReplace (p : Placement) : Bool := !(p.before || p.after)

/-- A member asked for at both ends goes to the end that is searched last. -/
def position (p : Placement) : Position :=
  if p.after then .after else if p.before then .before else .replace

def ofLetters (letters : List Char) : Placement :=
  letters.foldl (fun p c => ((Flag.ofLetter? c).map p.add).getD p) replace

def letters (p : Placement) : List Char :=
  (Flag.all.filter p.has).map Flag.letter

def flagString (p : Placement) : String := String.ofList p.letters

def bits (p : Placement) : Nat :=
  ((Flag.all.filter p.has).map Flag.bit).foldl (· + ·) 0

def ofBits? (n : Nat) : Option Placement :=
  let p : Placement := ⟨n.testBit 0, n.testBit 1, n.testBit 2, n.testBit 4⟩
  if p.bits = n then some p else none

def describe (p : Placement) : String :=
  match [Flag.before, .after, .create, .cache].filter p.has with
  | [] => "REPLACE"
  | flags => "|".intercalate (flags.map Flag.name)

theorem has_add (p : Placement) (f g : Flag) : (p.add f).has g = (p.has g || f = g) := by
  cases f <;> cases g <;> simp [add, has]

theorem has_union (p q : Placement) (f : Flag) : (p.union q).has f = (p.has f || q.has f) := by
  cases f <;> rfl

theorem eq_of_has_eq {p q : Placement} (h : ∀ f, p.has f = q.has f) : p = q := by
  cases p; cases q
  have h₁ := h .before; have h₂ := h .after; have h₃ := h .create; have h₄ := h .cache
  simp_all [has]

theorem ofBits?_bits (p : Placement) : ofBits? p.bits = some p := by
  rcases p with ⟨_ | _, _ | _, _ | _, _ | _⟩ <;> decide

end Placement

structure Operation where
  action : Action
  placement : Placement
  operands : List String
  line : Nat
deriving DecidableEq

abbrev Script := List Operation

namespace Operation

/-- A lone `-` keeps a first operand that starts with a dash from being read as flags. -/
def flagToken (op : Operation) : List String :=
  if op.placement.flagString = "" ∧ (op.operands.head?.bind fun o => o.toList.head?) ≠ some '-' then
    []
  else ["-" ++ op.placement.flagString]

def words (op : Operation) : List String :=
  op.action.keyword :: (op.flagToken ++ op.operands)

def render (op : Operation) : String := " ".intercalate op.words

def operand? (op : Operation) (index : Nat) : Option String := op.operands[index]?

end Operation

def Script.render : Script → String
  | [] => ""
  | op :: ops => op.render ++ "\n" ++ Script.render ops

end MountScript
