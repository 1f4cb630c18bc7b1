/-!
# Patterns

Regular expressions over characters, with anchors and word boundaries. A pattern takes a list of
positions in a text to the positions that it can reach from them; it occurs in the text if it
reaches anything from any position.

A set holds the characters in some ranges, or all others. To ignore letter case, ranges that overlap
or touch are joined first, and each range then takes in the other case of one kind of its letters:
of the small ones if it has any, else of the capitals. A range that runs from the capitals into the
small letters, such as `A-m`, therefore gains no small letter.
-/

namespace MountScript

structure CharRange where
  low : Char
  high : Char
  low_le_high : low ≤ high
deriving DecidableEq

namespace CharRange

def single (c : Char) : CharRange := ⟨c, c, Char.le_refl c⟩

def between? (low high : Char) : Option CharRange :=
  if h : low ≤ high then some ⟨low, high, h⟩ else none

def contains (r : CharRange) (c : Char) : Bool := r.low ≤ c && c ≤ r.high

def touches (r s : CharRange) : Bool :=
  r.low.toNat ≤ s.high.toNat + 1 && s.low.toNat ≤ r.high.toNat + 1

def join (r s : CharRange) : CharRange where
  low := if r.low ≤ s.low then r.low else s.low
  high := if r.high ≤ s.high then s.high else r.high
  low_le_high := by
    have hr := r.low_le_high
    have hs := s.low_le_high
    simp only [Char.le_def, UInt32.le_iff_toNat_le] at *
    split <;> split <;> omega

def insert (r : CharRange) : List CharRange → List CharRange
  | [] => [r]
  | s :: rest =>
    if r.touches s then insert (r.join s) rest
    else if r.low ≤ s.low then r :: s :: rest
    else s :: insert r rest

def joined (ranges : List CharRange) : List CharRange :=
  ranges.foldl (fun found r => insert r found) []

def within? (r : CharRange) (low high : Char) : Option CharRange :=
  between? (if low ≤ r.low then r.low else low) (if r.high ≤ high then r.high else high)

def otherCase? (r : CharRange) : Option CharRange :=
  match r.within? 'a' 'z' with
  | some s => between? s.low.toUpper s.high.toUpper
  | none => (r.within? 'A' 'Z').bind fun s => between? s.low.toLower s.high.toLower

end CharRange

structure CharSet where
  ranges : List CharRange
  negated : Bool
deriving DecidableEq

namespace CharSet

def single (c : Char) : CharSet := ⟨[.single c], false⟩

def any : CharSet := ⟨[.single '\n'], true⟩

def contains (s : CharSet) (c : Char) : Bool := (s.ranges.any fun r => r.contains c) != s.negated

/-- Takes in the other case of letters. The ranges do so before the set is negated. -/
def ignoringCase (s : CharSet) : CharSet :=
  let ranges := CharRange.joined s.ranges
  { s with ranges := ranges ++ ranges.filterMap CharRange.otherCase? }

end CharSet

inductive Pattern
  | empty
  | one (set : CharSet)
  | both (first second : Pattern)
  | either (left right : Pattern)
  | times (count : Nat) (body : Pattern)
  /-- At most so many times. -/
  | upTo (count : Nat) (body : Pattern)
  | star (body : Pattern)
  | plus (body : Pattern)
  | atStart
  | atEnd
  | wordBoundary
  | wordStart
  | wordEnd
deriving DecidableEq

namespace Pattern

def weight : Pattern → Nat
  | empty | one _ | atStart | atEnd | wordBoundary | wordStart | wordEnd => 1
  | both first second => first.weight + second.weight
  | either left right => left.weight + right.weight + 1
  | times count body => max 1 (count * body.weight)
  | upTo count body => count * (body.weight + 1)
  | star body | plus body => body.weight + 1

def isWord (c : Char) : Bool := c.isAlphanum || c = '_'

def wordBefore (text : Array Char) (i : Nat) : Bool :=
  i != 0 && (text[i - 1]?.map isWord).getD false

def wordAfter (text : Array Char) (i : Nat) : Bool := (text[i]?.map isWord).getD false

def merge (found fresh : List Nat) : List Nat :=
  fresh.foldl (fun found i => if i ∈ found then found else found ++ [i]) found

/-- The positions reached by at most so many steps, each step taken from the newly reached ones. -/
def closure (step : List Nat → List Nat) : Nat → List Nat → List Nat → List Nat
  | 0, _, found => found
  | count + 1, frontier, found =>
    let fresh := (step frontier).filter fun i => i ∉ found
    if fresh.isEmpty then found else closure step count fresh (merge found fresh)

def repeated (step : List Nat → List Nat) : Nat → List Nat → List Nat
  | 0, from_ => from_
  | count + 1, from_ => repeated step count (step from_)

def reach (text : Array Char) : Pattern → List Nat → List Nat
  | empty, starts => starts
  | one set, starts =>
    (starts.filter fun i => (text[i]?.map set.contains).getD false).map (· + 1)
  | both first second, starts => reach text second (reach text first starts)
  | either left right, starts => merge (reach text left starts) (reach text right starts)
  | times count body, starts => repeated (reach text body) count starts
  | upTo count body, starts => closure (reach text body) count starts starts
  | star body, starts => closure (reach text body) (text.size + 1) starts starts
  | plus body, starts =>
    let once := reach text body starts
    closure (reach text body) (text.size + 1) once once
  | atStart, starts => starts.filter (· = 0)
  | atEnd, starts => starts.filter (· = text.size)
  | wordBoundary, starts => starts.filter fun i => wordBefore text i != wordAfter text i
  | wordStart, starts => starts.filter fun i => !wordBefore text i && wordAfter text i
  | wordEnd, starts => starts.filter fun i => wordBefore text i && !wordAfter text i

def occursIn (p : Pattern) (text : String) : Bool :=
  let chars := text.toList.toArray
  !(p.reach chars (List.range (chars.size + 1))).isEmpty

end Pattern

end MountScript
