import MountScript.Pattern.Class
import MountScript.Text

/-!
# Reading patterns

Patterns are written with `.`, `^`, `$`, `*`, `+`, `?`, `{n}`, `{n,}`, `{n,m}`, `|`, groups, classes
with ranges and negation, `\d`, `\s`, `\w`, `\b`, `\<`, `\>` and escaped punctuation. A leading
`(?i)` ignores the case of ASCII letters. A pattern is cut into tokens first; a malformed token
stands in the list where it was found, so of several errors the leftmost is reported.
-/

namespace MountScript
namespace Pattern

inductive Token
  | item (p : Pattern)
  | again (fewest : Nat) (most : Option Nat)
  | counted (bounds : Except PatternError (Nat × Option Nat))
  | bar
  | opening
  | closing
  | wrong (e : PatternError)

def greatestCount : Nat := Nat.pow 2 32 - 1

def number (text : List Char) : Except PatternError (Nat × List Char) :=
  let text := text.dropWhile Text.isWhiteSpace
  let digits := text.takeWhile Char.isDigit
  let value := digits.foldl (fun n c => 10 * n + (c.toNat - '0'.toNat)) 0
  if digits.isEmpty then .error .emptyCount
  else if greatestCount < value then .error .largeCount
  else .ok (value, (text.dropWhile Char.isDigit).dropWhile Text.isWhiteSpace)

def bounds (inside : List Char) (closed : Bool) : Except PatternError (Nat × Option Nat) :=
  if inside.isEmpty && !closed then .error .unclosedCount
  else
    match number inside with
    | .error e => .error e
    | .ok (fewest, []) => if closed then .ok (fewest, some fewest) else .error .unclosedMinimum
    | .ok (fewest, [',']) => if closed then .ok (fewest, none) else .error .unclosedComma
    | .ok (fewest, ',' :: rest) =>
      match number rest with
      | .error e => .error e
      | .ok (most, []) =>
        if !closed then .error .unclosedMaximum
        else if most < fewest then .error .reversedCount
        else .ok (fewest, some most)
      | .ok _ => .error .invalidCount
    | .ok _ => .error .invalidCount

inductive Mode
  | outside
  | afterRepetition
  | inCount (inside : List Char)
  | inClass (s : ClassState)

def oneOf (ignoreCase : Bool) (set : CharSet) : Pattern :=
  .one (if ignoreCase then set.ignoringCase else set)

def plainToken (ignoreCase : Bool) (c : Char) : Token :=
  match c with
  | '.' => .item (.one .any)
  | '^' => .item .atStart
  | '$' => .item .atEnd
  | '|' => .bar
  | '(' => .opening
  | ')' => .closing
  | _ => .item (oneOf ignoreCase (.single c))

def escapedToken (c : Char) : Token :=
  match Meaning.ofEscape c with
  | .ok (.char c) => .item (.one (.single c))
  | .ok (.oneOf ranges) => .item (.one ⟨ranges, false⟩)
  | .ok (.assertion p) => .item p
  | .error e => .wrong e

/-- A question mark after a repetition asks for the shortest match, which changes nothing about
whether there is one. -/
def tokens (ignoreCase : Bool) : Mode → List Atom → List Token
  | .outside, [] | .afterRepetition, [] => []
  | .inCount inside, [] => [.counted (bounds inside false)]
  | .inClass s, [] => [.wrong s.endError]
  | .inCount inside, a :: rest =>
    match a with
    | .plain '\x7d' => .counted (bounds inside true) :: tokens ignoreCase .afterRepetition rest
    | .plain c => tokens ignoreCase (.inCount (inside ++ [c])) rest
    | _ => [.counted (bounds (inside ++ ['\\']) true)]
  | .inClass s, a :: rest =>
    match s.step a rest.head? with
    | .error e => [.wrong e]
    | .ok s =>
      match s.set? with
      | some set => .item (oneOf ignoreCase set) :: tokens ignoreCase .outside rest
      | none => tokens ignoreCase (.inClass s) rest
  | .afterRepetition, .plain '?' :: rest => tokens ignoreCase .outside rest
  | _, a :: rest =>
    match a with
    | .dangling => [.wrong .danglingEscape]
    | .escaped c => escapedToken c :: tokens ignoreCase .outside rest
    | .plain '[' => tokens ignoreCase (.inClass .start) rest
    | .plain '\x7b' => tokens ignoreCase (.inCount []) rest
    | .plain '*' => .again 0 none :: tokens ignoreCase .afterRepetition rest
    | .plain '+' => .again 1 none :: tokens ignoreCase .afterRepetition rest
    | .plain '?' => .again 0 (some 1) :: tokens ignoreCase .afterRepetition rest
    | .plain c => plainToken ignoreCase c :: tokens ignoreCase .outside rest

/-- An open group: the finished branches and the items of the current one, latest first. -/
structure Group where
  branches : List Pattern
  items : List Pattern

namespace Group

def start : Group := ⟨[], []⟩

def branch (g : Group) : Pattern := g.items.foldl (fun rest p => .both p rest) .empty

def add (g : Group) (p : Pattern) : Group := { g with items := p :: g.items }

def alternative (g : Group) : Group := ⟨g.branch :: g.branches, []⟩

def close (g : Group) : Pattern := g.branches.foldl (fun right p => .either p right) g.branch

end Group

def repetition (p : Pattern) : Nat → Option Nat → Pattern
  | 0, none => .star p
  | fewest + 1, none => .both (.times fewest p) (.plus p)
  | fewest, some most => .both (.times fewest p) (.upTo (most - fewest) p)

def greatestDepth : Nat := 50

def assemble (g : Group) (outer : List Group) : List Token → Except PatternError Pattern
  | [] => if outer.isEmpty then .ok g.close else .error .unclosedGroup
  | .item p :: rest => assemble (g.add p) outer rest
  | .bar :: rest => assemble g.alternative outer rest
  | .opening :: rest =>
    if outer.length < greatestDepth then assemble .start (g :: outer) rest else .error .deepGroup
  | .closing :: rest =>
    match outer with
    | [] => .error .unopenedGroup
    | around :: outer => assemble (around.add g.close) outer rest
  | .again fewest most :: rest =>
    match g.items with
    | [] => .error .missingOperand
    | p :: items => assemble { g with items := repetition p fewest most :: items } outer rest
  | .counted bounds :: rest =>
    match g.items, bounds with
    | [], _ => .error .missingCountOperand
    | _, .error e => .error e
    | p :: items, .ok (fewest, most) =>
      assemble { g with items := repetition p fewest most :: items } outer rest
  | .wrong e :: _ => .error e

/-- The weight of ten mebibytes, at 32 bytes a step. -/
def greatestWeight : Nat := 10 * Nat.pow 2 20 / 32

def ofChars (ignoreCase : Bool) (text : List Char) : Except PatternError Pattern :=
  match assemble .start [] (tokens ignoreCase .outside (atoms text)) with
  | .ok p => if greatestWeight < p.weight then .error .tooLarge else .ok p
  | .error e => .error e

def ofString (text : String) : Except PatternError Pattern :=
  match text.toList with
  | '(' :: '?' :: 'i' :: ')' :: rest => ofChars true rest
  | cs => ofChars false cs

def search (written text : String) : Except String Bool :=
  match ofString written with
  | .error cause => .error cause.message
  | .ok p => .ok (p.occursIn text)

end Pattern
end MountScript
