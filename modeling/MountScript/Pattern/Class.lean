import MountScript.Pattern.Basic

/-!
# Reading escapes and character classes

A class is read atom by atom, with a look at the atom after. Leading dashes are members, and so is a
bracket right after the opening or the negation; neither begins a range. A dash between two items
makes a range of them; one before the closing bracket is a member.
-/

namespace MountScript

inductive PatternError
  | unclosedGroup
  | unopenedGroup
  | deepGroup
  | missingOperand
  | missingCountOperand
  | danglingEscape
  | unknownEscape
  | unclosedCount
  | unclosedMinimum
  | unclosedComma
  | unclosedMaximum
  | invalidCount
  | emptyCount
  | largeCount
  | reversedCount
  | unclosedClass
  | unclosedNegation
  | unclosedAfterBracket
  | unclosedAfterItem
  | unclosedAfterDash
  | nestedClass
  | classIntersection
  | classDifference
  | classSymmetricDifference
  | invalidClassEscape
  | invalidClassRange
  | reversedRange
  | tooLarge
deriving DecidableEq

def PatternError.message : PatternError → String
  | unclosedGroup => "found open group without closing ')'"
  | unopenedGroup => "found closing ')' without matching '('"
  | deepGroup => "pattern has too much nesting"
  | missingOperand =>
    "uncounted repetition operator must be applied to a sub-expression"
  | missingCountOperand =>
    "counted repetition operator must be applied to a sub-expression"
  | danglingEscape =>
    "saw start of escape sequence, but saw end of pattern before it finished"
  | unknownEscape => "unrecognized escape sequence"
  | unclosedCount => "found unclosed counted repetition operator"
  | unclosedMinimum => "found incomplete and unclosed counted repetition operator"
  | unclosedComma => "found counted repetition operator with a comma that is unclosed"
  | unclosedMaximum => "found counted repetition with min and max that is unclosed"
  | invalidCount => "expected closing brace for counted repetition, but got something else"
  | emptyCount => "expected decimal number, but found no digits"
  | largeCount => "got invalid decimal number"
  | reversedCount => "found counted repetition with a min bigger than its max"
  | unclosedClass => "found unclosed character class"
  | unclosedNegation => "negated character class has no closing bracket"
  | unclosedAfterBracket =>
    "character class begins with literal ']' but has no closing bracket"
  | unclosedAfterItem => "non-empty character class has no closing bracket"
  | unclosedAfterDash => "non-empty character class has no closing bracket after dash"
  | nestedClass => "nested character class is not supported"
  | classIntersection => "character class intersection is not supported"
  | classDifference => "character class difference is not supported"
  | classSymmetricDifference => "character class symmetric difference is not supported"
  | invalidClassEscape => "invalid escape sequence in character class"
  | invalidClassRange => "character class ranges must start and end with a single character"
  | reversedRange => "invalid range in character class"
  | tooLarge => "compiled regex exceeded size limit"

namespace Pattern

inductive Atom
  | plain (c : Char)
  | escaped (c : Char)
  | dangling
deriving DecidableEq

def atoms : List Char → List Atom
  | [] => []
  | ['\\'] => [.dangling]
  | '\\' :: c :: rest => .escaped c :: atoms rest
  | c :: rest => .plain c :: atoms rest

inductive Meaning
  | char (c : Char)
  | oneOf (ranges : List CharRange)
  | assertion (p : Pattern)

def digits : List CharRange := [⟨'0', '9', by decide⟩]

def spaces : List CharRange := [⟨'\t', '\r', by decide⟩, .single ' ']

def wordChars : List CharRange :=
  [⟨'0', '9', by decide⟩, ⟨'A', 'Z', by decide⟩, .single '_', ⟨'a', 'z', by decide⟩]

/-- An escaped ASCII character that is neither letter nor digit stands for itself, but for the angle
brackets. -/
def Meaning.ofEscape (c : Char) : Except PatternError Meaning :=
  match c with
  | 'd' => .ok (.oneOf digits)
  | 's' => .ok (.oneOf spaces)
  | 'w' => .ok (.oneOf wordChars)
  | 'b' => .ok (.assertion .wordBoundary)
  | '<' => .ok (.assertion .wordStart)
  | '>' => .ok (.assertion .wordEnd)
  | 'n' => .ok (.char '\n')
  | 't' => .ok (.char '\t')
  | 'r' => .ok (.char '\r')
  | 'f' => .ok (.char '\x0c')
  | 'v' => .ok (.char '\x0b')
  | 'a' => .ok (.char '\x07')
  | _ => if c.toNat < 128 && !c.isAlphanum then .ok (.char c) else .error .unknownEscape

def Meaning.ofAtom : Atom → Except PatternError Meaning
  | .plain c => .ok (.char c)
  | .escaped c => ofEscape c
  | .dangling => .error .danglingEscape

inductive ClassStage
  | opened
  | negated
  | afterDashes
  | afterBracket
  | afterRange
  | afterItem (item : Meaning)
  /-- After the low end of a range and its dash. -/
  | inRange (low : Meaning)
  | closed

structure ClassState where
  stage : ClassStage
  negated : Bool
  ranges : List CharRange

namespace ClassState

def start : ClassState := ⟨.opened, false, []⟩

def add (s : ClassState) (stage : ClassStage) (ranges : List CharRange) : ClassState :=
  { s with stage, ranges := s.ranges ++ ranges }

def addItem (s : ClassState) : Meaning → Except PatternError ClassState
  | .char c => .ok (s.add .afterRange [.single c])
  | .oneOf ranges => .ok (s.add .afterRange ranges)
  | .assertion _ => .error .invalidClassEscape

def addRange (s : ClassState) : Meaning → Meaning → Except PatternError ClassState
  | .char low, .char high =>
    match CharRange.between? low high with
    | some r => .ok (s.add .afterRange [r])
    | none => .error .reversedRange
  | _, _ => .error .invalidClassRange

def reserved? (a : Atom) (next : Option Atom) : Option PatternError :=
  if a = .plain '[' then some .nestedClass
  else if next ≠ some a then none
  else if a = .plain '&' then some .classIntersection
  else if a = .plain '-' then some .classDifference
  else if a = .plain '~' then some .classSymmetricDifference
  else none

def beginItem (s : ClassState) (a : Atom) (next : Option Atom) : Except PatternError ClassState :=
  if a = .plain ']' then .ok { s with stage := .closed }
  else
    match reserved? a next with
    | some e => .error e
    | none => (Meaning.ofAtom a).map fun item => { s with stage := .afterItem item }

def beginMembers (s : ClassState) (a : Atom) (next : Option Atom) :
    Except PatternError ClassState :=
  if a = .plain '-' then .ok (s.add .afterDashes [.single '-'])
  else if a = .plain ']' then .ok (s.add .afterBracket [.single ']'])
  else s.beginItem a next

def step (s : ClassState) (a : Atom) (next : Option Atom) : Except PatternError ClassState :=
  match s.stage with
  | .opened =>
    if a = .plain '^' then .ok { s with stage := .negated, negated := true }
    else s.beginMembers a next
  | .negated => s.beginMembers a next
  | .afterDashes =>
    if a = .plain '-' then .ok (s.add .afterDashes [.single '-']) else s.beginItem a next
  | .afterItem item =>
    if a = .plain '-' ∧ next ≠ some (.plain ']') ∧ next ≠ some (.plain '-') then
      .ok { s with stage := .inRange item }
    else (s.addItem item).bind fun s => s.beginItem a next
  | .inRange low => (Meaning.ofAtom a).bind (s.addRange low)
  | .afterBracket | .afterRange | .closed => s.beginItem a next

def endError (s : ClassState) : PatternError :=
  match s.stage with
  | .negated => .unclosedNegation
  | .afterBracket => .unclosedAfterBracket
  | .afterItem _ => .unclosedAfterItem
  | .afterDashes | .inRange _ => .unclosedAfterDash
  | .opened | .afterRange | .closed => .unclosedClass

def set? (s : ClassState) : Option CharSet :=
  match s.stage with
  | .closed => some ⟨s.ranges, s.negated⟩
  | _ => none

end ClassState
end Pattern

end MountScript
