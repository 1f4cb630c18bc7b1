/-!
# Texts

A line is cut into fields at runs of blanks. Blank is ASCII white space without the vertical tab:
the space, the tab, the line feed, the form feed and the carriage return.

A text is a sequence of lines, each ended by a line feed. One carriage return directly before the
line feed belongs to the ending. A last line without a line feed counts if it holds anything, and
keeps its carriage return.

Messages show a text between quotes. The quote and the backslash get a backslash before them. Four
control characters are written as escapes with a letter; other control characters, and white space
other than the space, are written by code point in hexadecimal. White space is there, and where a
text is trimmed, the Unicode property `White_Space`: 25 code points.
-/

namespace MountScript.Text

def isBlank (c : Char) : Bool :=
  c = ' ' || c = '\t' || c = '\n' || c = '\x0c' || c = '\r'

def charFields (cs : List Char) : List (List Char) :=
  (cs.splitOnP isBlank).filter fun field => !field.isEmpty

def fields (text : String) : List String :=
  (charFields text.toList).map String.ofList

def dropReturn (cs : List Char) : List Char :=
  if cs.getLast? = some '\r' then cs.dropLast else cs

def ofPieces : List (List Char) → List (List Char)
  | [] => []
  | [rest] => if rest.isEmpty then [] else [rest]
  | piece :: pieces => dropReturn piece :: ofPieces pieces

def charLines (cs : List Char) : List (List Char) :=
  ofPieces (cs.splitOn '\n')

def lines (text : String) : List String :=
  (charLines text.toList).map String.ofList

def whiteSpaceRanges : List (Nat × Nat) :=
  [(0x09, 0x0D), (0x20, 0x20), (0x85, 0x85), (0xA0, 0xA0), (0x1680, 0x1680), (0x2000, 0x200A),
    (0x2028, 0x2029), (0x202F, 0x202F), (0x205F, 0x205F), (0x3000, 0x3000)]

def isWhiteSpace (c : Char) : Bool :=
  whiteSpaceRanges.any fun (low, high) => low ≤ c.toNat && c.toNat ≤ high

def trimChars (cs : List Char) : List Char :=
  ((cs.dropWhile isWhiteSpace).reverse.dropWhile isWhiteSpace).reverse

def isControl (c : Char) : Bool :=
  c.toNat < 0x20 || (0x7f ≤ c.toNat && c.toNat < 0xa0)

def isHidden (c : Char) : Bool := isControl c || (isWhiteSpace c && c ≠ ' ')

def escapeChar (c : Char) : List Char :=
  match c with
  | '"' => ['\\', '"']
  | '\\' => ['\\', '\\']
  | '\t' => ['\\', 't']
  | '\n' => ['\\', 'n']
  | '\r' => ['\\', 'r']
  | '\x00' => ['\\', '0']
  | _ =>
    if isHidden c then
      ['\\', 'u', '\x7b'] ++ Nat.toDigits 16 c.toNat ++ ['\x7d']
    else [c]

def quoted (text : String) : String :=
  "\"" ++ String.ofList (text.toList.flatMap escapeChar) ++ "\""

def quotedList (texts : List String) : String :=
  "[" ++ ", ".intercalate (texts.map quoted) ++ "]"

def quotedOption : Option String → String
  | none => "None"
  | some text => "Some(" ++ quoted text ++ ")"

end MountScript.Text
