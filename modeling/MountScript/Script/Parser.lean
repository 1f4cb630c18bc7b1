import MountScript.Operation
import MountScript.Text

/-!
# Parsing scripts

The first character of a line decides whether it is ignored: a `#` makes it a comment and a space
makes it a continuation that nothing reads. Any other line with a field is a command. Its first
field is the keyword; a second field that starts with a dash holds the flags; the rest are operands.

A text is parsed whole by `Script.parse`. A `Parser` takes one line at a time and goes on after a
bad line, keeping the operations of the good ones.

A stream of bytes is the list of what its reads return. A line is parsed once its line feed, or the
end of the stream, has been read. A failed read loses the bytes of the line that it breaks off; a
line that is not UTF-8 fails when it is reached.
-/

namespace MountScript

inductive ReadFailure
  | notFound
  | notDirectory
  | isDirectory
  | nameTooLong
  | tooManyLinks
  | nulInName
  | invalidUtf8
  | other (text : String)
deriving DecidableEq

def ReadFailure.message : ReadFailure → String
  | notFound => "No such file or directory (os error 2)"
  | notDirectory => "Not a directory (os error 20)"
  | isDirectory => "Is a directory (os error 21)"
  | nameTooLong => "File name too long (os error 36)"
  | tooManyLinks => "Too many levels of symbolic links (os error 40)"
  | nulInName => "file name contained an unexpected NUL byte"
  | invalidUtf8 => "stream did not contain valid UTF-8"
  | other text => text

inductive ParseError
  | unknownAction (line : Nat) (keyword : String)
  | read (line : Nat) (cause : ReadFailure)
deriving DecidableEq

namespace ParseError

/-- The line that could not be read, counted from one; zero when the text could not be opened. -/
def line : ParseError → Nat
  | unknownAction line _ => line
  | read line _ => line

def message : ParseError → String
  | unknownAction line keyword =>
    "Parse error at line " ++ toString line ++ ": unknown action '" ++ keyword ++ "'"
  | read line cause => "Read error at line " ++ toString line ++ ": " ++ cause.message

end ParseError

inductive LineKind
  | blank
  | comment
  | indented
  | command
deriving DecidableEq

def LineKind.isIgnored : LineKind → Bool
  | command => false
  | _ => true

def classify (text : String) : LineKind :=
  match text.toList with
  | [] => .blank
  | '#' :: _ => .comment
  | ' ' :: _ => .indented
  | _ => if Text.fields text = [] then .blank else .command

def splitFlags : List String → Placement × List String
  | [] => (.replace, [])
  | field :: rest =>
    match field.toList with
    | '-' :: letters => (.ofLetters letters, rest)
    | _ => (.replace, field :: rest)

/-- An ignored line holds no operation. How many operands an action takes is not looked at here. -/
def parseLine (line : Nat) (text : String) : Except ParseError (Option Operation) :=
  if (classify text).isIgnored then .ok none
  else
    match Text.fields text with
    | [] => .ok none
    | keyword :: rest =>
      match Action.ofKeyword? keyword with
      | none => .error (.unknownAction line keyword)
      | some action =>
        let (placement, operands) := splitFlags rest
        .ok (some ⟨action, placement, operands, line⟩)

structure Parser where
  linesRead : Nat
  operations : Array Operation

namespace Parser

def start : Parser := ⟨0, #[]⟩

/-- A line is counted also when it holds no operation or a bad one. -/
def feed (p : Parser) (text : String) : Except ParseError Unit × Parser :=
  let line := p.linesRead + 1
  match parseLine line text with
  | .error e => (.error e, { p with linesRead := line })
  | .ok none => (.ok (), { p with linesRead := line })
  | .ok (some op) => (.ok (), ⟨line, p.operations.push op⟩)

def finish (p : Parser) : Script := p.operations.toList

end Parser

def parseLines (line : Nat) : List String → Except ParseError Script
  | [] => .ok []
  | text :: texts =>
    match parseLine line text with
    | .error e => .error e
    | .ok found => (parseLines (line + 1) texts).map (found.toList ++ ·)

def Script.parse (text : String) : Except ParseError Script :=
  parseLines 1 (Text.lines text)

inductive ReadEvent
  | bytes (chunk : List UInt8)
  | interrupted
  | failed (cause : ReadFailure)
deriving DecidableEq

def decodeUtf8? (bytes : List UInt8) : Option String :=
  String.fromUTF8? bytes.toByteArray

def lineFeed : UInt8 := 10

namespace Parser

def feedBytes (p : Parser) (ended : Bool) (bytes : List UInt8) : Except ParseError Parser :=
  match decodeUtf8? bytes with
  | none => .error (.read (p.linesRead + 1) .invalidUtf8)
  | some text =>
    let text := if ended then String.ofList (Text.dropReturn text.toList) else text
    match p.feed text with
    | (.error e, _) => .error e
    | (.ok (), p) => .ok p

def feedEnded (p : Parser) (segments : List (List UInt8)) : Except ParseError Parser :=
  segments.foldlM (fun p segment => p.feedBytes true segment) p

/-- Goes through the reads with the bytes of the unfinished line in `pending`. An interrupted read is
tried again. A read of no bytes is an end: it finishes the line, and the stream if there is none. -/
def feedReads (p : Parser) (pending : List UInt8) : List ReadEvent → Except ParseError Parser
  | [] => if pending.isEmpty then .ok p else p.feedBytes false pending
  | .interrupted :: events => p.feedReads pending events
  | .failed cause :: _ => .error (.read (p.linesRead + 1) cause)
  | .bytes chunk :: events =>
    if chunk.isEmpty then
      if pending.isEmpty then .ok p
      else do (← p.feedBytes false pending).feedReads [] events
    else
      let pieces := (pending ++ chunk).splitOn lineFeed
      do (← p.feedEnded pieces.dropLast).feedReads (pieces.getLastD []) events

end Parser

def Script.parseStream (events : List ReadEvent) : Except ParseError Script :=
  (Parser.start.feedReads [] events).map Parser.finish

end MountScript
