import MountScript.Build.Outcome
import MountScript.Space.MountTable
import MountScript.Text

/-!
# Expectations

What a step of a scenario should have done, and the first point in which it did something else. The
mount table is looked at after failed steps too: they leave a part of their work behind. How
patterns are matched is left to a search that is handed in.
-/

namespace MountScript

/-- Every field names something to look at; an absent one is not looked at. -/
structure Expectation where
  applied : Option Nat
  included : Option Nat
  unions : List (String × List String)
  unmounted : List String
  resolves : List (String × List String)
  cwd : Option String
  createTargets : List (String × Option String)
  error : Option String
  errorPattern : Option String
deriving DecidableEq

/-- Looks for a written pattern in a text. The error tells what is wrong with the pattern. -/
abbrev PatternSearch := String → String → Except String Bool

inductive Mismatch
  | succeeded (summary : Summary)
  | applied (expected actual : Nat)
  | included (expected actual : Nat)
  | failed (message : String)
  | errorText (expected actual : String)
  | badPattern (cause : String)
  | errorPattern (expected actual : String)
  | union (path : String) (expected actual : List String)
  | mounted (path : String) (count : Nat)
  | resolution (path : String) (expected actual : List String)
  | cwd (expected actual : String)
  | createTarget (dir : String) (expected actual : Option String)
deriving DecidableEq

def Summary.describe (s : Summary) : String :=
  "BuildSummary \x7b applied: " ++ toString s.applied ++ ", included: " ++ toString s.included ++
    ", reset: " ++ (if s.reset then "true" else "false") ++ " \x7d"

def Mismatch.message : Mismatch → String
  | succeeded summary =>
    "expected an error, but step succeeded (" ++ summary.describe ++ ")"
  | applied expected actual =>
    "expected " ++ toString expected ++ " applied operations, got " ++ toString actual
  | included expected actual =>
    "expected " ++ toString expected ++ " includes, got " ++ toString actual
  | failed message => "unexpected error: " ++ message
  | errorText expected actual =>
    "expected error containing '" ++ expected ++ "', got: " ++ actual
  | badPattern cause => "invalid regex pattern: " ++ cause
  | errorPattern expected actual =>
    "expected error matching '" ++ expected ++ "', got: " ++ actual
  | union path expected actual =>
    "union at " ++ path ++ ": expected " ++ Text.quotedList expected ++ ", got " ++
      Text.quotedList actual
  | mounted path count =>
    "expected nothing mounted at " ++ path ++ ", found " ++ toString count ++ " member(s)"
  | resolution path expected actual =>
    path ++ " resolves to " ++ Text.quotedList actual ++ ", expected " ++ Text.quotedList expected
  | cwd expected actual =>
    "expected current directory " ++ expected ++ ", got " ++ actual
  | createTarget dir expected actual =>
    "creates in " ++ dir ++ " land in " ++ Text.quotedOption actual ++ ", expected " ++
      Text.quotedOption expected

namespace Expectation

def any : Expectation := ⟨none, none, [], [], [], none, [], none, none⟩

def expectsError (x : Expectation) : Bool := x.error.isSome || x.errorPattern.isSome

def expect {α : Type} [DecidableEq α] (expected : Option α) (actual : α)
    (mismatch : α → α → Mismatch) : Except Mismatch Unit :=
  match expected with
  | none => .ok ()
  | some value => if actual = value then .ok () else .error (mismatch value actual)

def occurs (part : List Char) : List Char → Bool
  | [] => part.isEmpty
  | c :: rest => part.isPrefixOf (c :: rest) || occurs part rest

def checkText (x : Expectation) (message : String) : Except Mismatch Unit :=
  match x.error with
  | none => .ok ()
  | some text =>
    if occurs text.toList message.toList then .ok () else .error (.errorText text message)

def checkPattern (search : PatternSearch) (x : Expectation) (message : String) :
    Except Mismatch Unit :=
  match x.errorPattern with
  | none => .ok ()
  | some written =>
    match search written message with
    | .error cause => .error (.badPattern cause)
    | .ok found => if found then .ok () else .error (.errorPattern written message)

def checkMessage (search : PatternSearch) (x : Expectation) (message : String) :
    Except Mismatch Unit := do
  x.checkText message
  x.checkPattern search message

def checkResult (search : PatternSearch) (x : Expectation) :
    Except String Summary → Except Mismatch Unit
  | .ok summary =>
    if x.expectsError then .error (.succeeded summary)
    else do
      expect x.applied summary.applied .applied
      expect x.included summary.included .included
  | .error message =>
    if x.expectsError then x.checkMessage search message else .error (.failed message)

def firstMismatch {α : Type} (check : α → Except Mismatch Unit) : List α → Except Mismatch Unit
  | [] => .ok ()
  | a :: rest =>
    match check a with
    | .error mismatch => .error mismatch
    | .ok () => firstMismatch check rest

/-- A path without a union counts as one with no member. -/
def checkUnion (t : MountTable) (path : String) (expected : List String) : Except Mismatch Unit :=
  expect (some expected) (((t.union? path).getD []).map Member.root) (.union path)

def checkUnmounted (t : MountTable) (path : String) : Except Mismatch Unit :=
  match t.union? path with
  | none => .ok ()
  | some members => .error (.mounted path members.length)

def checkResolution (t : MountTable) (path : String) (expected : List String) :
    Except Mismatch Unit :=
  expect (some expected) (t.resolve path) (.resolution path)

def checkCreateTarget (t : MountTable) (dir : String) (expected : Option String) :
    Except Mismatch Unit :=
  expect (some expected) (t.createTarget? dir) (.createTarget dir)

def checkTable (x : Expectation) (t : MountTable) : Except Mismatch Unit := do
  firstMismatch (fun (path, expected) => checkUnion t path expected) x.unions
  firstMismatch (checkUnmounted t) x.unmounted
  firstMismatch (fun (path, expected) => checkResolution t path expected) x.resolves
  expect x.cwd t.cwd .cwd
  firstMismatch (fun (dir, expected) => checkCreateTarget t dir expected) x.createTargets

def verify (search : PatternSearch) (x : Expectation) (result : Except String Summary)
    (t : MountTable) : Except Mismatch Unit := do
  x.checkResult search result
  x.checkTable t

end Expectation
end MountScript
