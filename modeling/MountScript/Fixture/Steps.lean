import MountScript.Text

/-!
# Steps of a fixture

A fixture is a script cut into named steps. A line that starts with the marker `#--` names the step
made of the lines up to the next marker; a script parser takes it for a comment. Lines before the
first marker belong to no step.
-/

namespace MountScript

inductive StepsError
  | emptyName
  | duplicate (name : String)
deriving DecidableEq

def marker : String := "#--"

def StepsError.message : StepsError → String
  | emptyName => "empty step name after " ++ marker
  | duplicate name => "duplicate step '" ++ name ++ "'"

structure Step where
  name : String
  text : String
deriving DecidableEq

abbrev Steps := List Step

namespace Steps

def names (steps : Steps) : List String := steps.map Step.name

def get? (steps : Steps) (name : String) : Option String :=
  (steps.find? fun step => step.name = name).map Step.text

def markerName? (line : String) : Option String :=
  (marker.toList.isPrefixOf? line.toList).map fun rest => String.ofList (Text.trimChars rest)

def close (steps : Steps) : Option Step → Except StepsError Steps
  | none => .ok steps
  | some step =>
    if step.name ∈ steps.names then .error (.duplicate step.name) else .ok (steps ++ [step])

/-- Goes through the lines with the finished steps and the open one. A step with the name of another
is found out when it ends. -/
def collect (steps : Steps) (current : Option Step) : List String → Except StepsError Steps
  | [] => steps.close current
  | line :: lines =>
    match markerName? line with
    | some name =>
      match steps.close current with
      | .error e => .error e
      | .ok steps =>
        if name = "" then .error .emptyName else collect steps (some ⟨name, ""⟩) lines
    | none =>
      collect steps (current.map fun step => { step with text := step.text ++ line ++ "\n" }) lines

def parse (text : String) : Except StepsError Steps :=
  collect [] none (Text.lines text)

end Steps
end MountScript
