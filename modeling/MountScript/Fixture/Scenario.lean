import MountScript.Build.Replay
import MountScript.File.Build
import MountScript.Fixture.Expectation
import MountScript.Fixture.Steps
import MountScript.Pattern.Parser

/-!
# Scenarios

A scenario runs steps of a fixture one after another on one mount table, which is empty at first,
and compares each with an expectation. The steps come from a text, or else from a file.
-/

namespace MountScript

structure Scenario where
  name : String
  baseDir : String
  fixture : Option String
  source : Option Steps
  plan : List (String × Expectation)

inductive ScenarioError
  | fileRead (path : String) (cause : ReadFailure)
  | fixture (path : String) (cause : StepsError)
  | noFixture
  | stepNotFound (step : String)
  | assertionFailed (step : String) (mismatch : Mismatch)
deriving DecidableEq

namespace ScenarioError

def message : ScenarioError → String
  | fileRead path cause => "failed to read " ++ path ++ ": " ++ cause.message
  | fixture path cause => "invalid fixture " ++ path ++ ": " ++ cause.message
  | noFixture => "scenario has no fixture"
  | stepNotFound step => "step not found: " ++ step
  | assertionFailed step mismatch => "step '" ++ step ++ "' failed: " ++ mismatch.message

def inline (cause : StepsError) : ScenarioError := fixture "<inline>" cause

end ScenarioError

namespace Scenario

def loadSteps (s : Scenario) (files : FileSystem) : Except ScenarioError Steps :=
  match s.source, s.fixture with
  | some steps, _ => .ok steps
  | none, none => .error .noFixture
  | none, some file =>
    let path := Path.join s.baseDir file
    match files.readText path with
    | .error cause => .error (.fileRead path cause)
    | .ok text => (Steps.parse text).mapError (.fixture path)

def settings (s : Scenario) : Settings := { Settings.standard with baseDir := some s.baseDir }

def runStep (files : FileSystem) (s : Settings) (text : String) (t : MountTable) :
    Except String Summary × MountTable :=
  match Script.parse text with
  | .error e => (.error e.message, t)
  | .ok script =>
    let o := build script t (FileLoader.ofSettings files s)
    (o.result.mapError BuildError.message, o.space)

def runPlan (search : PatternSearch) (files : FileSystem) (s : Settings) (steps : Steps)
    (t : MountTable) : List (String × Expectation) → Except ScenarioError Unit
  | [] => .ok ()
  | (name, expectation) :: plan =>
    match steps.get? name with
    | none => .error (.stepNotFound name)
    | some text =>
      let (result, t) := runStep files s text t
      match expectation.verify search result t with
      | .error mismatch => .error (.assertionFailed name mismatch)
      | .ok () => runPlan search files s steps t plan

def runWith (search : PatternSearch) (s : Scenario) (files : FileSystem) :
    Except ScenarioError Unit :=
  match s.loadSteps files with
  | .error e => .error e
  | .ok steps => runPlan search files s.settings steps .empty s.plan

def run : Scenario → FileSystem → Except ScenarioError Unit := runWith Pattern.search

end Scenario
end MountScript
