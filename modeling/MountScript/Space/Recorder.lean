import MountScript.Space.Call

/-!
# Name spaces that change nothing

A `Recorder` keeps the calls made to it, for a trial run; it can be set to refuse one of them. A
`Refuser` stands for a platform without name spaces.
-/

namespace MountScript

structure Recorder where
  calls : List Call
  /-- The number of calls to be held before the one that is refused. -/
  failAt : Option Nat
deriving DecidableEq

namespace Recorder

def start (failAt : Option Nat) : Recorder := ⟨[], failAt⟩

def take (r : Recorder) : List Call × Recorder := (r.calls, { r with calls := [] })

def record (r : Recorder) (call : Call) : Except Refusal Unit × Recorder :=
  let count := r.calls.length
  let next := { r with calls := r.calls ++ [call] }
  if r.failAt = some count then
    (.error (.other ("injected failure on call " ++ toString count ++ " (" ++
      call.action.keyword ++ ")")), next)
  else (.ok (), next)

instance : NameSpace Recorder where
  perform call r := r.record call

end Recorder

structure Refuser where
deriving DecidableEq

instance : NameSpace Refuser where
  perform call r := (.error (.unsupported call.action), r)

end MountScript
