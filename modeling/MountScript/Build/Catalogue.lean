import MountScript.Build.Replay
import MountScript.Script.Parser

/-!
# Catalogues

A catalogue keeps scripts by name in memory and serves them to includes. It limits how many scripts
are open at a time, and keeps a log of what it was asked to enter and to leave.
-/

namespace MountScript

inductive CatalogueEntry
  | text (text : String)
  | cyclic
  | unreadable (reason : String)
deriving DecidableEq

inductive LoaderEvent
  | entered (path : String)
  | left (path : String)
deriving DecidableEq

structure Catalogue where
  entries : List (String × CatalogueEntry)
  maxDepth : Nat
  opened : Nat
  log : List LoaderEvent

namespace Catalogue

def start (entries : List (String × CatalogueEntry)) (maxDepth : Nat) : Catalogue :=
  ⟨entries, maxDepth, 0, []⟩

/-- A refusal that the entry asks for comes before the limit, and the limit before the parsing. -/
def look (c : Catalogue) (path : String) : Except IncludeError Script :=
  match c.entries.lookup path with
  | none => .error .unsupported
  | some .cyclic => .error (.cycle path)
  | some (.unreadable reason) => .error (.read path (.other reason))
  | some (.text text) =>
    if c.maxDepth ≤ c.opened then .error (.depthExceeded c.maxDepth)
    else (Script.parse text).mapError (.parse path)

def enter (path : String) (c : Catalogue) : Except IncludeError Script × Catalogue :=
  let log := c.log ++ [LoaderEvent.entered path]
  match c.look path with
  | .error e => (.error e, { c with log })
  | .ok script => (.ok script, { c with log, opened := c.opened + 1 })

def leave (path : String) (c : Catalogue) : Catalogue :=
  { c with opened := c.opened - 1, log := c.log ++ [.left path] }

def takeLog (c : Catalogue) : List LoaderEvent × Catalogue := (c.log, { c with log := [] })

theorem opened_lt_of_look {c : Catalogue} {path : String} {script : Script}
    (h : c.look path = .ok script) : c.opened < c.maxDepth := by
  unfold look at h
  split at h <;> try simp at h
  split at h
  · simp at h
  · omega

instance : BoundedLoader Catalogue where
  enter := enter
  leave := leave
  room c := c.maxDepth - c.opened
  room_enter_ok {path c script} h := by
    unfold enter at h ⊢
    cases hf : c.look path with
    | error e => simp [hf] at h
    | ok found =>
      have := opened_lt_of_look hf
      simp only
      omega
  room_enter_error {path c e} h := by
    unfold enter at h ⊢
    cases hf : c.look path with
    | error e => exact Nat.le_refl _
    | ok found => simp [hf] at h
  room_leave path c := by
    unfold leave
    dsimp only
    omega

end Catalogue
end MountScript
