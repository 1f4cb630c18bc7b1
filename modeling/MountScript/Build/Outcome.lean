import MountScript.Script.Parser
import MountScript.Space.Call

/-!
# Errors and outcomes of a build

A build stops at its first error. The error says at which operation of which script it arose: a
chain of `nested` levels leads from the outermost script into the included ones. With the error, or
with what was counted, come the name space and the loader that the build leaves behind.
-/

namespace MountScript

inductive IncludeError
  | unsupported
  | depthExceeded (limit : Nat)
  | cycle (path : String)
  | read (path : String) (cause : ReadFailure)
  | parse (path : String) (cause : ParseError)
deriving DecidableEq

def IncludeError.message : IncludeError → String
  | unsupported => "includes are not supported without a script loader"
  | depthExceeded limit => "include depth limit of " ++ toString limit ++ " exceeded"
  | cycle path => path ++ " is already being included"
  | read path cause => "cannot read " ++ path ++ ": " ++ cause.message
  | parse path cause => path ++ ": " ++ cause.message

/-- The place of an operation: its index in the script, from zero, and its line in the source. -/
structure Site where
  index : Nat
  line : Nat
deriving DecidableEq

inductive BuildError
  | parse (cause : ParseError)
  | reset (cause : Refusal)
  | arity (site : Site) (action : Action) (found : Nat)
  | apply (site : Site) (action : Action) (cause : Refusal)
  | inclusion (site : Site) (path : String) (cause : IncludeError)
  | nested (site : Site) (path : String) (inner : BuildError)
deriving DecidableEq

namespace BuildError

def site? : BuildError → Option Site
  | parse _ | reset _ => none
  | arity site _ _ | apply site _ _ | inclusion site _ _ | nested site _ _ => some site

def index? (e : BuildError) : Option Nat := e.site?.map Site.index

def line? : BuildError → Option Nat
  | parse cause => some cause.line
  | e => e.site?.map Site.line

theorem index?_of_site? {e : BuildError} {site : Site} (h : e.site? = some site) :
    e.index? = some site.index := by
  rw [index?, h]
  rfl

theorem line?_of_site? {e : BuildError} {site : Site} (h : e.site? = some site) :
    e.line? = some site.line := by
  cases e with
  | parse cause => simp [site?] at h
  | _ => simp [line?, h]

/-- The action that failed, in the innermost script. -/
def action? : BuildError → Option Action
  | parse _ => none
  | reset _ => some .reset
  | arity _ action _ | apply _ action _ => some action
  | inclusion .. => some .includeScript
  | nested _ _ inner => inner.action?

def levels : BuildError → List BuildError
  | nested site path inner => nested site path inner :: inner.levels
  | e => [e]

def innermost : BuildError → BuildError
  | nested _ _ inner => inner.innermost
  | e => e

theorem action?_innermost (e : BuildError) : e.innermost.action? = e.action? := by
  induction e with
  | nested site path inner ih => exact ih
  | _ => rfl

def atLine (site : Site) : String := "line " ++ toString site.line ++ ": "

def message : BuildError → String
  | parse cause => cause.message
  | reset cause => "clearing the name space failed: " ++ cause.message
  | arity site action found =>
    atLine site ++ action.keyword ++ " expects " ++ action.arity.describe ++
      " operand(s), got " ++ toString found
  | apply site action cause => atLine site ++ action.keyword ++ " failed: " ++ cause.message
  | inclusion site path cause =>
    atLine site ++ "cannot include " ++ path ++ ": " ++ cause.message
  | nested site path inner => atLine site ++ "in " ++ path ++ ": " ++ inner.message

end BuildError

/-- Operations applied, those of included scripts among them, and scripts included in full. -/
structure Tally where
  applied : Nat
  included : Nat
deriving DecidableEq

namespace Tally

def zero : Tally := ⟨0, 0⟩

def add (a b : Tally) : Tally := ⟨a.applied + b.applied, a.included + b.included⟩

end Tally

structure Summary where
  applied : Nat
  included : Nat
  reset : Bool
deriving DecidableEq

def Tally.summary (t : Tally) (reset : Bool) : Summary := ⟨t.applied, t.included, reset⟩

structure Outcome (α σ ℓ : Type) where
  result : Except BuildError α
  space : σ
  loader : ℓ

namespace Outcome

variable {α β σ ℓ : Type}

def map (f : α → β) (o : Outcome α σ ℓ) : Outcome β σ ℓ :=
  ⟨o.result.map f, o.space, o.loader⟩

def mapError (f : BuildError → BuildError) (o : Outcome α σ ℓ) : Outcome α σ ℓ :=
  ⟨o.result.mapError f, o.space, o.loader⟩

@[simp] theorem result_map (f : α → β) (o : Outcome α σ ℓ) :
    (o.map f).result = o.result.map f := rfl

theorem result_map_eq_ok_iff {f : α → β} {o : Outcome α σ ℓ} {b : β} :
    (o.map f).result = .ok b ↔ ∃ a, o.result = .ok a ∧ f a = b := by
  rw [result_map]
  cases o.result <;> simp [Except.map]

theorem result_map_eq_error_iff {f : α → β} {o : Outcome α σ ℓ} {e : BuildError} :
    (o.map f).result = .error e ↔ o.result = .error e := by
  rw [result_map]
  cases o.result <;> simp [Except.map]

theorem eq_of_result {o : Outcome α σ ℓ} {result : Except BuildError α} (h : o.result = result) :
    o = ⟨result, o.space, o.loader⟩ := by
  rw [← h]

@[simp] theorem isOk_map (f : α → β) (r : Except BuildError α) : (r.map f).isOk = r.isOk := by
  cases r <;> rfl

@[simp] theorem space_map (f : α → β) (o : Outcome α σ ℓ) : (o.map f).space = o.space := rfl

@[simp] theorem loader_map (f : α → β) (o : Outcome α σ ℓ) : (o.map f).loader = o.loader := rfl

end Outcome

end MountScript
