import MountScript.Operation

/-!
# Calls on a name space

What a script can do to a name space, as data. Anything that answers calls is a `NameSpace`; it may
refuse a call and says why.
-/

namespace MountScript

inductive Call
  | bind (new old : String) (placement : Placement)
  | mount (server old : String) (spec : Option String) (placement : Placement)
  | unmount (new : Option String) (old : String)
  | clear
  | changeDir (dir : String)
  | importTree (host : String) (remote : Option String) (old : String) (placement : Placement)
deriving DecidableEq

def Call.action : Call → Action
  | bind .. => .splice
  | mount .. => .mount
  | unmount .. => .unmount
  | clear => .reset
  | changeDir .. => .changeDir
  | importTree .. => .importTree

inductive Refusal
  | notMounted (path : String)
  | invalidSpec (detail : String)
  | unsupported (action : Action)
  | other (detail : String)
deriving DecidableEq

def Refusal.message : Refusal → String
  | notMounted path => "not mounted: " ++ path
  | invalidSpec detail => "invalid spec: " ++ detail
  | unsupported action => action.keyword ++ " is not supported on this platform"
  | other detail => detail

/-- A state that answers calls. A refused call may have changed the state too. -/
class NameSpace (σ : Type) where
  perform : Call → σ → Except Refusal Unit × σ

structure Arity where
  fewest : Nat
  most : Nat
deriving DecidableEq

def Arity.describe (a : Arity) : String :=
  if a.fewest = a.most then toString a.fewest
  else toString a.fewest ++ " or " ++ toString a.most

def Arity.admits (a : Arity) (count : Nat) : Prop := a.fewest ≤ count ∧ count ≤ a.most

def Action.arity : Action → Arity
  | splice => ⟨2, 2⟩
  | mount => ⟨2, 3⟩
  | unmount => ⟨1, 2⟩
  | reset => ⟨0, 0⟩
  | changeDir => ⟨1, 1⟩
  | includeScript => ⟨1, 1⟩
  | importTree => ⟨2, 3⟩

inductive Request
  | call (call : Call)
  | includeScript (path : String)
deriving DecidableEq

def Operation.request? (op : Operation) : Option Request :=
  match op.action, op.operands with
  | .splice, [new, old] => some (.call (.bind new old op.placement))
  | .mount, [server, old] => some (.call (.mount server old none op.placement))
  | .mount, [server, old, spec] => some (.call (.mount server old (some spec) op.placement))
  | .unmount, [old] => some (.call (.unmount none old))
  | .unmount, [new, old] => some (.call (.unmount (some new) old))
  | .reset, [] => some (.call .clear)
  | .changeDir, [dir] => some (.call (.changeDir dir))
  | .includeScript, [path] => some (.includeScript path)
  | .importTree, [host, old] => some (.call (.importTree host none old op.placement))
  | .importTree, [host, remote, old] =>
    some (.call (.importTree host (some remote) old op.placement))
  | _, _ => none

namespace Operation

def call? (op : Operation) : Option Call :=
  match op.request? with
  | some (.call call) => some call
  | _ => none

theorem request?_eq_includeScript_iff {op : Operation} {path : String} :
    op.request? = some (.includeScript path) ↔
      op.action = .includeScript ∧ op.operands = [path] := by
  rw [request?]
  split <;> simp_all

theorem action_of_request? {op : Operation} {call : Call} (h : op.request? = some (.call call)) :
    call.action = op.action := by
  rw [request?] at h
  split at h <;> simp at h <;> subst h <;> simp_all [Call.action]

theorem request?_eq_none_iff {op : Operation} :
    op.request? = none ↔ ¬op.action.arity.admits op.operands.length := by
  rcases op with ⟨action, placement, operands, line⟩
  rcases operands with _ | ⟨a, _ | ⟨b, _ | ⟨c, _ | ⟨d, more⟩⟩⟩⟩ <;> cases action <;>
    simp [request?, Action.arity, Arity.admits]

end Operation

end MountScript
