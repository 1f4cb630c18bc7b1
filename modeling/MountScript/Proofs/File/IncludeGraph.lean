import Mathlib.Data.List.Chain
import Mathlib.Data.List.Nodup
import Mathlib.Logic.Relation
import MountScript.File.Build

/-!
# The graph of includes

One file includes another if an include of its script names it, under whatever name. The graph of
all includes that can be reached from a top-level file says nothing of how often or in which order
files are included.
-/

namespace MountScript

section Chains

variable {α : Type} {R : α → α → Prop} {start : α}

theorem isChain_append_cons {first second : List α} {a b : α} (h₁ : List.IsChain R first)
    (hlast : first.getLast? = some a) (h₂ : List.IsChain R (b :: second)) (hab : R a b) :
    List.IsChain R (first ++ b :: second) :=
  h₁.append h₂ (by simpa [hlast] using hab)

theorem acyclic_iff_nodup :
    (∀ x, Relation.ReflTransGen R start x → ¬Relation.TransGen R x x) ↔
      ∀ chain, List.IsChain R (start :: chain) → (start :: chain).Nodup := by
  constructor
  · intro acyclic chain hchain
    have hpairs : (start :: chain).Pairwise (Relation.TransGen R) :=
      List.isChain_iff_pairwise.mp (hchain.imp fun _ _ => .single)
    refine hpairs.imp_of_mem fun {x y} hx _ hxy heq => ?_
    have hreach : Relation.ReflTransGen R start x := by
      rcases List.mem_cons.mp hx with rfl | hx
      · exact .refl
      · exact ((List.pairwise_cons.mp hpairs).1 x hx).to_reflTransGen
    exact acyclic x hreach (heq ▸ hxy)
  · intro nodup x hreach hcycle
    obtain ⟨y, hxy, hyx⟩ := Relation.TransGen.head'_iff.mp hcycle
    obtain ⟨before, hbefore, hx⟩ := List.exists_isChain_cons_of_relationReflTransGen hreach
    obtain ⟨after, hafter, hx'⟩ := List.exists_isChain_cons_of_relationReflTransGen hyx
    have hlast : (start :: before).getLast? = some x := by
      rw [List.getLast?_eq_some_getLast (List.cons_ne_nil _ _), hx]
    have hnodup : ((start :: before) ++ y :: after).Nodup :=
      nodup _ (isChain_append_cons hbefore hlast hafter hxy)
    exact hnodup.disjoint (hx ▸ List.getLast_mem _) (hx' ▸ List.getLast_mem _)

end Chains

theorem toOption_eq_some_iff {ε α : Type} {result : Except ε α} {a : α} :
    result.toOption = some a ↔ result = .ok a := by
  cases result <;> simp [Except.toOption]

/-- A top-level file, the usual one if none is named, and what decides which files it includes. -/
structure IncludeGraph where
  files : FileSystem
  settings : Settings
  file : Option String

namespace IncludeGraph

variable (g : IncludeGraph)

def path : String := g.file.getD g.settings.namespaceFile

def root : Option String := (g.files.canonical g.path).toOption

def script? (node : Option String) : Option Script :=
  if node = g.root then (g.files.parseFile g.path).toOption
  else node.bind fun file => (g.files.parseFile file).toOption

def target (operand : String) : Except ReadFailure String :=
  g.files.canonical ((FileLoader.ofSettings g.files g.settings).resolve operand)

def Named (script : Script) (file : String) : Prop :=
  ∃ op ∈ script, ∃ operand, op.action = .includeScript ∧ op.operands = [operand] ∧
    g.target operand = .ok file

def Includes (a b : Option String) : Prop :=
  ∃ script file, g.script? a = some script ∧ g.Named script file ∧ b = some file

def Reaches : Option String → Prop := Relation.ReflTransGen g.Includes g.root

def IncludeChain (chain : List (Option String)) : Prop := List.IsChain g.Includes (g.root :: chain)

def Acyclic : Prop := ∀ node, g.Reaches node → ¬Relation.TransGen g.Includes node node

def WithinLimit : Prop :=
  ∀ chain, g.IncludeChain chain → chain.length ≤ g.settings.maxIncludeDepth

/-- Nothing but its includes can be wrong with a file that is reached. -/
structure Complete : Prop where
  parses : ∀ node, g.Reaches node → ∃ script, g.script? node = some script
  arity : ∀ node script, g.Reaches node → g.script? node = some script →
    ∀ op ∈ script, op.action.arity.admits op.operands.length
  found : ∀ node script, g.Reaches node → g.script? node = some script →
    ∀ op ∈ script, ∀ operand, op.action = .includeScript → op.operands = [operand] →
      ∃ file, g.target operand = .ok file

variable {g}

theorem accepted_mono {other : IncludeGraph} (root : other.root = g.root)
    (limit : g.settings.maxIncludeDepth ≤ other.settings.maxIncludeDepth)
    (includes : ∀ a b, other.Includes a b → g.Includes a b) (h : g.Acyclic ∧ g.WithinLimit) :
    other.Acyclic ∧ other.WithinLimit := by
  obtain ⟨acyclic, within⟩ := h
  constructor
  · intro node hreach hcycle
    have hreach' : g.Reaches node := by
      rw [Reaches, ← root]
      exact Relation.ReflTransGen.mono includes _ _ hreach
    exact acyclic node hreach' (Relation.TransGen.mono includes _ _ hcycle)
  · intro chain hchain
    have hchain' : g.IncludeChain chain := by
      rw [IncludeChain, ← root]
      exact List.IsChain.imp includes hchain
    exact (within chain hchain').trans limit

section Closed

variable {nodes : List (Option String)} {node : Option String} {script : Script}

variable (g) in
def covers (nodes : List (Option String)) (op : Operation) : Bool :=
  match op.request? with
  | none => false
  | some (.call _) => true
  | some (.includeScript operand) =>
    match g.target operand with
    | .error _ => false
    | .ok file => nodes.contains (some file)

variable (g) in
def closed (nodes : List (Option String)) : Bool :=
  nodes.contains g.root && nodes.all fun node =>
    match g.script? node with
    | none => false
    | some script => script.all (g.covers nodes)

theorem target_of_covers {op : Operation} {operand : String} (h : g.covers nodes op)
    (asks : op.request? = some (.includeScript operand)) :
    ∃ file, g.target operand = .ok file ∧ some file ∈ nodes := by
  rw [covers, asks] at h
  cases htarget : g.target operand with
  | error cause => simp [htarget] at h
  | ok file => exact ⟨file, rfl, by simpa [htarget] using h⟩

theorem script_of_mem (h : g.closed nodes) (hnode : node ∈ nodes) :
    ∃ script, g.script? node = some script ∧ ∀ op ∈ script, g.covers nodes op := by
  have hall := List.all_eq_true.mp (Bool.and_eq_true_iff.mp h).2 node hnode
  cases hscript : g.script? node with
  | none => simp [hscript] at hall
  | some script => exact ⟨script, rfl, by simpa [hscript] using hall⟩

theorem mem_of_reaches (h : g.closed nodes) (hreach : g.Reaches node) : node ∈ nodes := by
  induction hreach with
  | refl => exact List.contains_iff_mem.mp (Bool.and_eq_true_iff.mp h).1
  | tail _ hincludes ih =>
    obtain ⟨script, file, hscript, ⟨op, hop, operand, action, operands, htarget⟩, rfl⟩ := hincludes
    obtain ⟨found, hfound, hcovers⟩ := script_of_mem h ih
    obtain rfl := Option.some.inj (hscript.symm.trans hfound)
    obtain ⟨other, hother, hmem⟩ := target_of_covers (hcovers op hop)
      (Operation.request?_eq_includeScript_iff.mpr ⟨action, operands⟩)
    obtain rfl := Except.ok.inj (htarget.symm.trans hother)
    exact hmem

theorem covers_of_reaches (h : g.closed nodes) (hreach : g.Reaches node)
    (hscript : g.script? node = some script) : ∀ op ∈ script, g.covers nodes op := by
  obtain ⟨found, hfound, hcovers⟩ := script_of_mem h (mem_of_reaches h hreach)
  obtain rfl := Option.some.inj (hscript.symm.trans hfound)
  exact hcovers

theorem complete_of_closed (nodes : List (Option String)) (h : g.closed nodes) : g.Complete where
  parses node hreach := by
    obtain ⟨script, hscript, -⟩ := script_of_mem h (mem_of_reaches h hreach)
    exact ⟨script, hscript⟩
  arity node script hreach hscript op hop := by
    have hcover := covers_of_reaches h hreach hscript op hop
    by_contra hcount
    simp [covers, Operation.request?_eq_none_iff.mpr hcount] at hcover
  found node script hreach hscript op hop operand action operands := by
    obtain ⟨file, htarget, -⟩ := target_of_covers (covers_of_reaches h hreach hscript op hop)
      (Operation.request?_eq_includeScript_iff.mpr ⟨action, operands⟩)
    exact ⟨file, htarget⟩

end Closed

end IncludeGraph

end MountScript
