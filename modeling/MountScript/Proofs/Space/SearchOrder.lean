import Mathlib.Data.List.DropRight
import MountScript.Proofs.Space.Answers

/-!
# The search order of a union

What calls attach to a mount point, over any run of calls that takes nothing away there, determines
the union: the last attachment that replaced it, or what was found there at first, stands in the
middle. Members put in front since then come before it, the latest one first, and members put at the
end come after it, the latest one last.
-/

namespace MountScript

namespace Attachment

def isReplace (a : Attachment) : Bool := a.placement.isReplace

def inFront (a : Attachment) : Bool := a.placement.before && !a.placement.after

def atEnd (a : Attachment) : Bool := a.placement.after

def searchOrder (base : List Member) (made : List Attachment) : List Member :=
  let later := made.rtakeWhile (!·.isReplace)
  let front := (later.filter inFront).map member
  let back := (later.filter atEnd).map member
  let middle := ((made.filter isReplace).getLast?.map fun a => [a.member]).getD base
  front.reverse ++ middle ++ back

@[simp] theorem searchOrder_nil (base : List Member) : searchOrder base [] = base := by
  simp [searchOrder]

theorem searchOrder_concat (base : List Member) (made : List Attachment) (a : Attachment) :
    searchOrder base (made ++ [a]) = a.joined (searchOrder base made) := by
  rcases a with ⟨target, m, ⟨before, after, create, cache⟩⟩
  simp only [searchOrder, List.rtakeWhile_concat, joined]
  cases after <;> cases before <;>
    simp [isReplace, inFront, atEnd, Placement.isReplace, Placement.position, List.filter_cons]

def mounted (target : String) (found : Option (List Member)) (a : Attachment) :
    Option (List Member) :=
  some (a.joined (found.getD [.underlying target]))

theorem foldl_mounted (target : String) (found : Option (List Member)) (made : List Attachment) :
    made.foldl (mounted target) found =
      if made = [] then found
      else some (searchOrder (found.getD [.underlying target]) made) := by
  induction made using List.reverseRecOn with
  | nil => rfl
  | append_singleton made a ih =>
    have hne : made ++ [a] ≠ [] := by simp
    rw [List.foldl_append, ih, if_neg hne, searchOrder_concat, List.foldl_cons, List.foldl_nil]
    by_cases hmade : made = [] <;> simp [hmade, mounted]

end Attachment

namespace MountTable

open NameSpace (performAll)

def attachments (t : MountTable) : List Call → List Attachment
  | [] => []
  | call :: calls =>
    match t.apply call with
    | .error _ => attachments t calls
    | .ok after => (t.attachment? call).toList ++ attachments after calls

def attachedTo (t : MountTable) (target : String) (calls : List Call) : List Attachment :=
  (t.attachments calls).filter fun a => a.target = target

def Detaches (t : MountTable) (target : String) : Call → Prop
  | .unmount _ old => t.place old = target
  | .clear => True
  | .bind .. | .mount .. | .changeDir .. | .importTree .. => False

/-- Of the calls, each made to the table that those before it left, none detaches from `target`. -/
def Keeps (target : String) (t : MountTable) : List Call → Prop
  | [] => True
  | call :: calls => ¬t.Detaches target call ∧ Keeps target (NameSpace.perform call t).2 calls

instance (t : MountTable) (target : String) : (call : Call) → Decidable (t.Detaches target call)
  | .unmount _ old => inferInstanceAs (Decidable (t.place old = target))
  | .clear => inferInstanceAs (Decidable True)
  | .bind .. | .mount .. | .changeDir .. | .importTree .. => inferInstanceAs (Decidable False)

instance decidableKeeps (target : String) :
    (t : MountTable) → (calls : List Call) → Decidable (Keeps target t calls)
  | _, [] => inferInstanceAs (Decidable True)
  | t, call :: calls =>
    have := decidableKeeps target (NameSpace.perform call t).2 calls
    inferInstanceAs (Decidable (¬t.Detaches target call ∧ Keeps target _ calls))

variable {t t' : MountTable} {target : String} {call : Call} {calls : List Call}

theorem Changes.find?_eq (h : Changes t call t') (keeps : ¬t.Detaches target call) :
    t'.unions.find? target =
      ((t.attachment? call).toList.filter fun a => a.target = target).foldl
        (Attachment.mounted target) (t.unions.find? target) := by
  cases h with
  | @attach _ point m p asks =>
    rw [asks, find?_attach]
    by_cases htarget : point = target
    · subst htarget
      simp [Attachment.mounted, seeded]
    · simp [htarget]
  | unmountAll => simp [attachment?, find?_dropUnion, show t.place _ ≠ target from keeps]
  | unmountLast => simp [attachment?, find?_dropUnion, show t.place _ ≠ target from keeps]
  | unmountSome => simp [attachment?, find?_setUnion, show t.place _ ≠ target from keeps]
  | clear => exact absurd trivial keeps
  | changeDir => rfl

theorem find?_performAll (keeps : Keeps target t calls) :
    (performAll t calls).unions.find? target =
      (t.attachedTo target calls).foldl (Attachment.mounted target) (t.unions.find? target) := by
  induction calls generalizing t with
  | nil => rfl
  | cons call calls ih =>
    obtain ⟨keep, keeps⟩ := keeps
    rw [NameSpace.performAll_cons, attachedTo, attachments]
    cases h : t.apply call with
    | error refusal =>
      rw [perform_of_error h] at keeps ⊢
      exact ih keeps
    | ok after =>
      rw [perform_of_ok h] at keeps ⊢
      rw [ih keeps, (changes_of_apply h).find?_eq keep, List.filter_append, List.foldl_append]
      rfl

/-- After calls of which none detaches from it, a mount point to which they attached nothing has the
union it had. To any other they gave the search order of what they attached, around the union that it
had or else the directory itself. -/
theorem union?_performAll (proper : Path.Proper target) (keeps : Keeps target t calls) :
    (performAll t calls).union? target =
      if t.attachedTo target calls = [] then t.union? target
      else some (Attachment.searchOrder ((t.union? target).getD [.underlying target])
        (t.attachedTo target calls)) := by
  have hplace : ∀ s : MountTable, s.union? target = s.unions.find? target := fun s => by
    rw [union?, place, Path.normalize_of_proper proper]
  rw [hplace, hplace, find?_performAll keeps, Attachment.foldl_mounted]

theorem union?_performAll_mixed :
    let t := performAll empty [.bind "/x" "/n" .replace, .changeDir "/n/lib"]
    let calls : List Call :=
      [.bind "/a" ".." ⟨true, false, true, true⟩, .importTree "" none "/n" .replace,
        .mount "#s/boot" "/n/" (some "") ⟨true, true, false, true⟩, .unmount none "/free",
        .importTree "helix" none "../../n" ⟨false, false, true, false⟩, .changeDir "/",
        .bind "y" "n" ⟨true, false, false, false⟩, .bind "z" "./n" ⟨false, true, false, false⟩,
        .bind "w" "n" ⟨true, false, true, false⟩, .unmount (some "y") "lib"]
    Path.Proper "/n" ∧ Keeps "/n" t calls ∧ t.union? "/n" = some [⟨.path "/x", false, false⟩] ∧
      (performAll t (calls.take 4)).union? "/n" =
        some [⟨.path "/a", true, false⟩, ⟨.path "/x", false, false⟩,
          ⟨.service "#s/boot" none, false, true⟩] ∧
      (performAll t calls).union? "/n" =
        some [⟨.path "/w", true, false⟩, ⟨.path "/y", false, false⟩,
          ⟨.remote "helix" "/", true, false⟩, ⟨.path "/z", false, false⟩] := by
  intro t calls
  have proper : Path.Proper "/n" := Path.proper_normalize "/" "/n"
  have keeps : Keeps "/n" t calls := by decide +kernel
  refine ⟨proper, keeps, by decide +kernel, ?_, ?_⟩
  · decide +kernel
  · rw [union?_performAll proper keeps]
    decide +kernel

end MountTable
end MountScript
