import MountScript.Proofs.Path.Relative

/-!
# Paths read from right to left

Reading a path from its end shows which of its names stay: every `..` takes away the nearest name to
its left that nothing has taken yet, and those that find none are lost at the root. Normalizing
writes out the names that stay, and so it leaves alone the paths that are written that way.
-/

namespace MountScript.Path

/-- The names that stay of the parts from right to left, where `ups` times `..` was passed that has
not taken a name yet. -/
def survivorsLeftward (ups : Nat) : List (List Char) → List (List Char)
  | [] => []
  | part :: left =>
    if part = [] ∨ part = ['.'] then survivorsLeftward ups left
    else if part = ['.', '.'] then survivorsLeftward (ups + 1) left
    else if ups = 0 then part :: survivorsLeftward 0 left
    else survivorsLeftward (ups - 1) left

def survivors (parts : List (List Char)) : List (List Char) :=
  (survivorsLeftward 0 parts.reverse).reverse

theorem survivorsLeftward_reverse (parts : List (List Char)) (ups : Nat) :
    survivorsLeftward ups parts.reverse = (parts.foldl step []).drop ups := by
  induction parts using List.reverseRecOn generalizing ups with
  | nil => simp [survivorsLeftward]
  | append_singleton parts part ih =>
    rw [List.reverse_concat, survivorsLeftward, List.foldl_concat, step]
    by_cases plain : part = [] ∨ part = ['.']
    · rw [if_pos plain, if_pos plain, ih]
    · rw [if_neg plain, if_neg plain]
      by_cases up : part = ['.', '.']
      · rw [if_pos up, if_pos up, ih, List.drop_tail]
      · rw [if_neg up, if_neg up]
        cases ups with
        | zero => simp [ih]
        | succ ups => simp [ih]

theorem collapse_eq_survivors (parts : List (List Char)) : collapse parts = survivors parts := by
  rw [collapse, survivors, survivorsLeftward_reverse, List.drop_zero]

theorem ofNames_eq_intercalate (names : List (List Char)) :
    ofNames names = "/" ++ "/".intercalate (names.map String.ofList) := by
  apply String.toList_injective
  rw [toList_ofNames, ofComponents, String.toList_append, String.toList_intercalate]
  simp

theorem getLast?_of_canonical {path : String} (h : Canonical path) :
    path.toList.getLast? = some '/' ↔ path = "/" := by
  constructor
  · intro hlast
    rcases h with root | ⟨rest, hpath, ordinary⟩
    · exact root
    · by_cases hempty : rest = []
      · have hpart := ordinary [] (by simp [hempty])
        exact absurd rfl hpart.1
      · -- A slash at the end would leave an empty part behind it.
        rw [hpath, List.getLast?_cons_of_ne_nil hempty] at hlast
        obtain ⟨front, hfront⟩ := List.getLast?_eq_some_iff.mp hlast
        have hsplit : rest.splitOn '/' = front.splitOn '/' ++ [[]] := by
          rw [hfront, List.splitOn_append_cons_self]
          rfl
        have hpart := ordinary [] (by simp [hsplit])
        exact absurd rfl hpart.1
  · intro root
    rw [root]
    rfl

/-- Normalizing resolves a path as it reads from right to left, in a form without `.`, `..` and
needless slashes. It changes nothing exactly if the path is a device or has that form. -/
theorem normalize_from_right :
    (∀ cwd path : String, isDevice path = false →
      normalize cwd path = "/" ++ "/".intercalate
        ((survivors ((spelledOut cwd.toList path.toList).splitOn '/')).map String.ofList) ∧
      Canonical (normalize cwd path) ∧
      ((normalize cwd path).toList.getLast? = some '/' ↔ normalize cwd path = "/")) ∧
    (∀ cwd path : String, normalize cwd path = path ↔ isDevice path = true ∨ Canonical path) ∧
    ∀ cwd other path : String, normalize other (normalize cwd path) = normalize cwd path := by
  refine ⟨fun cwd path plain => ?_, fun cwd path => ?_, fun cwd other path => ?_⟩
  · have hcanonical := canonical_normalize plain cwd
    refine ⟨?_, hcanonical, getLast?_of_canonical hcanonical⟩
    rw [normalize_eq_spelledOut plain, collapse_eq_survivors, ofNames_eq_intercalate]
  · constructor
    · intro same
      have hproper := proper_normalize cwd path
      rwa [same] at hproper
    · intro hproper
      exact normalize_of_proper hproper cwd
  · exact normalize_of_proper (proper_normalize cwd path) other

theorem normalize_from_right_relative :
    let cwd := "usr/../..//lib/./"
    let path := "a/../../../x//./..../y/../../z/."
    isDevice path = false ∧ normalize cwd path = "/x/z" ∧
      normalize cwd path = "/" ++ "/".intercalate
        ((survivors ((spelledOut cwd.toList path.toList).splitOn '/')).map String.ofList) ∧
      Canonical (normalize cwd path) ∧
      ((normalize cwd path).toList.getLast? = some '/' ↔ normalize cwd path = "/") := by
  intro cwd path
  have plain : isDevice path = false := by decide +kernel
  exact ⟨plain, by decide +kernel, normalize_from_right.1 cwd path plain⟩

end MountScript.Path
