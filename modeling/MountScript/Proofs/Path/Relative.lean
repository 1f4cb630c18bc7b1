import MountScript.Proofs.Path.Canonical

/-!
# Paths read from a directory

A path that is neither absolute nor the name of a device is read from the current directory. To enter
a directory and read the path there comes to the same as to read the path with the directory written
in front of it: what the directory comes to is worked out first, and `..` goes up from there.
-/

namespace MountScript.Path

def spelledOut (cwd path : List Char) : List Char :=
  if path.head? = some '/' then path else cwd ++ '/' :: path

def Rooted (path : String) : Prop := path.toList.head? = some '/' ∨ isDevice path = true

instance (path : String) : Decidable (Rooted path) :=
  inferInstanceAs (Decidable (path.toList.head? = some '/' ∨ isDevice path = true))

/-- The path as it is written where `dir` is, if it is meant as it is read in `dir`. -/
def via (dir path : String) : String :=
  if Rooted path then path else dir ++ "/" ++ path

variable {dir path : String}

theorem normalize_eq_spelledOut (h : isDevice path = false) (cwd : String) :
    normalize cwd path =
      ofNames (collapse ((spelledOut cwd.toList path.toList).splitOn '/')) := by
  unfold normalize normalizeChars
  split
  · next hcs => simp [isDevice, hcs] at h
  · next hcs => simp [spelledOut, hcs, ofNames]
  · next hslash =>
    have hrelative : path.toList.head? ≠ some '/' := by
      intro hhead
      obtain ⟨rest, hrest⟩ := List.head?_eq_some_iff.mp hhead
      exact hslash rest hrest
    rw [spelledOut, if_neg hrelative]
    rfl

theorem normalize_of_rooted (h : Rooted path) (cwd other : String) :
    normalize cwd path = normalize other path := by
  cases hdevice : isDevice path with
  | true => rw [normalize_of_device hdevice, normalize_of_device hdevice]
  | false =>
    have hslash : path.toList.head? = some '/' := h.resolve_right (by simp [hdevice])
    rw [normalize_eq_spelledOut hdevice, normalize_eq_spelledOut hdevice, spelledOut,
      if_pos hslash, spelledOut, if_pos hslash]

theorem collapse_splitOn_append (front rest : List Char) :
    collapse ((front ++ '/' :: rest).splitOn '/') =
      ((rest.splitOn '/').foldl step (collapse (front.splitOn '/')).reverse).reverse := by
  rw [List.splitOn_append_cons_self, collapse, List.foldl_append, collapse, List.reverse_reverse]

theorem spelledOut_append {front : List Char} (h : front ≠ []) (cwd rest : List Char) :
    spelledOut cwd (front ++ '/' :: rest) = spelledOut cwd front ++ '/' :: rest := by
  obtain ⟨c, cs, rfl⟩ := List.exists_cons_of_ne_nil h
  by_cases hc : c = '/' <;> simp [spelledOut, hc]

theorem via_ne_empty (h : path ≠ "") (dir : String) : via dir path ≠ "" := by
  rw [via]
  split_ifs
  · exact h
  · simp

section Named

variable (named : dir ≠ "") (noDevice : isDevice dir = false)

include named noDevice

theorem isDevice_via (path : String) : isDevice (via dir path) = isDevice path := by
  rw [via]
  split_ifs with hrooted
  · rfl
  · have hplain : isDevice path = false := by simpa using (not_or.mp hrooted).2
    have hfull : dir.toList ≠ [] := by simpa using named
    obtain ⟨c, cs, hcs⟩ := List.exists_cons_of_ne_nil hfull
    rw [hplain, ← noDevice]
    simp [isDevice, hcs]

theorem normalize_via (cwd path : String) :
    normalize cwd (via dir path) = normalize (normalize cwd dir) path := by
  by_cases hrooted : Rooted path
  · rw [via, if_pos hrooted]
    exact normalize_of_rooted hrooted cwd _
  · obtain ⟨hrelative, hplain⟩ := not_or.mp hrooted
    have hdevice := isDevice_via named noDevice path
    have hfull : dir.toList ≠ [] := by simpa using named
    have hnames : ∀ n ∈ collapse ((spelledOut cwd.toList dir.toList).splitOn '/'), IsName n :=
      fun n hn => isName_of_mem_collapse hn
    have hsplit : (via dir path).toList = dir.toList ++ '/' :: path.toList := by
      simp [via, hrooted]
    have hread : ∀ front, spelledOut front path.toList = front ++ '/' :: path.toList :=
      fun front => if_neg hrelative
    rw [Bool.not_eq_true] at hplain
    rw [hplain] at hdevice
    rw [normalize_eq_spelledOut hdevice, normalize_eq_spelledOut hplain, hsplit,
      spelledOut_append hfull, collapse_splitOn_append, normalize_eq_spelledOut noDevice,
      toList_ofNames, hread, collapse_splitOn_append,
      collapse_splitOn_ofComponents hnames]

end Named

end MountScript.Path
