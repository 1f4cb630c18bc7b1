import Mathlib.Data.List.DropRight
import MountScript.Proofs.Text
import MountScript.Space.Path

/-!
# Canonical paths

A canonical path is the root, or a slash followed by names with single slashes between them. Such a
path stands for its list of names and the list for the path. Normalizing gives a canonical path for
everything that is not a device, whatever the current directory is.
-/

namespace MountScript.Path

def Ordinary (part : List Char) : Prop := part ≠ [] ∧ part ≠ ['.'] ∧ part ≠ ['.', '.']

def IsName (part : List Char) : Prop := Ordinary part ∧ '/' ∉ part

def Canonical (path : String) : Prop :=
  path = "/" ∨ ∃ rest, path.toList = '/' :: rest ∧ ∀ part ∈ rest.splitOn '/', Ordinary part

def Proper (path : String) : Prop := isDevice path = true ∨ Canonical path

theorem mem_step {inner : List (List Char)} {part x : List Char} (h : x ∈ step inner part) :
    x ∈ inner ∨ (x = part ∧ Ordinary part) := by
  rw [step] at h
  split at h
  · exact Or.inl h
  · next hplain =>
    split at h
    · exact Or.inl (List.mem_of_mem_tail h)
    · next hup =>
      rcases List.mem_cons.mp h with rfl | h
      · exact Or.inr ⟨rfl, fun he => hplain (Or.inl he), fun he => hplain (Or.inr he), hup⟩
      · exact Or.inl h

theorem mem_foldl_step {parts inner : List (List Char)} {x : List Char}
    (h : x ∈ parts.foldl step inner) : x ∈ inner ∨ (x ∈ parts ∧ Ordinary x) := by
  induction parts generalizing inner with
  | nil => exact Or.inl h
  | cons part parts ih =>
    rcases ih h with h | ⟨hx, ho⟩
    · rcases mem_step h with h | ⟨rfl, ho⟩
      · exact Or.inl h
      · exact Or.inr ⟨List.mem_cons_self, ho⟩
    · exact Or.inr ⟨List.mem_cons_of_mem _ hx, ho⟩

theorem isName_of_mem_collapse {cs x : List Char} (h : x ∈ collapse (cs.splitOn '/')) :
    IsName x := by
  rcases mem_foldl_step (List.mem_reverse.mp h) with h | ⟨hx, ho⟩
  · simp at h
  · exact ⟨ho, Text.not_mem_piece hx⟩

def descent (names : List (List Char)) : List Char := names.flatMap ('/' :: ·)

@[simp] theorem descent_nil : descent [] = [] := rfl

@[simp] theorem descent_cons (name : List Char) (names : List (List Char)) :
    descent (name :: names) = '/' :: (name ++ descent names) := rfl

@[simp] theorem descent_append (names more : List (List Char)) :
    descent (names ++ more) = descent names ++ descent more := by
  simp [descent]

theorem ofComponents_cons (name : List Char) (names : List (List Char)) :
    ofComponents (name :: names) = descent (name :: names) := by
  induction names generalizing name with
  | nil => simp [ofComponents]
  | cons next names ih =>
    have htail := ih next
    simp only [ofComponents, descent_cons, List.cons.injEq, true_and] at htail ⊢
    rw [List.intercalate_cons_cons, htail, List.append_assoc, List.singleton_append]

theorem ofComponents_of_ne_nil {names : List (List Char)} (h : names ≠ []) :
    ofComponents names = descent names := by
  obtain ⟨name, rest, rfl⟩ := List.exists_cons_of_ne_nil h
  exact ofComponents_cons name rest

def ofNames (names : List (List Char)) : String := String.ofList (ofComponents names)

@[simp] theorem toList_ofNames (names : List (List Char)) :
    (ofNames names).toList = ofComponents names :=
  String.toList_ofList

def components (path : List Char) : List (List Char) :=
  (path.splitOn '/').filter (!·.isEmpty)

theorem components_append_slash (path rest : List Char) :
    components (path ++ '/' :: rest) = components path ++ components rest := by
  rw [components, List.splitOn_append_cons_self, List.filter_append]
  rfl

section Names

variable {names : List (List Char)} (hn : ∀ n ∈ names, IsName n)

include hn

theorem splitOn_ofComponents (hne : names ≠ []) :
    (ofComponents names).splitOn '/' = [] :: names := by
  have hsplit := List.splitOn_intercalate '/' (fun n h => (hn n h).2) hne
  rw [ofComponents, List.splitOn_cons_eq_if_modifyHead, hsplit]
  rfl

theorem components_ofComponents : components (ofComponents names) = names := by
  by_cases hne : names = []
  · subst hne
    rfl
  · have hfull : ∀ n ∈ names, (!n.isEmpty) = true := by
      intro n h
      simpa using (hn n h).1.1
    simp [components, splitOn_ofComponents hn hne, List.filter_eq_self.mpr hfull]

theorem foldl_step_names (inner : List (List Char)) :
    names.foldl step inner = names.reverse ++ inner := by
  induction names generalizing inner with
  | nil => rfl
  | cons name names ih =>
    obtain ⟨⟨hfull, hdot, hup⟩, -⟩ := hn name List.mem_cons_self
    have hstep : step inner name = name :: inner := by
      rw [step, if_neg (not_or.mpr ⟨hfull, hdot⟩), if_neg hup]
    rw [List.foldl_cons, hstep, ih fun n h => hn n (List.mem_cons_of_mem _ h)]
    simp

theorem collapse_splitOn_ofComponents : collapse ((ofComponents names).splitOn '/') = names := by
  by_cases hne : names = []
  · subst hne
    rfl
  · rw [splitOn_ofComponents hn hne, collapse, List.foldl_cons, foldl_step_names hn]
    simp [step]

theorem canonical_ofNames : Canonical (ofNames names) := by
  by_cases hne : names = []
  · exact Or.inl (by rw [hne]; rfl)
  · refine Or.inr ⟨['/'].intercalate names, by simp [ofComponents], fun part hp => ?_⟩
    rw [List.splitOn_intercalate '/' (fun n h => (hn n h).2) hne] at hp
    exact (hn part hp).1

end Names

theorem exists_names {path : String} (h : Canonical path) :
    ∃ names, (∀ n ∈ names, IsName n) ∧ path = ofNames names := by
  rcases h with rfl | ⟨rest, hpath, hparts⟩
  · exact ⟨[], by simp, rfl⟩
  · refine ⟨rest.splitOn '/', fun n h => ⟨hparts n h, Text.not_mem_piece h⟩, ?_⟩
    rw [ofNames, ofComponents, List.intercalate_splitOn, ← hpath, String.ofList_toList]

theorem not_device_of_canonical {path : String} (h : Canonical path) : isDevice path = false := by
  obtain ⟨names, -, rfl⟩ := exists_names h
  simp [isDevice, ofComponents]

theorem normalize_of_device {path : String} (h : isDevice path = true) (cwd : String) :
    normalize cwd path = path := by
  obtain ⟨cs, hcs⟩ : ∃ cs, path.toList = '#' :: cs := by
    simpa [isDevice, List.head?_eq_some_iff] using h
  have hchars : normalizeChars cwd.toList path.toList = path.toList := by simp [hcs, normalizeChars]
  rw [normalize, hchars, String.ofList_toList]

theorem canonical_normalize {path : String} (h : isDevice path = false) (cwd : String) :
    Canonical (normalize cwd path) := by
  unfold normalize normalizeChars
  split
  · next hcs => simp [isDevice, hcs] at h
  · exact canonical_ofNames fun _ hx => isName_of_mem_collapse hx
  · exact canonical_ofNames fun _ hx => isName_of_mem_collapse hx

theorem normalize_of_canonical {path : String} (h : Canonical path) (cwd : String) :
    normalize cwd path = path := by
  obtain ⟨names, hn, rfl⟩ := exists_names h
  have hchars : normalizeChars cwd.toList (ofComponents names) =
      ofComponents (collapse ((ofComponents names).splitOn '/')) := rfl
  rw [normalize, toList_ofNames, hchars, collapse_splitOn_ofComponents hn, ofNames]

theorem normalize_of_proper {path : String} (h : Proper path) (cwd : String) :
    normalize cwd path = path :=
  h.elim (fun hd => normalize_of_device hd cwd) fun hc => normalize_of_canonical hc cwd

theorem proper_normalize (cwd path : String) : Proper (normalize cwd path) := by
  cases h : isDevice path with
  | true => exact Or.inl (by rw [normalize_of_device h, h])
  | false => exact Or.inr (canonical_normalize h cwd)

end MountScript.Path
