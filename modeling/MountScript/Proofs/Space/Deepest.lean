import MountScript.Proofs.Path.Below
import MountScript.Space.MountTable

/-!
# The deepest mount point over a path

The search over the entries of a table finds an entry that covers the path if there is one, and one
with the longest key. All keys that cover a path begin it, so the longest of them is unique.
-/

namespace MountScript.MountTable

variable {path : String} {entries : List (String × List Member)} {entry : String × List Member}

theorem deepest?_eq_none_iff :
    deepest? path entries = none ↔ ∀ e ∈ entries, Path.covers e.1 path = false := by
  induction entries with
  | nil => simp [deepest?]
  | cons first entries ih =>
    rw [deepest?]
    cases hd : deepest? path entries with
    | none =>
      have hrest := ih.mp hd
      simpa using fun _ => hrest
    | some best =>
      have hrest : ¬∀ e ∈ entries, Path.covers e.1 path = false := by
        rw [← ih, hd]
        simp
      dsimp only
      split
      · simpa using fun _ => hrest
      · simpa using fun _ => hrest

theorem longest_of_deepest? (h : deepest? path entries = some entry) :
    entry ∈ entries ∧ Path.covers entry.1 path = true ∧
      ∀ e ∈ entries, Path.covers e.1 path = true → e.1.length ≤ entry.1.length := by
  induction entries generalizing entry with
  | nil => simp [deepest?] at h
  | cons first entries ih =>
    rw [deepest?] at h
    cases hd : deepest? path entries with
    | none =>
      have hrest := deepest?_eq_none_iff.mp hd
      rw [hd] at h
      dsimp only at h
      split at h
      · next hc =>
        obtain rfl := Option.some.inj h
        refine ⟨List.mem_cons_self, hc, fun e he hce => ?_⟩
        rcases List.mem_cons.mp he with rfl | he
        · exact Nat.le_refl _
        · simp [hrest e he] at hce
      · simp at h
    | some best =>
      obtain ⟨hmem, hcover, hlongest⟩ := ih hd
      rw [hd] at h
      dsimp only at h
      split at h
      · next hc =>
        obtain rfl := Option.some.inj h
        refine ⟨List.mem_cons_self, hc.1, fun e he hce => ?_⟩
        rcases List.mem_cons.mp he with rfl | he
        · exact Nat.le_refl _
        · have hle := hlongest e he hce
          omega
      · next hc =>
        obtain rfl := Option.some.inj h
        refine ⟨List.mem_cons_of_mem _ hmem, hcover, fun e he hce => ?_⟩
        rcases List.mem_cons.mp he with rfl | he
        · exact Nat.not_lt.mp fun hlt => hc ⟨hce, hlt⟩
        · exact hlongest e he hce

theorem deepest?_congr {other : String}
    (h : ∀ e ∈ entries, Path.covers e.1 path = Path.covers e.1 other) :
    deepest? path entries = deepest? other entries := by
  induction entries with
  | nil => rfl
  | cons first entries ih =>
    rw [deepest?, deepest?, ih fun e he => h e (List.mem_cons_of_mem _ he),
      h first List.mem_cons_self]

theorem eq_of_covers_of_length {point other : String} (hp : Path.covers point path = true)
    (ho : Path.covers other path = true) (hl : point.length = other.length) : point = other := by
  have hchars : point.toList.length = other.toList.length := by simp only [String.length_toList, hl]
  have hbegin := List.prefix_of_prefix_length_le (Path.prefix_of_covers hp)
    (Path.prefix_of_covers ho) (Nat.le_of_eq hchars)
  exact String.toList_injective (hbegin.eq_of_length hchars)

theorem deepest?_eq_some_iff {unions : PathMap (List Member)} {point : String}
    {members : List Member} :
    deepest? path unions.entries = some (point, members) ↔
      unions.find? point = some members ∧ Path.covers point path = true ∧
        ∀ other ∈ unions.keys, Path.covers other path = true →
          other = point ∨ other.length < point.length := by
  constructor
  · intro h
    obtain ⟨hmem, hcover, hlongest⟩ := longest_of_deepest? h
    refine ⟨PathMap.mem_entries_iff.mp hmem, hcover, fun other ho hc => ?_⟩
    obtain ⟨e, he, rfl⟩ := List.mem_map.mp ho
    by_cases hl : e.1.length = point.length
    · exact Or.inl (eq_of_covers_of_length hc hcover hl)
    · exact Or.inr (Nat.lt_of_le_of_ne (hlongest e he hc) hl)
  · rintro ⟨hfind, hcover, hlongest⟩
    have hentry : (point, members) ∈ unions.entries := PathMap.mem_entries_iff.mpr hfind
    cases hd : deepest? path unions.entries with
    | none =>
      have hfree := deepest?_eq_none_iff.mp hd _ hentry
      simp [hcover] at hfree
    | some best =>
      obtain ⟨hmem, hbest, hmost⟩ := longest_of_deepest? hd
      rcases hlongest best.1 (List.mem_map_of_mem hmem) hbest with he | hlt
      · have hsame : unions.find? best.1 = some best.2 := PathMap.mem_entries_iff.mp hmem
        rw [he, hfind] at hsame
        rw [← he, Option.some.inj hsame]
      · exact absurd hlt (Nat.not_lt.mpr (hmost _ hentry hcover))

end MountScript.MountTable
