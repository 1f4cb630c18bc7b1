/-!
# Maps on paths

A finite map whose keys are texts, kept as a list in the order of the keys. The order makes the
list canonical: two maps that look up alike are equal.
-/

namespace MountScript

structure PathMap (α : Type) where
  entries : List (String × α)
  sorted : entries.Pairwise fun a b => a.1 < b.1
deriving DecidableEq

namespace PathMap

variable {α : Type}

def lookup (key : String) : List (String × α) → Option α
  | [] => none
  | (k, v) :: rest => if k = key then some v else lookup key rest

def insertEntry (key : String) (value : α) : List (String × α) → List (String × α)
  | [] => [(key, value)]
  | (k, v) :: rest =>
    if key < k then (key, value) :: (k, v) :: rest
    else if key = k then (key, value) :: rest
    else (k, v) :: insertEntry key value rest

theorem mem_insertEntry {key : String} {value : α} {e : String × α} {l : List (String × α)}
    (h : e ∈ insertEntry key value l) : e = (key, value) ∨ e ∈ l := by
  induction l with
  | nil => simpa [insertEntry] using h
  | cons hd tl ih => grind [insertEntry]

theorem pairwise_insertEntry (key : String) (value : α) {l : List (String × α)}
    (h : l.Pairwise fun a b => a.1 < b.1) :
    (insertEntry key value l).Pairwise fun a b => a.1 < b.1 := by
  induction l with
  | nil => simp [insertEntry]
  | cons hd tl ih =>
    obtain ⟨k, v⟩ := hd
    obtain ⟨hk, ht⟩ := List.pairwise_cons.mp h
    rw [insertEntry]
    split
    · next hlt =>
      refine List.pairwise_cons.mpr ⟨fun e he => ?_, h⟩
      rcases List.mem_cons.mp he with rfl | he
      · exact hlt
      · exact String.lt_trans hlt (hk e he)
    · next hlt =>
      split
      · next heq =>
        subst heq
        exact List.pairwise_cons.mpr ⟨hk, ht⟩
      · next hne =>
        refine List.pairwise_cons.mpr ⟨fun e he => ?_, ih ht⟩
        rcases mem_insertEntry he with rfl | he
        · exact Std.lt_of_le_of_ne (String.not_lt.mp hlt) (Ne.symm hne)
        · exact hk e he

def empty : PathMap α := ⟨[], .nil⟩

def find? (m : PathMap α) (key : String) : Option α := lookup key m.entries

def insert (m : PathMap α) (key : String) (value : α) : PathMap α :=
  ⟨insertEntry key value m.entries, pairwise_insertEntry key value m.sorted⟩

def erase (m : PathMap α) (key : String) : PathMap α :=
  ⟨m.entries.filter fun e => e.1 ≠ key, m.sorted.filter _⟩

def keys (m : PathMap α) : List String := m.entries.map Prod.fst

theorem lookup_eq_none {key : String} {l : List (String × α)} (h : ∀ e ∈ l, e.1 ≠ key) :
    lookup key l = none := by
  induction l with
  | nil => rfl
  | cons hd tl ih => grind [lookup]

theorem mem_of_lookup {key : String} {value : α} {l : List (String × α)}
    (h : lookup key l = some value) : (key, value) ∈ l := by
  induction l with
  | nil => simp [lookup] at h
  | cons hd tl ih => grind [lookup]

theorem lookup_of_mem {l : List (String × α)} (hs : l.Pairwise fun a b => a.1 < b.1)
    {e : String × α} (h : e ∈ l) : lookup e.1 l = some e.2 := by
  induction l with
  | nil => simp at h
  | cons hd tl ih =>
    obtain ⟨hk, ht⟩ := List.pairwise_cons.mp hs
    rcases List.mem_cons.mp h with rfl | h
    · simp [lookup]
    · have hne : hd.1 ≠ e.1 := fun heq => String.lt_irrefl e.1 (by simpa [heq] using hk e h)
      simp [lookup, hne, ih ht h]

theorem mem_entries_iff {m : PathMap α} {key : String} {value : α} :
    (key, value) ∈ m.entries ↔ m.find? key = some value :=
  ⟨fun h => lookup_of_mem m.sorted h, mem_of_lookup⟩

theorem mem_keys_iff {m : PathMap α} {key : String} :
    key ∈ m.keys ↔ ∃ value, m.find? key = some value := by
  constructor
  · intro h
    obtain ⟨e, he, rfl⟩ := List.mem_map.mp h
    exact ⟨e.2, mem_entries_iff.mp he⟩
  · rintro ⟨value, h⟩
    exact List.mem_map.mpr ⟨(key, value), mem_entries_iff.mpr h, rfl⟩

theorem mem_keys_congr {m n : PathMap α} {key : String} (h : m.find? key = n.find? key) :
    key ∈ m.keys ↔ key ∈ n.keys := by
  rw [mem_keys_iff, mem_keys_iff, h]

theorem ne_of_find?_eq_none {m : PathMap α} {key : String} (h : m.find? key = none)
    {e : String × α} (he : e ∈ m.entries) : e.1 ≠ key := by
  rintro rfl
  have hfound := mem_entries_iff.mp he
  simp [h] at hfound

@[simp] theorem find?_empty (key : String) : (empty : PathMap α).find? key = none := rfl

theorem find?_insert (m : PathMap α) (key : String) (value : α) (other : String) :
    (m.insert key value).find? other = if key = other then some value else m.find? other := by
  simp only [find?, insert]
  induction m.entries with
  | nil => simp [insertEntry, lookup]
  | cons hd tl ih =>
    obtain ⟨k, v⟩ := hd
    rw [insertEntry]
    split
    · simp [lookup]
    · split
      · next heq => subst heq; by_cases h : key = other <;> simp [lookup, h]
      · next hne =>
        by_cases h : k = other
        · subst h; simp [lookup, hne]
        · simp [lookup, h, ih]

theorem find?_erase (m : PathMap α) (key other : String) :
    (m.erase key).find? other = if key = other then none else m.find? other := by
  simp only [find?, erase]
  induction m.entries with
  | nil => simp [lookup]
  | cons hd tl ih =>
    by_cases hk : hd.1 = key <;> by_cases h : hd.1 = other <;> grind [lookup]

theorem ext_find? {m n : PathMap α} (h : ∀ key, m.find? key = n.find? key) : m = n := by
  obtain ⟨l₁, s₁⟩ := m
  obtain ⟨l₂, s₂⟩ := n
  simp only [find?] at h
  congr 1
  induction l₁ generalizing l₂ with
  | nil =>
    cases l₂ with
    | nil => rfl
    | cons b _ => have := h b.1; simp [lookup] at this
  | cons a t₁ ih =>
    cases l₂ with
    | nil => have := h a.1; simp [lookup] at this
    | cons b t₂ =>
      obtain ⟨ha, st₁⟩ := List.pairwise_cons.mp s₁
      obtain ⟨hb, st₂⟩ := List.pairwise_cons.mp s₂
      have inBoth : a.1 = b.1 := by
        have h₁ := h a.1
        have h₂ := h b.1
        simp only [lookup, if_true] at h₁ h₂
        by_cases e : b.1 = a.1
        · exact e.symm
        · rw [if_neg e] at h₁
          rw [if_neg (Ne.symm e)] at h₂
          exact absurd (hb _ (mem_of_lookup h₁.symm))
            (String.lt_asymm (ha _ (mem_of_lookup h₂)))
      have sameValue : a.2 = b.2 := by
        have h₁ := h a.1
        simpa [lookup, inBoth] using h₁
      have tails : t₁ = t₂ := by
        refine ih st₁ t₂ st₂ fun key => ?_
        have hk := h key
        by_cases e : a.1 = key
        · subst e
          rw [lookup_eq_none fun e he heq => String.lt_irrefl a.1 (by simpa [heq] using ha e he),
            lookup_eq_none fun e he heq => String.lt_irrefl a.1 (by
              have := hb e he
              rwa [heq, ← inBoth] at this)]
        · simpa [lookup, e, inBoth ▸ e] using hk
      rw [tails, Prod.ext inBoth sameValue]

end PathMap
end MountScript
