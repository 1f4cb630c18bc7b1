import MountScript.Proofs.Space.Resolution

/-!
# Where a new file is found

A file made in a mount point goes to a member of its union, and a file made under no mount point
stays where it is. Both are found where they were made. In between the two ways part: a directory
below a mount point is its own place for new files, but it is looked up in the members mounted
above it. So it is found only if one of these members leaves the paths below it as they are.
-/

namespace MountScript

namespace Path

theorem eq_append_of_below? {mount path rest : List Char} (h : below? mount path = some rest)
    (hne : mount ≠ path) : path = (if mount = ['/'] then [] else mount) ++ rest ∧ rest ≠ [] := by
  by_cases hroot : mount = ['/']
  · subst hroot
    obtain ⟨cs, rfl⟩ := prefix_of_below? h
    rw [below?_root rfl, if_neg (Ne.symm hne)] at h
    obtain rfl := Option.some.inj h
    exact ⟨rfl, by simp⟩
  · obtain ⟨rfl, -⟩ := (below?_eq_some_iff (Or.inl hroot)).mp h
    rw [if_neg hroot]
    exact ⟨rfl, fun hrest => hne (by rw [hrest, List.append_nil])⟩

theorem graft_eq_path_iff {mount path rest : List Char} (h : below? mount path = some rest)
    (hne : mount ≠ path) (root : List Char) :
    graft root rest = path ↔ dropSlashes root = if mount = ['/'] then [] else mount := by
  obtain ⟨hsplit, hrest⟩ := eq_append_of_below? h hne
  rw [graft_of_ne_nil hrest]
  conv_lhs => rw [hsplit]
  exact List.append_left_inj rest

end Path

/-- What is left of the root of the member without the slashes at its end is the mount point as it
stands, or nothing if that is the root directory. Then a path below the mount point is its own
candidate in this member. -/
def Member.Mirrors (m : Member) (point : String) : Prop :=
  Path.dropSlashes m.root.toList = if point = "/" then [] else point.toList

/-- Slashes are dropped from the root of the member only, so no member mirrors a device path that
ends in one. -/
theorem Member.not_mirrors {point : String} (hne : point ≠ "/")
    (hslash : point.toList.getLast? = some '/') (m : Member) : ¬m.Mirrors point := by
  intro mirrors
  rw [Mirrors, if_neg hne] at mirrors
  exact Path.getLast?_dropSlashes_ne m.root.toList (mirrors ▸ hslash)

namespace MountTable

/-- Of the mount points that cover the path, `point` is the longest, and these are its members. -/
def DeepestOver (t : MountTable) (path point : String) (members : List Member) : Prop :=
  t.unions.find? point = some members ∧ Path.covers point path = true ∧
    ∀ other ∈ t.mountPoints, Path.covers other path = true →
      other = point ∨ other.length < point.length

variable {t : MountTable} {dir made point : String} {members : List Member}

theorem deepestOver_iff {path : String} :
    t.DeepestOver path point members ↔ deepest? path t.unions.entries = some (point, members) :=
  deepest?_eq_some_iff.symm

theorem resolve_of_mounted (mounted : t.union? dir = some members) :
    t.resolve dir = members.map Member.root := resolveAt_of_mounted mounted

theorem resolve_of_uncovered
    (free : ∀ point ∈ t.mountPoints, Path.covers point (t.place dir) = false) :
    t.resolve dir = [t.place dir] := by
  have hnone : deepest? (t.place dir) t.unions.entries = none :=
    deepest?_eq_none_iff.mpr fun e he => free e.1 (List.mem_map_of_mem he)
  rw [resolve_eq_resolveAt, resolveAt, hnone]

theorem place_mem_resolve_iff (free : t.union? dir = none)
    (longest : t.DeepestOver (t.place dir) point members) :
    t.place dir ∈ t.resolve dir ↔ ∃ m ∈ members, m.Mirrors point := by
  have hne : point.toList ≠ (t.place dir).toList := fun heq => by
    rw [String.toList_injective heq, DeepestOver, ← union?, free] at longest
    simp at longest
  obtain ⟨rest, hrest⟩ := Option.isSome_iff_exists.mp longest.2.1
  have hroot : point = "/" ↔ point.toList = ['/'] := by
    rw [← String.toList_inj]
    rfl
  rw [resolve_eq_resolveAt, resolveAt_of_deepest (deepestOver_iff.mp longest) hrest, List.mem_map]
  refine exists_congr fun m => and_congr_right fun _ => ?_
  rw [← String.toList_inj, String.toList_ofList, Path.graft_eq_path_iff hrest hne, Member.Mirrors]
  simp only [hroot]

theorem createTarget?_of_free (free : t.union? dir = none) :
    t.createTarget? dir = some (t.place dir) := by
  rw [createTarget?, free]

theorem created_mem_resolve (mounted : t.union? dir = some members)
    (makes : t.createTarget? dir = some made) : made ∈ t.resolve dir := by
  rw [createTarget?, mounted] at makes
  obtain ⟨m, hm, rfl⟩ := Option.map_eq_some_iff.mp makes
  rw [resolve_of_mounted mounted]
  exact List.mem_map_of_mem (List.mem_of_find?_eq_some hm)

theorem created_mem_resolve_iff_mirrors (makes : t.createTarget? dir = some made) :
    made ∈ t.resolve dir ↔
      t.union? dir ≠ none ∨
      (∀ point ∈ t.mountPoints, Path.covers point (t.place dir) = false) ∨
      ∃ point members, t.DeepestOver (t.place dir) point members ∧
        ∃ m ∈ members, m.Mirrors point := by
  cases mounted : t.union? dir with
  | some members => simp [created_mem_resolve mounted makes]
  | none =>
    obtain rfl : t.place dir = made := by
      rw [createTarget?_of_free mounted] at makes
      exact Option.some.inj makes
    constructor
    · intro found
      cases deepest : deepest? (t.place dir) t.unions.entries with
      | none =>
        refine Or.inr (Or.inl fun point hpoint => ?_)
        obtain ⟨e, he, rfl⟩ := List.mem_map.mp hpoint
        exact deepest?_eq_none_iff.mp deepest e he
      | some best =>
        have longest := deepestOver_iff.mpr deepest
        exact Or.inr (Or.inr ⟨_, _, longest, (place_mem_resolve_iff mounted longest).mp found⟩)
    · rintro (hmounted | free | ⟨point, members, longest, mirrors⟩)
      · exact absurd rfl hmounted
      · simp [resolve_of_uncovered free]
      · exact (place_mem_resolve_iff mounted longest).mpr mirrors

/-- A file made in a directory is found there if the directory is a mount point, or if no mount
point covers it, or if the deepest mount point over it has a member that leaves paths as they are.
In any other directory it is not found, and so never below a mount point that ends in a slash and is
not the root directory. -/
theorem created_mem_resolve_iff (makes : t.createTarget? dir = some made) :
    (made ∈ t.resolve dir ↔
      t.union? dir ≠ none ∨
      (∀ point ∈ t.mountPoints, Path.covers point (t.place dir) = false) ∨
      ∃ point members, t.DeepestOver (t.place dir) point members ∧
        ∃ m ∈ members, m.Mirrors point) ∧
    ∀ point members, t.union? dir = none → t.DeepestOver (t.place dir) point members →
      point ≠ "/" → point.toList.getLast? = some '/' → made ∉ t.resolve dir := by
  refine ⟨created_mem_resolve_iff_mirrors makes, ?_⟩
  intro point members free longest hne hslash found
  rw [createTarget?_of_free free] at makes
  obtain rfl := Option.some.inj makes
  obtain ⟨m, -, mirrors⟩ := (place_mem_resolve_iff free longest).mp found
  exact m.not_mirrors hne hslash mirrors

theorem created_mem_resolve_iff_seeded :
    let t := NameSpace.performAll empty [.bind "/x" "/n" ⟨true, false, true, false⟩,
      .bind "/y" "/n/deep" .replace, .bind "/x" "#a/" ⟨false, true, false, false⟩, .changeDir "/n"]
    t.createTarget? "sub" = some "/n/sub" ∧ t.union? "sub" = none ∧
      t.resolve "sub" = ["/x/sub", "/n/sub"] ∧
      (∃ point members, t.DeepestOver (t.place "sub") point members ∧
        ∃ m ∈ members, m.Mirrors point) ∧
      t.createTarget? "deep/sub" = some "/n/deep/sub" ∧
      (¬∃ point members, t.DeepestOver (t.place "deep/sub") point members ∧
        ∃ m ∈ members, m.Mirrors point) ∧
      t.createTarget? "#a//b" = some "#a//b" ∧
      t.DeepestOver (t.place "#a//b") "#a/" [.underlying "#a/", ⟨.path "/x", false, false⟩] ∧
      "#a//b" ∉ t.resolve "#a//b" := by
  intro t
  have above : t.createTarget? "sub" = some "/n/sub" := by decide +kernel
  have below : t.createTarget? "deep/sub" = some "/n/deep/sub" := by decide +kernel
  have device : t.createTarget? "#a//b" = some "#a//b" := by decide +kernel
  have hsub : t.resolve "sub" = ["/x/sub", "/n/sub"] := by decide +kernel
  have free : t.union? "sub" = none := by decide +kernel
  have covered : ¬∀ point ∈ t.mountPoints, Path.covers point (t.place "sub") = false := by
    decide +kernel
  have lost : "/n/deep/sub" ∉ t.resolve "deep/sub" := by decide +kernel
  have longest : t.DeepestOver (t.place "#a//b") "#a/"
      [.underlying "#a/", ⟨.path "/x", false, false⟩] := by
    rw [deepestOver_iff]
    decide +kernel
  refine ⟨above, free, hsub, ?_, below, fun mirrors => ?_, device, longest, ?_⟩
  · have found : "/n/sub" ∈ t.resolve "sub" := by simp [hsub]
    exact (((created_mem_resolve_iff above).1.mp found).resolve_left (by simp [free])).resolve_left
      covered
  · exact lost ((created_mem_resolve_iff below).1.mpr (Or.inr (Or.inr mirrors)))
  · exact (created_mem_resolve_iff device).2 _ _ (by decide +kernel) longest (by decide) (by decide)

/-- Below a mount point that took the place of the directory, a new file is not found where it is
made. -/
theorem created_not_mem_resolve :
    let t := NameSpace.performAll empty [.bind "/x" "/n" .replace]
    t.Reachable ∧ t.createTarget? "/n/sub" = some "/n/sub" ∧ t.resolve "/n/sub" = ["/x/sub"] ∧
      "/n/sub" ∉ t.resolve "/n/sub" := by
  intro t
  exact ⟨⟨_, rfl⟩, by decide +kernel, by decide +kernel, by decide +kernel⟩

end MountTable
end MountScript
