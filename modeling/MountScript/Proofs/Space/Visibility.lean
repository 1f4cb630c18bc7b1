import MountScript.Proofs.Space.Creation
import MountScript.Proofs.Space.Locality

/-!
# What a union hides and what it keeps

A member that is put in front of a union or at its end joins the candidates that a path had, and hides
none of them. That holds also where nothing was mounted before: the union then starts with the directory
itself, and a path below it is found where it always was. It does not hold below another mount point,
which used to decide where the directory is found.
-/

namespace MountScript

namespace Path

theorem graft_below {mount path : String} (hm : Proper mount) (hp : Canonical path)
    {rest : List Char} (h : below? mount.toList path.toList = some rest) :
    String.ofList (graft mount.toList rest) = path := by
  obtain ⟨names, hn, rfl⟩ := exists_names hp
  have hc : covers mount (ofNames names) = true := Option.isSome_iff_exists.mpr ⟨rest, h⟩
  obtain ⟨front, more, rfl, rfl, hbelow⟩ := exists_names_below hm hn hc
  obtain rfl := Option.some.inj (h.symm.trans hbelow)
  rw [toList_ofNames, graft_ofComponents (List.forall_mem_append.mp hn).1]
  rfl

end Path

namespace MountTable

variable {t after : MountTable} {call : Call} {a : Attachment} {path target : String}
  {m : Member} {p : Placement}

theorem map_joined {β : Type} (f : Member → β)
    (beside : a.placement.before = true ∨ a.placement.after = true) (members : List Member) :
    (a.joined members).map f =
      if a.placement.after then members.map f ++ [f a.member] else f a.member :: members.map f := by
  by_cases atEnd : a.placement.after = true
  · simp [Attachment.joined, Placement.position, atEnd]
  · have inFront : a.placement.before = true := beside.resolve_right atEnd
    simp [Attachment.joined, Placement.position, atEnd, inFront]

theorem mem_mountPoints_attach {point : String} (h : point ∈ t.mountPoints) :
    point ∈ (t.attach target m p).mountPoints := by
  by_cases hpoint : target = point
  · exact PathMap.mem_keys_iff.mpr ⟨_, (find?_attach ..).trans (if_pos hpoint)⟩
  · exact (PathMap.mem_keys_congr ((find?_attach ..).trans (if_neg hpoint))).mpr h

theorem resolveAt_seeded (proper : Path.Proper target) (hpath : Path.Canonical path)
    {members : List Member} {rest : List Char}
    (deepest : (t.attach target m p).DeepestOver path target members)
    (below : Path.below? target.toList path.toList = some rest)
    (uncovered : target ∈ t.mountPoints ∨ ∀ point ∈ t.mountPoints, ¬Path.Over point target) :
    t.resolveAt path =
      (t.seeded target).map fun m => String.ofList (Path.graft m.root.toList rest) := by
  obtain ⟨-, covers, longest⟩ := deepest
  cases mounted : t.unions.find? target with
  | some found =>
    have same : t.DeepestOver path target found := ⟨mounted, covers, fun other hother hover =>
      longest other (mem_mountPoints_attach hother) hover⟩
    rw [resolveAt_of_deepest (deepestOver_iff.mp same) below, seeded, mounted, Option.getD_some]
  | none =>
    have free : ∀ point ∈ t.mountPoints, ¬Path.Over point target := by
      refine uncovered.resolve_left fun hmem => ?_
      obtain ⟨found, hfound⟩ := PathMap.mem_keys_iff.mp hmem
      rw [mounted] at hfound
      cases hfound
    -- Another mount point over the path would be shorter than the new one, and so over it as well.
    have bare : deepest? path t.unions.entries = none := by
      refine deepest?_eq_none_iff.mpr fun e he => Bool.eq_false_iff.mpr fun hover => ?_
      have hkey : e.1 ∈ t.mountPoints := List.mem_map_of_mem he
      rcases longest e.1 (mem_mountPoints_attach hkey) hover with htarget | hshorter
      · exact PathMap.ne_of_find?_eq_none mounted he htarget
      · exact free e.1 hkey
          (Path.covers_iff_over.mp (Path.covers_of_covers hover covers hshorter))
    rw [resolveAt, bare, seeded, mounted]
    simp [Member.underlying, Member.root, Source.root, Path.graft_below proper hpath below]

/-- A member that a call puts in front of a union or at its end adds one candidate to those of every
path that the mount point decides, at the same end, and changes nothing about the others. The
candidate is what lies below the mount point, looked up in the member. -/
theorem resolve_attached (asks : t.attachment? call = some a)
    (accepted : NameSpace.perform call t = (.ok (), after))
    (beside : a.placement.before = true ∨ a.placement.after = true)
    (uncovered : a.target ∈ t.mountPoints ∨
      ∀ point ∈ t.mountPoints, ¬Path.Over point a.target)
    (noDevice : Path.isDevice path = false)
    (deepest : ∃ members, after.DeepestOver (after.place path) a.target members) :
    ∃ rest, Path.below? a.target.toList (t.place path).toList = some rest ∧
      t.place path = String.ofList (Path.graft a.target.toList rest) ∧
      after.resolve path =
        if a.placement.after then
          t.resolve path ++ [String.ofList (Path.graft a.member.root.toList rest)]
        else String.ofList (Path.graft a.member.root.toList rest) :: t.resolve path := by
  obtain ⟨target, m, p⟩ := a
  obtain rfl := eq_attach_of_changes (changes_of_apply (apply_of_perform accepted)) asks
  obtain ⟨members, deepest⟩ := deepest
  have hplace : (t.attach target m p).place path = t.place path := by
    rw [attach_eq_setUnion]
    rfl
  rw [hplace] at deepest
  have proper : Path.Proper target := by
    obtain ⟨old, -, rfl⟩ := exists_site asks
    exact t.proper_place old
  have hpath : Path.Canonical (t.place path) := Path.canonical_normalize noDevice t.cwd
  obtain ⟨rest, below⟩ := Option.isSome_iff_exists.mp deepest.2.1
  have hmembers : members = Attachment.joined ⟨target, m, p⟩ (t.seeded target) := by
    have hfind := deepest.1
    rw [find?_attach, if_pos rfl] at hfind
    exact (Option.some.inj hfind).symm
  refine ⟨rest, below, (Path.graft_below proper hpath below).symm, ?_⟩
  rw [resolve_eq_resolveAt, resolve_eq_resolveAt, hplace,
    resolveAt_of_deepest (deepestOver_iff.mp deepest) below, hmembers, map_joined _ beside,
    resolveAt_seeded proper hpath deepest below uncovered]

theorem resolve_attached_root :
    let t := NameSpace.performAll empty [.bind "/x" "/n" .replace, .changeDir "/usr"]
    let server := Call.mount "#s/boot/" "/" (some "") ⟨true, false, true, false⟩
    let host := Call.importTree "helix" (some "/exp/") "../n/." ⟨true, true, false, true⟩
    let front := NameSpace.performAll t [server]
    let back := NameSpace.performAll t [host]
    t.resolve "lib" = ["/usr/lib"] ∧ front.resolve "lib" = "#s/boot/usr/lib" :: t.resolve "lib" ∧
      t.resolve "../n" = ["/x"] ∧ back.resolve "../n" = t.resolve "../n" ++ ["helix:/exp/"] := by
  intro t server host front back
  have asksServer : t.attachment? server = some
      ⟨"/", ⟨.service "#s/boot/" none, true, false⟩, ⟨true, false, true, false⟩⟩ := by
    decide +kernel
  have asksHost : t.attachment? host = some
      ⟨"/n", ⟨.remote "helix" "/exp/", false, true⟩, ⟨true, true, false, true⟩⟩ := by
    decide +kernel
  have inFront : NameSpace.perform server t = (.ok (), front) := by decide +kernel
  have atEnd : NameSpace.perform host t = (.ok (), back) := by decide +kernel
  have overLib : front.DeepestOver (front.place "lib") "/"
      [⟨.service "#s/boot/" none, true, false⟩, ⟨.path "/", false, false⟩] :=
    deepestOver_iff.mpr (by decide +kernel)
  have overN : back.DeepestOver (back.place "../n") "/n"
      [⟨.path "/x", false, false⟩, ⟨.remote "helix" "/exp/", false, true⟩] :=
    deepestOver_iff.mpr (by decide +kernel)
  obtain ⟨below, hbelow, -, hfront⟩ := resolve_attached asksServer inFront (Or.inl rfl)
    (Or.inr (by decide +kernel)) (by decide +kernel) ⟨_, overLib⟩
  obtain ⟨rest, hrest, -, hback⟩ := resolve_attached asksHost atEnd (Or.inl rfl)
    (Or.inl (by decide +kernel)) (by decide +kernel) ⟨_, overN⟩
  have hlib : Path.below? "/".toList (t.place "lib").toList = some "/usr/lib".toList := by
    decide +kernel
  have hn : Path.below? "/n".toList (t.place "../n").toList = some [] := by decide +kernel
  obtain rfl := Option.some.inj (hlib.symm.trans hbelow)
  obtain rfl := Option.some.inj (hn.symm.trans hrest)
  exact ⟨by decide +kernel, hfront.trans (by decide +kernel), by decide +kernel,
    hback.trans (by decide +kernel)⟩

/-- Under another mount point a directory that starts a union is found where it was not before. -/
example :
    let t := NameSpace.performAll empty [.bind "/x" "/n" .replace]
    let after := NameSpace.performAll t [.bind "/y" "/n/deep" ⟨false, true, false, false⟩]
    t.resolve "/n/deep/f" = ["/x/deep/f"] ∧
      after.resolve "/n/deep/f" = ["/n/deep/f", "/y/f"] := by
  decide +kernel

end MountTable
end MountScript
