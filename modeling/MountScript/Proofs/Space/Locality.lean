import MountScript.Proofs.Space.Removal
import MountScript.Proofs.Space.Resolution
import MountScript.Proofs.Space.SearchOrder

/-!
# Calls about one mount point

All calls name one mount point, but for those that clear the table or enter a directory. What is
mounted there decides how such a call is answered, and the call changes nothing else. So it matters only
to the paths that this mount point decides, before the call or after it. Calls about different mount
points can be made in either order, and so can two calls that put members at the two ends of one union.
-/

namespace MountScript

def Call.site? : Call → Option String
  | .bind _ old _ | .mount _ old _ _ | .unmount _ old | .importTree _ _ old _ => some old
  | .clear | .changeDir _ => none

namespace Path

def Over (mount path : String) : Prop :=
  Within mount path ∨ (mount = "/" ∧ path.toList.head? = some '/')

theorem covers_iff_over {mount path : String} : covers mount path = true ↔ Over mount path := by
  have hmount : mount = "/" ↔ mount.toList = ['/'] := by
    rw [← String.toList_inj]
    rfl
  rw [Over, hmount]
  by_cases hroot : mount.toList = ['/'] ∧ path.toList.head? = some '/'
  · simp [hroot, covers, below?_root]
  · have hside : mount.toList ≠ ['/'] ∨ path.toList.head? ≠ some '/' := by tauto
    rw [or_iff_left hroot, covers, Option.isSome_iff_exists, within_iff]
    exact exists_congr fun rest => below?_eq_some_iff hside

instance (mount path : String) : Decidable (Over mount path) :=
  decidable_of_iff _ covers_iff_over

theorem length_lt_of_covers {mount path : String} (h : covers mount path = true)
    (hne : path ≠ mount) : mount.length < path.length := by
  have hbegin := prefix_of_covers h
  have hle := hbegin.length_le
  rw [String.length_toList, String.length_toList] at hle
  refine Nat.lt_of_le_of_ne hle fun hlength => hne ?_
  refine String.toList_injective (hbegin.eq_of_length ?_).symm
  rw [String.length_toList, String.length_toList, hlength]

end Path

namespace Attachment

theorem joined_comm {a b : Attachment} (front : a.placement.position = .before)
    (back : b.placement.position = .after) (members : List Member) :
    b.joined (a.joined members) = a.joined (b.joined members) := by
  simp [joined, front, back]

end Attachment

namespace MountTable

def write (t : MountTable) (target : String) (found : Option (List Member)) : MountTable :=
  { t with unions := match found with
      | none => t.unions.erase target
      | some members => t.unions.insert target members }

def attached (t : MountTable) (found : Option (List Member)) (call : Call) :
    Option (List Member) :=
  match t.attachment? call with
  | none => found
  | some a => a.mounted a.target found

/-- How a call is answered if `found` is mounted at the site it is about, and what is mounted there
afterwards. Of the table only the current directory is read. -/
def revise (t : MountTable) (found : Option (List Member)) :
    Call → Except Refusal Unit × Option (List Member)
  | .bind new old p => (.ok (), t.attached found (.bind new old p))
  | .mount server old spec p =>
    if server = "" then (.error (.invalidSpec "empty server name"), found)
    else (.ok (), t.attached found (.mount server old spec p))
  | .importTree host remote old p =>
    if host = "" then (.error (.invalidSpec "empty host"), found)
    else (.ok (), t.attached found (.importTree host remote old p))
  | .unmount new old =>
    match found, new with
    | none, _ => (.error (.notMounted (t.place old)), none)
    | some _, none => (.ok (), none)
    | some members, some new =>
      if ∀ m ∈ members, m.answersTo new (t.place new) = false then
        (.error (.notMounted (t.place new ++ " on " ++ t.place old)), some members)
      else (.ok (), remnant (t.others new members))
  | .clear | .changeDir _ => (.ok (), found)

def HiddenFrom (unions : PathMap (List Member)) (path target : String) : Prop :=
  Path.covers target path = false ∨
    ∃ point ∈ unions.keys, target.length < point.length ∧ Path.covers point path = true

def AtBothEnds (t : MountTable) (first second : Call) : Prop :=
  ∃ a b, t.attachment? first = some a ∧ t.attachment? second = some b ∧ a.target = b.target ∧
    (a.placement.before = true ∧ a.placement.after = false) ∧ b.placement.after = true

variable {t : MountTable} {call first second : Call} {old target point : String}

section Write

theorem find?_write (t : MountTable) (target point : String) (found : Option (List Member)) :
    (t.write target found).unions.find? point =
      if target = point then found else t.unions.find? point := by
  cases found with
  | none => exact find?_dropUnion t target point
  | some members => exact find?_setUnion t target point members

theorem write_find? (t : MountTable) (target : String) :
    t.write target (t.unions.find? target) = t := by
  refine ext_find? rfl fun point => ?_
  rw [find?_write]
  split
  · next h => rw [h]
  · rfl

theorem write_write (t : MountTable) (target : String) (found later : Option (List Member)) :
    (t.write target found).write target later = t.write target later := by
  refine ext_find? rfl fun point => ?_
  simp only [find?_write]
  split <;> rfl

theorem write_comm (apart : target ≠ point) (t : MountTable) (found other : Option (List Member)) :
    (t.write target found).write point other = (t.write point other).write target found := by
  refine ext_find? rfl fun path => ?_
  simp only [find?_write]
  split_ifs with hpoint htarget
  · exact absurd (htarget.trans hpoint.symm) apart
  · rfl
  · rfl
  · rfl

theorem leave_eq_write (t : MountTable) (target : String) (members : List Member) :
    t.leave target members = t.write target (remnant members) := by
  rw [leave, remnant]
  split_ifs <;> rfl

end Write

theorem attach_eq_write {m : Member} {p : Placement}
    (asks : t.attachment? call = some ⟨target, m, p⟩) :
    t.attach target m p = t.write target (t.attached (t.unions.find? target) call) := by
  rw [attach_eq_setUnion, attached, asks]
  rfl

theorem perform_unmount (t : MountTable) (new : Option String) (old : String) :
    NameSpace.perform (.unmount new old) t =
      ((t.revise (t.unions.find? (t.place old)) (.unmount new old)).1,
        t.write (t.place old) (t.revise (t.unions.find? (t.place old)) (.unmount new old)).2) := by
  have same := t.write_find? (t.place old)
  cases mounted : t.unions.find? (t.place old) with
  | none =>
    rw [mounted] at same
    rw [perform_of_error (apply_of_refuses (.notMounted mounted)), revise, same]
  | some members =>
    rw [mounted] at same
    cases new with
    | none =>
      have dropped : t.unmountAll old = .ok (t.dropUnion (t.place old)) := by
        simp [unmountAll, mounted]
      exact perform_of_ok dropped
    | some new =>
      by_cases silent : ∀ m ∈ members, m.answersTo new (t.place new) = false
      · rw [perform_of_error (apply_of_refuses (.notAnswered mounted silent))]
        simp only [revise, if_pos silent, same]
      · have answers : ∃ m ∈ members, m.answersTo new (t.place new) = true := by
          simpa using silent
        have cut := unmountMember_eq_ok_iff.mpr ⟨members, mounted, answers, rfl⟩
        rw [leave_eq_write] at cut
        simp only [revise, if_neg silent]
        exact perform_of_ok cut

theorem perform_of_site (site : call.site? = some old) :
    NameSpace.perform call t =
      ((t.revise (t.unions.find? (t.place old)) call).1,
        t.write (t.place old) (t.revise (t.unions.find? (t.place old)) call).2) := by
  cases call with
  | clear => cases site
  | changeDir => cases site
  | bind new old p =>
    obtain rfl := Option.some.inj site
    have asks : t.attachment? (.bind new old p) =
      some ⟨t.place old, ⟨.path (t.place new), p.create, false⟩, p⟩ := rfl
    exact perform_of_ok (congrArg Except.ok (attach_eq_write asks))
  | mount server old spec p =>
    obtain rfl := Option.some.inj site
    by_cases blank : server = ""
    · simp [NameSpace.perform, apply, mount, revise, blank, write_find?]
    · simp only [NameSpace.perform, apply, mount, revise, if_neg blank]
      exact congrArg _ (attach_eq_write rfl)
  | importTree host remote old p =>
    obtain rfl := Option.some.inj site
    by_cases blank : host = ""
    · simp [NameSpace.perform, apply, importTree, revise, blank, write_find?]
    · simp only [NameSpace.perform, apply, importTree, revise, if_neg blank]
      exact congrArg _ (attach_eq_write rfl)
  | unmount new old =>
    obtain rfl := Option.some.inj site
    exact perform_unmount t new old

section Frame

variable {before after : PathMap (List Member)} {path : String}

theorem HiddenFrom.of_agree (hidden : HiddenFrom before path target)
    (agree : ∀ point, point ≠ target → after.find? point = before.find? point) :
    HiddenFrom after path target := by
  refine hidden.imp_right fun ⟨point, hkey, hlonger, hcover⟩ => ⟨point, ?_, hlonger, hcover⟩
  have hpoint : point ≠ target := by
    rintro rfl
    exact Nat.lt_irrefl _ hlonger
  exact (PathMap.mem_keys_congr (agree point hpoint)).mpr hkey

theorem deepest?_of_agree (hidden : HiddenFrom before path target)
    (agree : ∀ point, point ≠ target → after.find? point = before.find? point)
    {best : String × List Member} (h : deepest? path before.entries = some best) :
    deepest? path after.entries = some best := by
  obtain ⟨point, members⟩ := best
  obtain ⟨mounted, covers, longest⟩ := deepest?_eq_some_iff.mp h
  have shorter : Path.covers target path = true → target.length < point.length := by
    intro hover
    obtain ⟨deeper, hkey, hlonger, hcover⟩ := hidden.resolve_left (by simp [hover])
    rcases longest deeper hkey hcover with rfl | hshorter
    · exact hlonger
    · exact hlonger.trans hshorter
  have hpoint : point ≠ target := by
    rintro rfl
    exact Nat.lt_irrefl _ (shorter covers)
  refine deepest?_eq_some_iff.mpr
    ⟨(agree point hpoint).trans mounted, covers, fun other hkey hover => ?_⟩
  by_cases hother : other = target
  · subst hother
    exact Or.inr (shorter hover)
  · exact longest other ((PathMap.mem_keys_congr (agree other hother)).mp hkey) hover

theorem deepest?_eq_of_agree (hidden : HiddenFrom before path target)
    (agree : ∀ point, point ≠ target → after.find? point = before.find? point) :
    deepest? path after.entries = deepest? path before.entries := by
  refine Option.ext fun best => ⟨?_, deepest?_of_agree hidden agree⟩
  exact deepest?_of_agree (hidden.of_agree agree) fun point hpoint => (agree point hpoint).symm

end Frame

/-- A call about one mount point, accepted or refused, leaves the current directory and all other
mount points as they are. A path is looked up as before if that mount point does not lie over it, or
if another one below it does. -/
theorem perform_local (site : call.site? = some old) :
    let after := (NameSpace.perform call t).2
    after.cwd = t.cwd ∧
      (∀ point, point ≠ t.place old → after.unions.find? point = t.unions.find? point) ∧
      ∀ path, (¬Path.Over (t.place old) (t.place path) ∨
          ∃ point ∈ t.mountPoints, point ≠ t.place old ∧ Path.Over (t.place old) point ∧
            Path.Over point (t.place path)) →
        after.resolve path = t.resolve path := by
  intro after
  have hafter : after = t.write (t.place old) (t.revise (t.unions.find? (t.place old)) call).2 :=
    congrArg Prod.snd (perform_of_site site)
  have agree : ∀ point, point ≠ t.place old →
      after.unions.find? point = t.unions.find? point := fun point hpoint => by
    rw [hafter, find?_write, if_neg hpoint.symm]
  have hcwd : after.cwd = t.cwd := by
    rw [hafter]
    rfl
  refine ⟨hcwd, agree, fun path apart => ?_⟩
  have hidden : HiddenFrom t.unions (t.place path) (t.place old) := by
    refine apart.imp (fun aside => ?_) fun ⟨point, hkey, hne, hover, hcover⟩ => ?_
    · rwa [← Path.covers_iff_over, Bool.not_eq_true] at aside
    · exact ⟨point, hkey, Path.length_lt_of_covers (Path.covers_iff_over.mpr hover) hne,
        Path.covers_iff_over.mpr hcover⟩
  have hplace : after.place path = t.place path := by rw [place, hcwd, place]
  rw [resolve_eq_resolveAt, resolve_eq_resolveAt, hplace, resolveAt, resolveAt,
    deepest?_eq_of_agree hidden agree]

theorem perform_local_between :
    let t := NameSpace.performAll empty [.bind "/x" "/n" .replace,
      .mount "#s/boot" "/n/deep" none .replace, .bind "/z" "/" .replace, .changeDir "/n"]
    let after := (NameSpace.perform (.bind "/y" "." ⟨false, true, false, false⟩) t).2
    let refused := (NameSpace.perform (.unmount (some "/y") "/n") t).2
    t.resolve "sub" = ["/x/sub"] ∧ after.resolve "sub" = ["/x/sub", "/y/sub"] ∧
      after.resolve "deep/sub" = t.resolve "deep/sub" ∧
      after.resolve "../night" = t.resolve "../night" ∧
      after.unions.find? "/" = t.unions.find? "/" ∧ refused.resolve "#c" = t.resolve "#c" := by
  intro t after refused
  obtain ⟨-, elsewhere, same⟩ := perform_local (t := t)
    (show (Call.bind "/y" "." ⟨false, true, false, false⟩).site? = some "." from rfl)
  obtain ⟨-, -, kept⟩ := perform_local (t := t)
    (show (Call.unmount (some "/y") "/n").site? = some "/n" from rfl)
  refine ⟨by decide +kernel, by decide +kernel, same _ (Or.inr ⟨"/n/deep", ?_⟩),
    same _ (Or.inl (by decide +kernel)), elsewhere "/" (by decide +kernel),
    kept _ (Or.inl (by decide +kernel))⟩
  decide +kernel

theorem perform_perform {other : String} (one : first.site? = some old)
    (two : second.site? = some other) :
    let left := t.write (t.place old) (t.revise (t.unions.find? (t.place old)) first).2
    NameSpace.perform second (NameSpace.perform first t).2 =
      ((t.revise (left.unions.find? (t.place other)) second).1,
        left.write (t.place other) (t.revise (left.unions.find? (t.place other)) second).2) := by
  rw [perform_of_site one, perform_of_site two]
  rfl

theorem revise_of_asks {a : Attachment} (asks : t.attachment? call = some a) :
    ∃ answer, ∀ found, t.revise found call =
      (answer, if answer = .ok () then a.mounted a.target found else found) := by
  cases call with
  | bind new old p => exact ⟨.ok (), fun found => by simp [revise, attached, asks]⟩
  | mount server old spec p =>
    by_cases blank : server = ""
    · exact ⟨.error (.invalidSpec "empty server name"), fun found => by simp [revise, blank]⟩
    · exact ⟨.ok (), fun found => by simp [revise, attached, asks, blank]⟩
  | importTree host remote old p =>
    by_cases blank : host = ""
    · exact ⟨.error (.invalidSpec "empty host"), fun found => by simp [revise, blank]⟩
    · exact ⟨.ok (), fun found => by simp [revise, attached, asks, blank]⟩
  | unmount | clear | changeDir => cases asks

theorem revise_both_ends (ends : t.AtBothEnds first second) (found : Option (List Member)) :
    (t.revise (t.revise found first).2 second).1 = (t.revise found second).1 ∧
      (t.revise (t.revise found second).2 first).1 = (t.revise found first).1 ∧
      (t.revise (t.revise found first).2 second).2 =
        (t.revise (t.revise found second).2 first).2 := by
  obtain ⟨a, b, asksFirst, asksSecond, same, ⟨before, notAfter⟩, atEnd⟩ := ends
  obtain ⟨answer, first_eq⟩ := revise_of_asks asksFirst
  obtain ⟨reply, second_eq⟩ := revise_of_asks asksSecond
  have front : a.placement.position = .before := by simp [Placement.position, before, notAfter]
  have back : b.placement.position = .after := by simp [Placement.position, atEnd]
  have comm := Attachment.joined_comm front back (found.getD [.underlying a.target])
  simp only [first_eq, second_eq, true_and]
  by_cases accepted : answer = .ok ()
  · by_cases agreed : reply = .ok ()
    · simp [accepted, agreed, Attachment.mounted, ← same, comm]
    · simp [accepted, agreed]
  · simp [accepted]

theorem exists_site {a : Attachment} (asks : t.attachment? call = some a) :
    ∃ old, call.site? = some old ∧ a.target = t.place old := by
  cases call with
  | bind | mount | importTree =>
    obtain rfl := Option.some.inj asks
    exact ⟨_, rfl, rfl⟩
  | unmount | clear | changeDir => cases asks

theorem target_of_asks {a : Attachment} (asks : t.attachment? call = some a)
    (site : call.site? = some old) : a.target = t.place old := by
  obtain ⟨spelled, hsite, htarget⟩ := exists_site asks
  rw [htarget, Option.some.inj (hsite.symm.trans site)]

/-- Calls about different mount points can be made in either order: each is answered as it would be
alone, and the table is the same in the end. So can a call that puts a member in front of a union and
one that puts a member at its end. -/
theorem perform_comm {other : String} (one : first.site? = some old)
    (two : second.site? = some other)
    (independent : t.place old ≠ t.place other ∨ t.AtBothEnds first second) :
    let afterFirst := NameSpace.perform first t
    let afterSecond := NameSpace.perform second t
    (NameSpace.perform second afterFirst.2).1 = afterSecond.1 ∧
      (NameSpace.perform first afterSecond.2).1 = afterFirst.1 ∧
      (NameSpace.perform second afterFirst.2).2 = (NameSpace.perform first afterSecond.2).2 := by
  intro afterFirst afterSecond
  have answerFirst := congrArg Prod.fst (perform_of_site (t := t) one)
  have answerSecond := congrArg Prod.fst (perform_of_site (t := t) two)
  rw [perform_perform one two, perform_perform two one, answerFirst, answerSecond]
  rcases independent with apart | ends
  · simp only [find?_write, if_neg apart, if_neg apart.symm]
    exact ⟨trivial, trivial, write_comm apart ..⟩
  · have same : t.place other = t.place old := by
      obtain ⟨a, b, asksFirst, asksSecond, hsame, -⟩ := ends
      rw [← target_of_asks asksFirst one, ← target_of_asks asksSecond two, hsame]
    obtain ⟨hsecond, hfirst, hboth⟩ := revise_both_ends ends (t.unions.find? (t.place old))
    simp only [same, find?_write, if_true, write_write]
    exact ⟨hsecond, hfirst, congrArg _ hboth⟩

theorem perform_comm_seeding :
    let t := NameSpace.performAll empty [.bind "/x" "/n" .replace, .changeDir "/n"]
    let front := Call.bind "lib" "../m" ⟨true, false, true, false⟩
    let back := Call.mount "#s/boot" "/m/" none ⟨true, true, false, true⟩
    let gone := Call.unmount (some "/y") "."
    t.AtBothEnds front back ∧ t.place "../m" = t.place "/m/" ∧ t.place "../m" ≠ t.place "." ∧
      NameSpace.performAll t [front, back] = NameSpace.performAll t [back, front] ∧
      (NameSpace.performAll t [front, back]).union? "/m" = some [⟨.path "/n/lib", true, false⟩,
        ⟨.path "/m", false, false⟩, ⟨.service "#s/boot" none, false, true⟩] ∧
      (NameSpace.perform gone (NameSpace.perform front t).2).1 = (NameSpace.perform gone t).1 ∧
      (NameSpace.perform gone t).1 = .error (.notMounted "/y on /n") := by
  intro t front back gone
  have ends : t.AtBothEnds front back := ⟨_, _, rfl, rfl, by decide +kernel⟩
  have apart : t.place "../m" ≠ t.place "." := by decide +kernel
  obtain ⟨-, -, both⟩ := perform_comm (show front.site? = some "../m" from rfl)
    (show back.site? = some "/m/" from rfl) (Or.inr ends)
  obtain ⟨refused, -, -⟩ := perform_comm (show front.site? = some "../m" from rfl)
    (show gone.site? = some "." from rfl) (Or.inl apart)
  exact ⟨ends, by decide +kernel, apart, both, by decide +kernel, refused, by decide +kernel⟩

end MountTable
end MountScript
