import MountScript.Proofs.Space.Refusals

/-!
# Taking members away by name

Unmounting by name takes away every member of a union that goes by the name. The others stand in the
order they had, and a mount point that has none left is gone. So one member is lost exactly if one
goes by the name. What was attached last goes by the name it was attached with: it can be taken away
again at once, and the table is as it was before if nothing else there goes by that name.
-/

namespace MountScript

inductive Call.Attaches : Call → String → String → Placement → Prop
  | bind {new old : String} {p : Placement} : Attaches (.bind new old p) new old p
  | mount {server old : String} {spec : Option String} {p : Placement} :
      Attaches (.mount server old spec p) server old p
  | importTree {host old : String} {remote : Option String} {p : Placement} :
      Attaches (.importTree host remote old p) host old p

theorem exists_split_of_countP {α : Type} {marked : α → Bool} {xs : List α}
    (h : xs.countP marked = 1) :
    ∃ front x back, xs = front ++ x :: back ∧ xs.filter (!marked ·) = front ++ back := by
  have unmarked : ∀ xs : List α, xs.countP marked = 0 → xs.filter (!marked ·) = xs := fun xs hxs =>
    List.filter_eq_self.mpr fun a ha => by simpa using List.countP_eq_zero.mp hxs a ha
  obtain ⟨x, hx, hmarked⟩ := List.countP_pos_iff.mp (Nat.lt_of_lt_of_eq Nat.zero_lt_one h.symm)
  obtain ⟨front, back, rfl⟩ := List.append_of_mem hx
  rw [List.countP_append, List.countP_cons_of_pos hmarked] at h
  have hfront : front.countP marked = 0 := by omega
  have hback : back.countP marked = 0 := by omega
  exact ⟨front, x, back, rfl, by simp [hmarked, unmarked front hfront, unmarked back hback]⟩

theorem Placement.position_eq_replace_iff {p : Placement} :
    p.position = .replace ↔ p.before = false ∧ p.after = false := by
  rcases p with ⟨before, after, create, cache⟩
  cases before <;> cases after <;> simp [Placement.position]

theorem Placement.position_ne_replace {p : Placement} (h : p.before = true ∨ p.after = true) :
    p.position ≠ .replace := by
  rw [Ne, position_eq_replace_iff]
  rcases h with h | h <;> simp [h]

namespace MountTable

instance (t : MountTable) (name : String) (source : Source) : Decidable (t.Named name source) :=
  decidable_of_iff ((⟨source, false, false⟩ : Member).answersTo name (t.place name) = true)
    answersTo_iff_named

def remnant (members : List Member) : Option (List Member) :=
  if members = [] then none else some members

def leave (t : MountTable) (target : String) (members : List Member) : MountTable :=
  if members = [] then t.dropUnion target else t.setUnion target members

/-- One member is gone from the union at `target`, the others stand in the order they had, and
nothing else has changed. -/
structure LosesOne (t : MountTable) (target : String) (after : MountTable) : Prop where
  cwd_eq : after.cwd = t.cwd
  elsewhere : ∀ point, point ≠ target → after.unions.find? point = t.unions.find? point
  one_gone : ∃ front m back, t.unions.find? target = some (front ++ m :: back) ∧
    after.unions.find? target = remnant (front ++ back)

variable {t after : MountTable} {new old target : String} {members : List Member} {m : Member}
  {p : Placement}

theorem remnant_inj {others : List Member} : remnant members = remnant others ↔ members = others := by
  rw [remnant, remnant]
  split_ifs with hmembers hothers hothers
  · simp [hmembers, hothers]
  · simpa [hmembers] using Ne.symm hothers
  · simpa [hothers] using hmembers
  · exact Option.some_inj

theorem cwd_leave : (t.leave target members).cwd = t.cwd := by
  rw [leave]
  split_ifs <;> rfl

theorem place_leave (path : String) : (t.leave target members).place path = t.place path := by
  rw [place, cwd_leave, place]

theorem find?_leave (t : MountTable) (target point : String) (members : List Member) :
    (t.leave target members).unions.find? point =
      if target = point then remnant members else t.unions.find? point := by
  rw [leave, remnant]
  split_ifs with hnone hpoint hpoint <;> simp [find?_dropUnion, find?_setUnion, hpoint]

theorem leave_of_find? (mounted : t.unions.find? target = some members) (hne : members ≠ []) :
    t.leave target members = t := by
  rw [leave, if_neg hne, setUnion_of_find? mounted]

theorem leave_setUnion (found : List Member) :
    (t.setUnion target found).leave target members = t.leave target members := by
  rw [leave, leave, dropUnion_setUnion, setUnion_setUnion]

theorem others_eq_filter :
    t.others new members = members.filter fun m => ¬t.Named new m.source := by
  refine List.filter_congr fun m _ => ?_
  simp [← answersTo_iff_named]

theorem unmountMember_eq_ok_iff :
    t.unmountMember new old = .ok after ↔
      ∃ members, t.unions.find? (t.place old) = some members ∧
        (∃ m ∈ members, m.answersTo new (t.place new) = true) ∧
        after = t.leave (t.place old) (t.others new members) := by
  constructor
  · intro h
    cases changes_of_unmountMember h with
    | attach asks => cases asks
    | unmountLast mounted answers empty => exact ⟨_, mounted, answers, by rw [leave, if_pos empty]⟩
    | unmountSome mounted answers more => exact ⟨_, mounted, answers, by rw [leave, if_neg more]⟩
  · rintro ⟨members, mounted, ⟨m, hm, answers⟩, rfl⟩
    have heard : ¬∀ m ∈ members, m.answersTo new (t.place new) = false := fun silent => by
      simp [silent m hm] at answers
    rw [unmountMember_eq mounted, if_neg heard, leave]
    split_ifs <;> rfl

theorem LosesOne.length_eq {kept : List Member} (h : t.LosesOne target after)
    (mounted : t.unions.find? target = some members)
    (left : after.unions.find? target = remnant kept) : members.length = kept.length + 1 := by
  obtain ⟨front, m, back, hbefore, hafter⟩ := h.one_gone
  obtain rfl := Option.some.inj (mounted.symm.trans hbefore)
  obtain rfl := remnant_inj.mp (left.symm.trans hafter)
  simp only [List.length_append, List.length_cons]
  omega

theorem losesOne_leave_others_iff (mounted : t.unions.find? target = some members) :
    t.LosesOne target (t.leave target (t.others new members)) ↔
      members.countP (fun m => t.Named new m.source) = 1 := by
  have left : (t.leave target (t.others new members)).unions.find? target =
      remnant (t.others new members) := by
    rw [find?_leave, if_pos rfl]
  constructor
  · intro h
    have hlength := h.length_eq mounted left
    have hcount := List.length_eq_countP_add_countP (fun m => decide (t.Named new m.source))
      (l := members)
    rw [others_eq_filter, ← List.countP_eq_length_filter] at hlength
    simp only [decide_not, decide_eq_true_eq] at hlength hcount
    omega
  · intro h
    obtain ⟨front, m, back, rfl, hkept⟩ := exists_split_of_countP h
    refine ⟨cwd_leave, fun point hpoint => ?_, front, m, back, mounted, ?_⟩
    · rw [find?_leave, if_neg (Ne.symm hpoint)]
    · rw [left, others_eq_filter, ← hkept]
      simp only [decide_not]

/-- Unmounting by name takes away all members that go by the name, from the union at the mount point
and from no other. So it takes away one member exactly if one goes by the name. -/
theorem unmount_by_name
    (accepted : NameSpace.perform (.unmount (some new) old) t = (.ok (), after)) :
    ∃ members, t.union? old = some members ∧ (∃ m ∈ members, t.Named new m.source) ∧
      after.cwd = t.cwd ∧
      (∀ point, point ≠ t.place old → after.unions.find? point = t.unions.find? point) ∧
      after.union? old = remnant (members.filter fun m => ¬t.Named new m.source) ∧
      (t.LosesOne (t.place old) after ↔
        members.countP (fun m => t.Named new m.source) = 1) := by
  obtain ⟨members, mounted, ⟨m, hm, answers⟩, rfl⟩ :=
    unmountMember_eq_ok_iff.mp (apply_of_perform accepted)
  refine ⟨members, mounted, ⟨m, hm, answersTo_iff_named.mp answers⟩, cwd_leave,
    fun point hpoint => ?_, ?_, losesOne_leave_others_iff mounted⟩
  · rw [find?_leave, if_neg (Ne.symm hpoint)]
  · rw [union?, place_leave, find?_leave, if_pos rfl, others_eq_filter]

theorem unmount_by_name_service_and_host :
    let t := NameSpace.performAll empty [.changeDir "/n",
      .mount "#s/boot" "." (some "main") .replace, .bind "/y" "/n" ⟨false, true, false, false⟩,
      .importTree "#s/boot" none "/n" ⟨true, false, false, true⟩]
    let after := NameSpace.performAll t [.unmount (some "#s/boot") "../n"]
    NameSpace.perform (.unmount (some "#s/boot") "../n") t = (.ok (), after) ∧
      after.union? "." = some [⟨.path "/y", false, false⟩] ∧ ¬t.LosesOne "/n" after := by
  intro t after
  have accepted : NameSpace.perform (.unmount (some "#s/boot") "../n") t = (.ok (), after) := by
    decide +kernel
  obtain ⟨members, mounted, -, -, -, -, one⟩ := unmount_by_name accepted
  have hplace : t.place "../n" = "/n" := by decide +kernel
  rw [hplace] at one
  have hmembers : t.union? "../n" = some [⟨.remote "#s/boot" "/", false, true⟩,
      ⟨.service "#s/boot" (some "main"), false, false⟩, ⟨.path "/y", false, false⟩] := by
    decide +kernel
  obtain rfl := Option.some.inj (mounted.symm.trans hmembers)
  exact ⟨accepted, by decide +kernel, fun h => absurd (one.mp h) (by decide +kernel)⟩

theorem unmount_by_name_repeated :
    let t := NameSpace.performAll empty [.bind "/b" "/m" .replace,
      .bind "/a" "/m" ⟨false, true, false, false⟩, .bind "/a" "/m" ⟨false, true, false, false⟩]
    let after := NameSpace.performAll t [.unmount (some "/a") "/m"]
    t.Reachable ∧ NameSpace.perform (.unmount (some "/a") "/m") t = (.ok (), after) ∧
      t.union? "/m" = some [⟨.path "/b", false, false⟩, ⟨.path "/a", false, false⟩,
        ⟨.path "/a", false, false⟩] ∧
      after.union? "/m" = some [⟨.path "/b", false, false⟩] ∧
      ¬t.LosesOne (t.place "/m") after := by
  intro t after
  have mounted : t.union? "/m" = some [⟨.path "/b", false, false⟩, ⟨.path "/a", false, false⟩,
      ⟨.path "/a", false, false⟩] := by
    decide +kernel
  have left : after.unions.find? (t.place "/m") = remnant [⟨.path "/b", false, false⟩] := by
    decide +kernel
  refine ⟨⟨_, rfl⟩, by decide +kernel, mounted, by decide +kernel, fun h => ?_⟩
  exact absurd (h.length_eq mounted left) (by decide)

section Undo

theorem eq_attach_of_changes {call : Call} {a : Attachment} (h : Changes t call after)
    (asks : t.attachment? call = some a) : after = t.attach a.target a.member a.placement := by
  cases h with
  | attach found =>
    obtain rfl := Option.some.inj (found.symm.trans asks)
    rfl
  | unmountAll | unmountLast | unmountSome | clear | changeDir => cases asks

theorem exists_attachment {call : Call} (h : call.Attaches new old p) (t : MountTable) :
    ∃ m, t.attachment? call = some ⟨t.place old, m, p⟩ ∧
      m.answersTo new (t.place new) = true := by
  cases h with
  | bind | mount | importTree => exact ⟨_, rfl, by simp [Member.answersTo]⟩

theorem others_joined (answers : m.answersTo new (t.place new) = true) :
    t.others new (Attachment.joined ⟨target, m, p⟩ members) =
      if p.position = .replace then [] else t.others new members := by
  rw [Attachment.joined]
  cases p.position <;> simp [others, answers]

theorem mem_joined (members : List Member) : m ∈ Attachment.joined ⟨target, m, p⟩ members := by
  rw [Attachment.joined]
  cases p.position <;> simp

theorem unmountMember_attach (answers : m.answersTo new (t.place new) = true) (p : Placement) :
    (t.attach (t.place old) m p).unmountMember new old =
      .ok (t.leave (t.place old)
        (if p.position = .replace then [] else t.others new (t.seeded (t.place old)))) := by
  rw [← others_joined answers, attach_eq_setUnion]
  refine unmountMember_eq_ok_iff.mpr ⟨_, ?_, ⟨m, mem_joined _, answers⟩, (leave_setUnion _).symm⟩
  exact (find?_setUnion ..).trans (if_pos rfl)

theorem others_of_unnamed (unnamed : ∀ m ∈ members, ¬t.Named new m.source) :
    t.others new members = members := by
  refine others_of_silent fun m hm => ?_
  rw [Bool.eq_false_iff]
  exact fun answers => unnamed m hm (answersTo_iff_named.mp answers)

/-- What a call attached is taken away again by the name that the call gave it. If it was put beside
the members of a union and none of them goes by that name, the table is as it was before the call. If
it was put beside a directory where nothing was mounted, and the directory has another name, only
the directory is left in the union. If it replaced a union, nothing is mounted there any more. -/
theorem unmount_undoes_attach {attached : MountTable} (h : t.Reachable) {call : Call}
    (attaches : call.Attaches new old p)
    (accepted : NameSpace.perform call t = (.ok (), attached)) :
    ∃ after, NameSpace.perform (.unmount (some new) old) attached = (.ok (), after) ∧
      (p.before = true ∨ p.after = true → ∀ members, t.union? old = some members →
        (∀ m ∈ members, ¬t.Named new m.source) → after = t) ∧
      (p.before = true ∨ p.after = true → t.union? old = none →
        ¬t.Named new (.path (t.place old)) →
          after = t.setUnion (t.place old) [.underlying (t.place old)]) ∧
      (p.before = false ∧ p.after = false →
        after = t.dropUnion (t.place old) ∧ t.place old ∉ after.mountPoints) := by
  obtain ⟨m, asks, answers⟩ := exists_attachment attaches t
  obtain rfl := eq_attach_of_changes (changes_of_apply (apply_of_perform accepted)) asks
  refine ⟨_, perform_of_ok (unmountMember_attach answers p), fun beside members mounted unnamed => ?_,
    fun beside free unnamed => ?_, fun replaced => ?_⟩
  · have hseeded : t.seeded (t.place old) = members := by
      rw [seeded, ← union?, mounted, Option.getD_some]
    rw [if_neg (Placement.position_ne_replace beside), hseeded, others_of_unnamed unnamed]
    exact leave_of_find? mounted (h.wellFormed.union_ne_nil _ _ mounted)
  · have hseeded : t.seeded (t.place old) = [.underlying (t.place old)] := by
      rw [seeded, ← union?, free, Option.getD_none]
    have hkept : t.others new [.underlying (t.place old)] = [.underlying (t.place old)] :=
      others_of_unnamed fun m hm => List.mem_singleton.mp hm ▸ unnamed
    rw [if_neg (Placement.position_ne_replace beside), hseeded, hkept, leave,
      if_neg (List.cons_ne_nil _ _)]
  · rw [if_pos (Placement.position_eq_replace_iff.mpr replaced), leave, if_pos rfl]
    refine ⟨rfl, fun hpoint => ?_⟩
    obtain ⟨members, hfind⟩ := PathMap.mem_keys_iff.mp hpoint
    rw [find?_dropUnion, if_pos rfl] at hfind
    cases hfind

theorem unmount_undoes_attach_host :
    let t := NameSpace.performAll empty [.changeDir "/n", .bind "/x" "." .replace,
      .mount "#s/helix" "/n" (some "") ⟨false, true, false, false⟩]
    let beside : Placement := ⟨true, false, true, true⟩
    let attached := NameSpace.performAll t [.importTree "helix" (some "/usr") "../n" beside]
    let opened := NameSpace.performAll t [.bind "lib" "/lib" beside]
    attached ≠ t ∧ NameSpace.perform (.unmount (some "helix") "../n") attached = (.ok (), t) ∧
      NameSpace.perform (.unmount (some "lib") "/lib") opened =
        (.ok (), t.setUnion "/lib" [.underlying "/lib"]) := by
  intro t beside attached opened
  have reachable : t.Reachable := ⟨_, rfl⟩
  have imported : NameSpace.perform (.importTree "helix" (some "/usr") "../n" beside) t =
      (.ok (), attached) := by
    decide +kernel
  have bound : NameSpace.perform (.bind "lib" "/lib" beside) t = (.ok (), opened) := by
    decide +kernel
  have mounted : t.union? "../n" = some [⟨.path "/x", false, false⟩,
      ⟨.service "#s/helix" none, false, false⟩] := by
    decide +kernel
  obtain ⟨after, undone, same, -⟩ := unmount_undoes_attach reachable .importTree imported
  obtain ⟨bare, unbound, -, alone, -⟩ := unmount_undoes_attach reachable .bind bound
  have hplace : t.place "/lib" = "/lib" := by decide +kernel
  rw [hplace] at alone
  rw [same (.inl rfl) _ mounted (by decide +kernel)] at undone
  rw [alone (.inl rfl) (by decide +kernel) (by decide +kernel)] at unbound
  exact ⟨by decide +kernel, undone, unbound⟩

end Undo

end MountTable
end MountScript
