import MountScript.Proofs.Space.Invariant

/-!
# How a table answers a call

A table that accepts a call attaches a member somewhere, takes members away from one union, is
cleared, or has its current directory changed. It refuses a call that names nothing where a name is
needed, that would enter a device, or that takes away what is not there. Both are said once by
rules; whatever calls do to a table follows from them.
-/

namespace MountScript

structure Attachment where
  target : String
  member : Member
  placement : Placement
deriving DecidableEq

def Attachment.joined (a : Attachment) (members : List Member) : List Member :=
  match a.placement.position with
  | .replace => [a.member]
  | .before => a.member :: members
  | .after => members ++ [a.member]

namespace MountTable

def attachment? (t : MountTable) : Call → Option Attachment
  | .bind new old p => some ⟨t.place old, ⟨.path (t.place new), p.create, false⟩, p⟩
  | .mount server old spec p =>
    some ⟨t.place old, ⟨.service (t.place server) (spec.filter (· ≠ "")), p.create, p.cache⟩, p⟩
  | .importTree host remote old p =>
    some ⟨t.place old, ⟨.remote host (remote.getD "/"), p.create, p.cache⟩, p⟩
  | .unmount .. | .clear | .changeDir .. => none

def others (t : MountTable) (new : String) (members : List Member) : List Member :=
  members.filter fun m => !m.answersTo new (t.place new)

inductive Changes (t : MountTable) : Call → MountTable → Prop
  | attach {call : Call} {target : String} {member : Member} {placement : Placement}
      (asks : t.attachment? call = some ⟨target, member, placement⟩) :
      Changes t call (t.attach target member placement)
  | unmountAll {old : String} {members : List Member}
      (mounted : t.unions.find? (t.place old) = some members) :
      Changes t (.unmount none old) (t.dropUnion (t.place old))
  | unmountLast {new old : String} {members : List Member}
      (mounted : t.unions.find? (t.place old) = some members)
      (answers : ∃ m ∈ members, m.answersTo new (t.place new) = true)
      (empty : t.others new members = []) :
      Changes t (.unmount (some new) old) (t.dropUnion (t.place old))
  | unmountSome {new old : String} {members : List Member}
      (mounted : t.unions.find? (t.place old) = some members)
      (answers : ∃ m ∈ members, m.answersTo new (t.place new) = true)
      (more : t.others new members ≠ []) :
      Changes t (.unmount (some new) old) (t.setUnion (t.place old) (t.others new members))
  | clear : Changes t .clear empty
  | changeDir {dir : String} (named : dir ≠ "") (noDevice : Path.isDevice dir = false) :
      Changes t (.changeDir dir) { t with cwd := t.place dir }

inductive Refuses (t : MountTable) : Call → Refusal → Prop
  | noServer {old : String} {spec : Option String} {p : Placement} :
      Refuses t (.mount "" old spec p) (.invalidSpec "empty server name")
  | noHost {remote : Option String} {old : String} {p : Placement} :
      Refuses t (.importTree "" remote old p) (.invalidSpec "empty host")
  | noDirectory : Refuses t (.changeDir "") (.invalidSpec "empty directory")
  | device {dir : String} (device : Path.isDevice dir = true) :
      Refuses t (.changeDir dir)
        (.invalidSpec (dir ++ ": cannot " ++ Action.changeDir.keyword ++ " into a device"))
  | notMounted {new : Option String} {old : String}
      (free : t.unions.find? (t.place old) = none) :
      Refuses t (.unmount new old) (.notMounted (t.place old))
  | notAnswered {new old : String} {members : List Member}
      (mounted : t.unions.find? (t.place old) = some members)
      (silent : ∀ m ∈ members, m.answersTo new (t.place new) = false) :
      Refuses t (.unmount (some new) old) (.notMounted (t.place new ++ " on " ++ t.place old))

variable {t t' : MountTable} {call : Call} {refusal : Refusal}

theorem length_others_eq_iff {new : String} {members : List Member} :
    (t.others new members).length = members.length ↔
      ∀ m ∈ members, m.answersTo new (t.place new) = false := by
  simp [others, List.length_filter_eq_length_iff]

theorem unmountMember_eq {new old : String} {members : List Member}
    (mounted : t.unions.find? (t.place old) = some members) :
    t.unmountMember new old =
      if ∀ m ∈ members, m.answersTo new (t.place new) = false then
        .error (.notMounted (t.place new ++ " on " ++ t.place old))
      else if t.others new members = [] then .ok (t.dropUnion (t.place old))
      else .ok (t.setUnion (t.place old) (t.others new members)) := by
  simp only [unmountMember, mounted, ← length_others_eq_iff, List.isEmpty_iff]
  rfl

theorem changes_of_unmountMember {new old : String} (h : t.unmountMember new old = .ok t') :
    Changes t (.unmount (some new) old) t' := by
  cases mounted : t.unions.find? (t.place old) with
  | none => simp [unmountMember, mounted] at h
  | some members =>
    rw [unmountMember_eq mounted] at h
    split_ifs at h with silent empty
    · have answers : ∃ m ∈ members, m.answersTo new (t.place new) = true := by simpa using silent
      obtain rfl := Except.ok.inj h
      exact .unmountLast mounted answers empty
    · have answers : ∃ m ∈ members, m.answersTo new (t.place new) = true := by simpa using silent
      obtain rfl := Except.ok.inj h
      exact .unmountSome mounted answers empty

theorem changes_of_apply (h : t.apply call = .ok t') : Changes t call t' := by
  cases call with
  | bind new old p =>
    obtain rfl := Except.ok.inj h
    exact .attach rfl
  | mount server old spec p =>
    simp only [apply, mount] at h
    split_ifs at h
    obtain rfl := Except.ok.inj h
    exact .attach rfl
  | unmount new old =>
    cases new with
    | none =>
      simp only [apply, unmountAll] at h
      split at h
      · cases h
      · next mounted =>
        obtain rfl := Except.ok.inj h
        exact .unmountAll mounted
    | some new => exact changes_of_unmountMember h
  | clear =>
    obtain rfl := Except.ok.inj h
    exact .clear
  | changeDir dir =>
    simp only [apply, changeDir] at h
    split_ifs at h with named device
    obtain rfl := Except.ok.inj h
    exact .changeDir named (by simpa using device)
  | importTree host remote old p =>
    simp only [apply, importTree] at h
    split_ifs at h
    obtain rfl := Except.ok.inj h
    exact .attach rfl

theorem refuses_of_unmountMember {new old : String} (h : t.unmountMember new old = .error refusal) :
    Refuses t (.unmount (some new) old) refusal := by
  cases mounted : t.unions.find? (t.place old) with
  | none =>
    simp only [unmountMember, mounted] at h
    obtain rfl := Except.error.inj h
    exact .notMounted mounted
  | some members =>
    rw [unmountMember_eq mounted] at h
    split_ifs at h with silent
    obtain rfl := Except.error.inj h
    exact .notAnswered mounted silent

theorem refuses_of_apply (h : t.apply call = .error refusal) : Refuses t call refusal := by
  cases call with
  | bind new old p => cases h
  | mount server old spec p =>
    simp only [apply, mount] at h
    split_ifs at h with blank
    obtain rfl := Except.error.inj h
    obtain rfl := blank
    exact .noServer
  | unmount new old =>
    cases new with
    | none =>
      simp only [apply, unmountAll] at h
      split at h
      · next free =>
        obtain rfl := Except.error.inj h
        exact .notMounted free
      · cases h
    | some new => exact refuses_of_unmountMember h
  | clear => cases h
  | changeDir dir =>
    simp only [apply, changeDir] at h
    split_ifs at h with blank device
    · obtain rfl := Except.error.inj h
      obtain rfl := blank
      exact .noDirectory
    · obtain rfl := Except.error.inj h
      exact .device device
  | importTree host remote old p =>
    simp only [apply, importTree] at h
    split_ifs at h with blank
    obtain rfl := Except.error.inj h
    obtain rfl := blank
    exact .noHost

theorem perform_of_ok (h : t.apply call = .ok t') : NameSpace.perform call t = (.ok (), t') := by
  simp only [NameSpace.perform, h]

theorem apply_of_perform (h : NameSpace.perform call t = (.ok (), t')) : t.apply call = .ok t' := by
  cases answer : t.apply call with
  | ok after => simpa [NameSpace.perform, answer] using h
  | error refusal => simp [NameSpace.perform, answer] at h

theorem perform_of_error (h : t.apply call = .error refusal) :
    NameSpace.perform call t = (.error refusal, t) := by
  simp only [NameSpace.perform, h]

theorem attach_eq_setUnion (t : MountTable) (target : String) (m : Member) (p : Placement) :
    t.attach target m p =
      t.setUnion target (Attachment.joined ⟨target, m, p⟩ (t.seeded target)) := by
  rw [attach, Attachment.joined]
  cases p.position <;> rfl

theorem find?_attach (t : MountTable) (target point : String) (m : Member) (p : Placement) :
    (t.attach target m p).unions.find? point =
      if target = point then some (Attachment.joined ⟨target, m, p⟩ (t.seeded target))
      else t.unions.find? point := by
  rw [attach_eq_setUnion, find?_setUnion]

end MountTable
end MountScript
