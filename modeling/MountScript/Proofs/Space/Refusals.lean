import MountScript.Proofs.Space.Answers

/-!
# Refused calls

A table refuses a call that names nothing where a name is needed, that would enter a device, or that
takes away what is not there, and it refuses no other. A refused call leaves no trace, also when
members are taken away in place and it is only seen afterwards that none was.
-/

namespace MountScript

def Call.Unfit : Call → Prop
  | .mount server _ _ _ => server = ""
  | .importTree host _ _ _ => host = ""
  | .changeDir dir => dir = "" ∨ dir.toList.head? = some '#'
  | .bind .. | .unmount .. | .clear => False

namespace MountTable

/-- A name stands for the path or the server to which it is normalized, and for the host that is
spelled as it is. -/
inductive Named (t : MountTable) (name : String) : Source → Prop
  | path : Named t name (.path (t.place name))
  | service {spec : Option String} : Named t name (.service (t.place name) spec)
  | remote {tree : String} : Named t name (.remote name tree)

def Misses (t : MountTable) : Call → Prop
  | .unmount none old => t.union? old = none
  | .unmount (some new) old =>
    t.union? old = none ∨
      ∃ members, t.union? old = some members ∧ ∀ m ∈ members, ¬t.Named new m.source
  | .bind .. | .mount .. | .clear | .changeDir .. | .importTree .. => False

/-- Takes members away in place. The union is cut down first, and its length tells afterwards
whether a member was taken away. -/
def cutDown (t : MountTable) (new old : String) : Except Refusal Unit × MountTable :=
  let target := t.place old
  match t.unions.find? target with
  | none => (.error (.notMounted target), t)
  | some members =>
    let cut := t.setUnion target (t.others new members)
    if (t.others new members).length = members.length then
      (.error (.notMounted (t.place new ++ " on " ++ target)), cut)
    else if t.others new members = [] then (.ok (), cut.dropUnion target)
    else (.ok (), cut)

variable {t after : MountTable} {call : Call} {refusal : Refusal}

theorem answersTo_iff_named {m : Member} {name : String} :
    m.answersTo name (t.place name) = true ↔ t.Named name m.source := by
  obtain ⟨source, create, cache⟩ := m
  constructor
  · intro answers
    cases source with
    | path path =>
      obtain rfl : path = t.place name := by simpa [Member.answersTo] using answers
      exact .path
    | service server spec =>
      obtain rfl : server = t.place name := by simpa [Member.answersTo] using answers
      exact .service
    | remote host tree =>
      obtain rfl : host = name := by simpa [Member.answersTo] using answers
      exact .remote
  · intro named
    cases named <;> simp [Member.answersTo]

theorem setUnion_of_find? {target : String} {members : List Member}
    (mounted : t.unions.find? target = some members) : t.setUnion target members = t := by
  refine ext_find? rfl fun point => ?_
  rw [find?_setUnion]
  split
  · next h => rw [← h, mounted]
  · rfl

theorem dropUnion_setUnion (target : String) (members : List Member) :
    (t.setUnion target members).dropUnion target = t.dropUnion target := by
  refine ext_find? rfl fun point => ?_
  rw [find?_dropUnion, find?_dropUnion, find?_setUnion]
  split <;> rfl

theorem setUnion_setUnion (t : MountTable) (target : String) (first second : List Member) :
    (t.setUnion target first).setUnion target second = t.setUnion target second := by
  refine ext_find? rfl fun point => ?_
  simp only [find?_setUnion]
  split <;> rfl

theorem others_of_silent {new : String} {members : List Member}
    (silent : ∀ m ∈ members, m.answersTo new (t.place new) = false) :
    t.others new members = members := by
  rw [others, List.filter_eq_self]
  intro m hm
  simp [silent m hm]

theorem cutDown_eq (t : MountTable) (new old : String) :
    t.cutDown new old = NameSpace.perform (.unmount (some new) old) t := by
  cases mounted : t.unions.find? (t.place old) with
  | none => simp [cutDown, NameSpace.perform, apply, unmountMember, mounted]
  | some members =>
    simp only [cutDown, NameSpace.perform, apply, mounted, unmountMember_eq mounted,
      length_others_eq_iff]
    split_ifs with silent empty
    · rw [others_of_silent silent, setUnion_of_find? mounted]
    · rw [dropUnion_setUnion]
    · rfl

theorem apply_of_refuses (h : t.Refuses call refusal) : t.apply call = .error refusal := by
  cases h with
  | noServer => rfl
  | noHost => rfl
  | noDirectory => rfl
  | @device dir device =>
    have named : dir ≠ "" := by
      rintro rfl
      simp [Path.isDevice] at device
    simp [apply, changeDir, named, device]
  | @notMounted new old free =>
    cases new with
    | none => simp [apply, unmountAll, free]
    | some new => simp [apply, unmountMember, free]
  | notAnswered mounted silent =>
    rw [apply, unmountMember_eq mounted, if_pos silent]

theorem apply_eq_error_iff : t.apply call = .error refusal ↔ t.Refuses call refusal :=
  ⟨refuses_of_apply, apply_of_refuses⟩

theorem perform_eq_error_iff :
    NameSpace.perform call t = (.error refusal, after) ↔ t.Refuses call refusal ∧ after = t := by
  rw [← apply_eq_error_iff]
  cases h : t.apply call with
  | ok next => simp [perform_of_ok h]
  | error cause => simp [perform_of_error h, eq_comm]

theorem answer_eq_error_iff :
    (NameSpace.perform call t).1 = .error refusal ↔ t.Refuses call refusal := by
  rw [← apply_eq_error_iff]
  cases h : t.apply call with
  | ok next => simp [perform_of_ok h]
  | error cause => simp [perform_of_error h]

theorem refuses_invalidSpec_iff : (∃ detail, t.Refuses call (.invalidSpec detail)) ↔ call.Unfit := by
  constructor
  · rintro ⟨detail, h⟩
    cases h with
    | noServer | noHost => exact rfl
    | noDirectory => exact .inl rfl
    | device device => exact .inr (by simpa [Path.isDevice] using device)
  · intro h
    cases call with
    | bind | unmount | clear => exact h.elim
    | mount server old spec p =>
      obtain rfl : server = "" := h
      exact ⟨_, .noServer⟩
    | importTree host remote old p =>
      obtain rfl : host = "" := h
      exact ⟨_, .noHost⟩
    | changeDir dir =>
      rcases h with rfl | device
      · exact ⟨_, .noDirectory⟩
      · exact ⟨_, .device (by simpa [Path.isDevice] using device)⟩

theorem refuses_notMounted_iff : (∃ path, t.Refuses call (.notMounted path)) ↔ t.Misses call := by
  have silent_iff : ∀ (new : String) (members : List Member),
      (∀ m ∈ members, m.answersTo new (t.place new) = false) ↔
        ∀ m ∈ members, ¬t.Named new m.source := by
    intro new members
    simp only [← answersTo_iff_named, Bool.not_eq_true]
  constructor
  · rintro ⟨path, h⟩
    cases h with
    | @notMounted new old free =>
      cases new with
      | none => exact free
      | some new => exact .inl free
    | notAnswered mounted silent => exact .inr ⟨_, mounted, (silent_iff _ _).mp silent⟩
  · intro h
    cases call with
    | bind | mount | clear | changeDir | importTree => exact h.elim
    | unmount new old =>
      cases new with
      | none => exact ⟨_, .notMounted h⟩
      | some new =>
        rcases h with free | ⟨members, mounted, unnamed⟩
        · exact ⟨_, .notMounted free⟩
        · exact ⟨_, .notAnswered mounted ((silent_iff _ _).mpr unnamed)⟩

theorem Refuses.kind (h : t.Refuses call refusal) :
    (∃ detail, refusal = .invalidSpec detail) ∨ ∃ path, refusal = .notMounted path := by
  cases h with
  | noServer | noHost | noDirectory | device => exact .inl ⟨_, rfl⟩
  | notMounted | notAnswered => exact .inr ⟨_, rfl⟩

theorem accepts_iff :
    (NameSpace.perform call t).1 = .ok () ↔ ¬call.Unfit ∧ ¬t.Misses call := by
  rw [← refuses_invalidSpec_iff, ← refuses_notMounted_iff]
  simp only [← answer_eq_error_iff]
  cases answer : (NameSpace.perform call t).1 with
  | ok => simp
  | error refusal =>
    rcases (answer_eq_error_iff.mp answer).kind with ⟨_, rfl⟩ | ⟨_, rfl⟩ <;> simp

/-- A refused call leaves the table as it was, and each refusal has its reason. A specifier is
refused for a server, a host or a directory that is not named, and for a device as the directory;
that something is not mounted is said of a mount point that is none and of a union of which no
member goes by the name that was given. All other calls are accepted. To cut a union down in place,
before it is known whether a member goes, comes to the same. -/
theorem refused_leaves_no_trace (t : MountTable) (call : Call) :
    (∀ refusal after, NameSpace.perform call t = (.error refusal, after) ↔
      t.Refuses call refusal ∧ after = t) ∧
    ((∃ detail, (NameSpace.perform call t).1 = .error (.invalidSpec detail)) ↔ call.Unfit) ∧
    ((∃ path, (NameSpace.perform call t).1 = .error (.notMounted path)) ↔ t.Misses call) ∧
    ((NameSpace.perform call t).1 = .ok () ↔ ¬call.Unfit ∧ ¬t.Misses call) ∧
    ∀ new old, t.cutDown new old = NameSpace.perform (.unmount (some new) old) t := by
  refine ⟨fun refusal after => perform_eq_error_iff, ?_, ?_, accepts_iff, t.cutDown_eq⟩
  · simp only [answer_eq_error_iff]
    exact refuses_invalidSpec_iff
  · simp only [answer_eq_error_iff]
    exact refuses_notMounted_iff

end MountTable
end MountScript
