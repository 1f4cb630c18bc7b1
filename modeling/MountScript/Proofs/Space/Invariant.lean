import MountScript.Proofs.Space.Deepest

/-!
# What holds of every mount table

A table is reachable if some calls, refused ones among them, lead to it from the empty table. In a
reachable table every union has a member, every mount point and every path of a member is a device
or canonical, and the current directory is canonical. Each operation on a table keeps this, so each
call does, and so does each run of calls.
-/

namespace MountScript

namespace NameSpace

variable {σ : Type} [NameSpace σ]

def performAll (space : σ) (calls : List Call) : σ :=
  calls.foldl (fun s call => (perform call s).2) space

@[simp] theorem performAll_nil (space : σ) : performAll space [] = space := rfl

@[simp] theorem performAll_cons (space : σ) (call : Call) (calls : List Call) :
    performAll space (call :: calls) = performAll (perform call space).2 calls := rfl

theorem performAll_append (space : σ) (first second : List Call) :
    performAll space (first ++ second) = performAll (performAll space first) second :=
  List.foldl_append

end NameSpace

def Member.Proper (m : Member) : Prop :=
  match m.source with
  | .path name => Path.Proper name ∧ m.cache = false
  | .service server spec => Path.Proper server ∧ spec ≠ some ""
  | .remote host _ => host ≠ ""

namespace MountTable

def Reachable (t : MountTable) : Prop := ∃ calls, NameSpace.performAll empty calls = t

structure WellFormed (t : MountTable) : Prop where
  cwd_canonical : Path.Canonical t.cwd
  point_proper : ∀ point members, t.unions.find? point = some members → Path.Proper point
  union_ne_nil : ∀ point members, t.unions.find? point = some members → members ≠ []
  member_proper : ∀ point members, t.unions.find? point = some members →
    ∀ m ∈ members, m.Proper

variable {t t' : MountTable}

theorem find?_setUnion (t : MountTable) (target point : String) (members : List Member) :
    (t.setUnion target members).unions.find? point =
      if target = point then some members else t.unions.find? point :=
  t.unions.find?_insert target members point

theorem find?_dropUnion (t : MountTable) (target point : String) :
    (t.dropUnion target).unions.find? point =
      if target = point then none else t.unions.find? point :=
  t.unions.find?_erase target point

theorem ext_find? {s t : MountTable} (cwd : s.cwd = t.cwd)
    (same : ∀ point, s.unions.find? point = t.unions.find? point) : s = t := by
  cases s
  cases t
  obtain rfl := PathMap.ext_find? same
  obtain rfl := cwd
  rfl

theorem wellFormed_empty : empty.WellFormed where
  cwd_canonical := Or.inl rfl
  point_proper _ _ h := by simp [empty] at h
  union_ne_nil _ _ h := by simp [empty] at h
  member_proper _ _ h := by simp [empty] at h

theorem proper_place (t : MountTable) (path : String) : Path.Proper (t.place path) :=
  Path.proper_normalize t.cwd path

theorem WellFormed.setUnion (h : t.WellFormed) {target : String} {members : List Member}
    (htarget : Path.Proper target) (hne : members ≠ []) (hm : ∀ m ∈ members, m.Proper) :
    (t.setUnion target members).WellFormed := by
  have hfind : ∀ point found, (t.setUnion target members).unions.find? point = some found →
      (target = point ∧ members = found) ∨ t.unions.find? point = some found := by
    intro point found hf
    rw [find?_setUnion] at hf
    split at hf
    · next he => exact Or.inl ⟨he, Option.some.inj hf⟩
    · exact Or.inr hf
  refine ⟨h.cwd_canonical, fun point found hf => ?_, fun point found hf => ?_,
    fun point found hf => ?_⟩
  · rcases hfind point found hf with ⟨rfl, rfl⟩ | hf
    · exact htarget
    · exact h.point_proper point found hf
  · rcases hfind point found hf with ⟨rfl, rfl⟩ | hf
    · exact hne
    · exact h.union_ne_nil point found hf
  · rcases hfind point found hf with ⟨rfl, rfl⟩ | hf
    · exact hm
    · exact h.member_proper point found hf

theorem WellFormed.dropUnion (h : t.WellFormed) (target : String) :
    (t.dropUnion target).WellFormed := by
  have hfind : ∀ point found, (t.dropUnion target).unions.find? point = some found →
      t.unions.find? point = some found := by
    intro point found hf
    rw [find?_dropUnion] at hf
    split at hf
    · simp at hf
    · exact hf
  exact ⟨h.cwd_canonical, fun point found hf => h.point_proper point found (hfind _ _ hf),
    fun point found hf => h.union_ne_nil point found (hfind _ _ hf),
    fun point found hf => h.member_proper point found (hfind _ _ hf)⟩

theorem WellFormed.seeded_proper (h : t.WellFormed) {target : String}
    (htarget : Path.Proper target) : ∀ m ∈ t.seeded target, m.Proper := by
  intro m hm
  rw [seeded] at hm
  cases hf : t.unions.find? target with
  | none =>
    obtain rfl : m = .underlying target := by simpa [hf] using hm
    exact ⟨htarget, rfl⟩
  | some members => exact h.member_proper target members hf m (by simpa [hf] using hm)

theorem WellFormed.attach (h : t.WellFormed) {target : String} {m : Member}
    (htarget : Path.Proper target) (hm : m.Proper) (p : Placement) :
    (t.attach target m p).WellFormed := by
  have hseed := h.seeded_proper htarget
  rw [MountTable.attach]
  cases p.position with
  | replace => exact h.setUnion htarget (by simp) (by simpa using hm)
  | before => exact h.setUnion htarget (by simp) (by simpa [hm] using hseed)
  | after =>
    refine h.setUnion htarget (by simp) fun x hx => ?_
    rcases List.mem_append.mp hx with hx | hx
    · exact hseed x hx
    · obtain rfl : x = m := by simpa using hx
      exact hm

theorem WellFormed.bind (h : t.WellFormed) (new old : String) (p : Placement) :
    (t.bind new old p).WellFormed := by
  have hm : Member.Proper { Member.placed (.path (t.place new)) p with cache := false } :=
    ⟨t.proper_place new, rfl⟩
  exact h.attach (t.proper_place old) hm p

theorem WellFormed.mount (h : t.WellFormed) {server old : String} {spec : Option String}
    {p : Placement} (ht : t.mount server old spec p = .ok t') : t'.WellFormed := by
  rw [MountTable.mount] at ht
  split at ht
  · simp at ht
  · obtain rfl := Except.ok.inj ht
    have hspec : spec.filter (· ≠ "") ≠ some "" := by simp [Option.filter_eq_some_iff]
    have hm : (Member.placed (.service (t.place server) (spec.filter (· ≠ ""))) p).Proper :=
      ⟨t.proper_place server, hspec⟩
    exact h.attach (t.proper_place old) hm p

theorem WellFormed.importTree (h : t.WellFormed) {host old : String} {remote : Option String}
    {p : Placement} (ht : t.importTree host remote old p = .ok t') : t'.WellFormed := by
  rw [MountTable.importTree] at ht
  split at ht
  · simp at ht
  · next hhost =>
    obtain rfl := Except.ok.inj ht
    have hm : (Member.placed (.remote host (remote.getD "/")) p).Proper := hhost
    exact h.attach (t.proper_place old) hm p

theorem WellFormed.unmountAll (h : t.WellFormed) {old : String}
    (ht : t.unmountAll old = .ok t') : t'.WellFormed := by
  rw [MountTable.unmountAll] at ht
  split at ht
  · simp at ht
  · obtain rfl := Except.ok.inj ht
    exact h.dropUnion _

theorem WellFormed.unmountMember (h : t.WellFormed) {new old : String}
    (ht : t.unmountMember new old = .ok t') : t'.WellFormed := by
  rw [MountTable.unmountMember] at ht
  split at ht
  · simp at ht
  · next members hf =>
    dsimp only at ht
    split at ht
    · simp at ht
    · split at ht
      · obtain rfl := Except.ok.inj ht
        exact h.dropUnion _
      · next hkept =>
        obtain rfl := Except.ok.inj ht
        refine h.setUnion (t.proper_place old) (by simpa using hkept) fun m hm => ?_
        exact h.member_proper _ members hf m (List.mem_filter.mp hm).1

theorem WellFormed.changeDir (h : t.WellFormed) {dir : String}
    (ht : t.changeDir dir = .ok t') : t'.WellFormed := by
  rw [MountTable.changeDir] at ht
  split at ht
  · simp at ht
  · split at ht
    · simp at ht
    · next hdevice =>
      obtain rfl := Except.ok.inj ht
      have hcwd : Path.Canonical (t.place dir) :=
        Path.canonical_normalize (by simpa using hdevice) t.cwd
      exact ⟨hcwd, h.point_proper, h.union_ne_nil, h.member_proper⟩

theorem WellFormed.apply (h : t.WellFormed) {call : Call} (ht : t.apply call = .ok t') :
    t'.WellFormed := by
  cases call with
  | bind new old p =>
    obtain rfl := Except.ok.inj ht
    exact h.bind new old p
  | mount server old spec p => exact h.mount ht
  | unmount new old =>
    cases new with
    | none => exact h.unmountAll ht
    | some new => exact h.unmountMember ht
  | clear =>
    obtain rfl := Except.ok.inj ht
    exact wellFormed_empty
  | changeDir dir => exact h.changeDir ht
  | importTree host remote old p => exact h.importTree ht

theorem WellFormed.perform (h : t.WellFormed) (call : Call) :
    (NameSpace.perform call t).2.WellFormed := by
  simp only [NameSpace.perform]
  cases ht : t.apply call with
  | error refusal => exact h
  | ok t' => exact h.apply ht

theorem WellFormed.performAll (h : t.WellFormed) (calls : List Call) :
    (NameSpace.performAll t calls).WellFormed := by
  induction calls generalizing t with
  | nil => exact h
  | cons call calls ih => exact ih (h.perform call)

theorem Reachable.wellFormed (h : t.Reachable) : t.WellFormed := by
  obtain ⟨calls, rfl⟩ := h
  exact wellFormed_empty.performAll calls

theorem WellFormed.resolve_ne_nil (h : t.WellFormed) (path : String) : t.resolve path ≠ [] := by
  rw [resolve]
  dsimp only
  split
  · simp
  · next point members hd =>
    have hne := h.union_ne_nil point members (deepest?_eq_some_iff.mp hd).1
    simpa using hne

/-- Every run of calls keeps the table well formed. So a union that is mounted has a member, and
every path has a candidate. -/
theorem wellFormed_of_reachable (h : t.Reachable) :
    t.WellFormed ∧ Path.isDevice t.cwd = false ∧
      (∀ path, t.union? path ≠ some []) ∧ ∀ path, t.resolve path ≠ [] := by
  have hwf := h.wellFormed
  refine ⟨hwf, Path.not_device_of_canonical hwf.cwd_canonical, fun path hu => ?_,
    hwf.resolve_ne_nil⟩
  exact hwf.union_ne_nil _ _ hu rfl

theorem wellFormed_of_reachable_relative :
    let t := NameSpace.performAll empty [.changeDir "/usr//glenda/",
      .bind "../lib" "./bin" ⟨false, true, false, true⟩, .unmount none "/bin",
      .mount "#s/boot" "/n/.." (some "") .replace]
    t.mountPoints = ["/", "/usr/glenda/bin"] ∧ t.Reachable ∧ t.WellFormed ∧
      Path.isDevice t.cwd = false ∧ (∀ path, t.union? path ≠ some []) ∧
        ∀ path, t.resolve path ≠ [] :=
  ⟨by decide +kernel, ⟨_, rfl⟩, wellFormed_of_reachable ⟨_, rfl⟩⟩

end MountTable
end MountScript
