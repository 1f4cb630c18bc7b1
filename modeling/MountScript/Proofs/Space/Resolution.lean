import MountScript.Proofs.Space.Invariant

/-!
# Resolving and walking

A path can be resolved by walking down its names. The walk starts from the roots mounted at the top.
At each name it goes on to the roots mounted there, if there are any, and else one name further down
from every candidate it has. In a reachable table this gives what the search for the deepest mount
point gives. Device names have no names to walk down; the longest mount point that begins one of
them decides.
-/

namespace MountScript

namespace MountTable

variable {t : MountTable}

def rootsAt? (t : MountTable) (names : List (List Char)) : Option (List String) :=
  (t.unions.find? (Path.ofNames names)).map (·.map Member.root)

def walkOn (t : MountTable) (passed : List (List Char)) (found : List String) :
    List (List Char) → List String
  | [] => found
  | name :: names =>
    let here := passed ++ [name]
    t.walkOn here ((t.rootsAt? here).getD (found.map (Path.child · name))) names

def walk (t : MountTable) (names : List (List Char)) : List String :=
  t.walkOn [] ((t.rootsAt? []).getD ["/"]) names

theorem walkOn_concat (t : MountTable) (passed : List (List Char)) (found : List String)
    (names : List (List Char)) (name : List Char) :
    t.walkOn passed found (names ++ [name]) =
      (t.rootsAt? (passed ++ names ++ [name])).getD
        ((t.walkOn passed found names).map (Path.child · name)) := by
  induction names generalizing passed found with
  | nil => simp [walkOn]
  | cons first names ih => simp [walkOn, ih]

theorem walk_concat (t : MountTable) (names : List (List Char)) (name : List Char) :
    t.walk (names ++ [name]) =
      (t.rootsAt? (names ++ [name])).getD ((t.walk names).map (Path.child · name)) := by
  simp [walk, walkOn_concat]

def resolveAt (t : MountTable) (path : String) : List String :=
  match deepest? path t.unions.entries with
  | none => [path]
  | some (mount, members) =>
    members.map fun m => String.ofList
      (Path.graft m.root.toList ((Path.below? mount.toList path.toList).getD []))

theorem resolve_eq_resolveAt (t : MountTable) (path : String) :
    t.resolve path = t.resolveAt (t.place path) := rfl

theorem resolveAt_of_deepest {path point : String} {members : List Member} {rest : List Char}
    (hd : deepest? path t.unions.entries = some (point, members))
    (hb : Path.below? point.toList path.toList = some rest) :
    t.resolveAt path = members.map fun m => String.ofList (Path.graft m.root.toList rest) := by
  rw [resolveAt, hd]
  simp [hb]

theorem deepest?_of_mounted {path : String} {members : List Member}
    (h : t.unions.find? path = some members) :
    deepest? path t.unions.entries = some (path, members) := by
  have hself : Path.covers path path = true := by simp [Path.covers, Path.below?_self]
  refine deepest?_eq_some_iff.mpr ⟨h, hself, fun other _ hc => ?_⟩
  by_cases hl : other.length = path.length
  · exact Or.inl (eq_of_covers_of_length hc hself hl)
  · have hle := (Path.prefix_of_covers hc).length_le
    simp only [String.length_toList] at hle
    exact Or.inr (Nat.lt_of_le_of_ne hle hl)

theorem resolveAt_of_mounted {path : String} {members : List Member}
    (h : t.unions.find? path = some members) : t.resolveAt path = members.map Member.root := by
  rw [resolveAt_of_deepest (deepest?_of_mounted h) (Path.below?_self path.toList)]
  simp

theorem WellFormed.proper_of_mem_keys (h : t.WellFormed) {point : String}
    (hp : point ∈ t.unions.keys) : Path.Proper point := by
  obtain ⟨members, hfind⟩ := PathMap.mem_keys_iff.mp hp
  exact h.point_proper point members hfind

theorem WellFormed.resolveAt_root (h : t.WellFormed) :
    t.resolveAt "/" = (t.rootsAt? []).getD ["/"] := by
  have hroot : Path.ofNames [] = "/" := rfl
  cases hf : t.unions.find? "/" with
  | some members => simp [rootsAt?, hroot, hf, resolveAt_of_mounted hf]
  | none =>
    have hfree : deepest? "/" t.unions.entries = none := by
      refine deepest?_eq_none_iff.mpr fun e he => ?_
      rw [Bool.eq_false_iff]
      intro hc
      have hproper := h.proper_of_mem_keys (List.mem_map_of_mem he)
      obtain ⟨names, more, hname, hsplit, -⟩ :=
        Path.exists_names_below hproper (List.forall_mem_nil Path.IsName) hc
      obtain ⟨rfl, -⟩ := List.append_eq_nil_iff.mp hsplit.symm
      exact PathMap.ne_of_find?_eq_none hf he hname
    simp [rootsAt?, hroot, hf, resolveAt, hfree]

section Down

variable {names : List (List Char)} {name : List Char}

theorem WellFormed.deepest?_concat (h : t.WellFormed) (hn : ∀ n ∈ names ++ [name], Path.IsName n)
    (hf : t.unions.find? (Path.ofNames (names ++ [name])) = none) :
    deepest? (Path.ofNames (names ++ [name])) t.unions.entries =
      deepest? (Path.ofNames names) t.unions.entries := by
  refine deepest?_congr fun e he => ?_
  have hproper := h.proper_of_mem_keys (List.mem_map_of_mem he)
  exact Path.covers_concat hproper hn (PathMap.ne_of_find?_eq_none hf he)

theorem WellFormed.resolveAt_unmounted (h : t.WellFormed)
    (hn : ∀ n ∈ names ++ [name], Path.IsName n)
    (hf : t.unions.find? (Path.ofNames (names ++ [name])) = none) :
    t.resolveAt (Path.ofNames (names ++ [name])) =
      (t.resolveAt (Path.ofNames names)).map (Path.child · name) := by
  have hsame := h.deepest?_concat hn hf
  have habove := (List.forall_mem_append.mp hn).1
  cases hd : deepest? (Path.ofNames names) t.unions.entries with
  | none =>
    rw [resolveAt, resolveAt, hsame, hd]
    simp [Path.child_ofNames habove]
  | some best =>
    obtain ⟨point, members⟩ := best
    obtain ⟨hfind, hcover, -⟩ := deepest?_eq_some_iff.mp hd
    have hproper := h.point_proper point members hfind
    obtain ⟨front, more, rfl, rfl, hbelow⟩ := Path.exists_names_below hproper habove hcover
    obtain ⟨hfront, hmore⟩ := List.forall_mem_append.mp habove
    have hfurther : Path.below? (Path.ofNames front).toList
        (Path.ofNames (front ++ more ++ [name])).toList = some (Path.descent (more ++ [name])) := by
      rw [List.append_assoc] at hn ⊢
      rw [Path.toList_ofNames, Path.toList_ofNames]
      exact Path.below?_ofComponents hfront (List.forall_mem_append.mp hn).2
    rw [hd] at hsame
    rw [resolveAt_of_deepest hsame hfurther, resolveAt_of_deepest hd hbelow, List.map_map]
    exact List.map_congr_left fun m _ => Path.graft_descent_concat hmore m.root.toList name

theorem WellFormed.resolveAt_concat (h : t.WellFormed)
    (hn : ∀ n ∈ names ++ [name], Path.IsName n) :
    t.resolveAt (Path.ofNames (names ++ [name])) =
      (t.rootsAt? (names ++ [name])).getD
        ((t.resolveAt (Path.ofNames names)).map (Path.child · name)) := by
  cases hf : t.unions.find? (Path.ofNames (names ++ [name])) with
  | some members => simp [rootsAt?, hf, resolveAt_of_mounted hf]
  | none =>
    rw [h.resolveAt_unmounted hn hf, rootsAt?, hf]
    rfl

end Down

theorem WellFormed.resolveAt_eq_walk (h : t.WellFormed) {names : List (List Char)}
    (hn : ∀ n ∈ names, Path.IsName n) :
    t.resolveAt (Path.ofNames names) = t.walk names := by
  induction names using List.reverseRecOn with
  | nil => exact h.resolveAt_root
  | append_singleton names name ih =>
    rw [h.resolveAt_concat hn, walk_concat, ih (List.forall_mem_append.mp hn).1]

theorem WellFormed.resolve_eq_walk (h : t.WellFormed) {path : String}
    (hp : Path.isDevice path = false) :
    t.resolve path = t.walk (Path.components (t.place path).toList) := by
  obtain ⟨names, hn, hplace⟩ := Path.exists_names (Path.canonical_normalize hp t.cwd)
  have hnames : Path.components (t.place path).toList = names := by
    rw [place, hplace, Path.toList_ofNames, Path.components_ofComponents hn]
  rw [hnames, resolve_eq_resolveAt, place, hplace, h.resolveAt_eq_walk hn]

theorem WellFormed.device_of_covers (h : t.WellFormed) {point path : String}
    (hp : point ∈ t.unions.keys) (hd : Path.isDevice path = true)
    (hc : Path.covers point path = true) : Path.isDevice point = true := by
  rcases h.proper_of_mem_keys hp with hdevice | hcanonical
  · exact hdevice
  · obtain ⟨names, -, rfl⟩ := Path.exists_names hcanonical
    obtain ⟨cs, hcs⟩ := Path.prefix_of_covers hc
    rw [Path.toList_ofNames, Path.ofComponents] at hcs
    simp [Path.isDevice, ← hcs] at hd

/-- Resolving is walking component by component. The candidates for a device name are those of the
longest mount point that it lies within, itself the name of a device, and else the name alone. -/
theorem resolve_of_reachable (h : t.Reachable) (path : String) :
    (Path.isDevice path = false →
      t.resolve path = t.walk (Path.components (t.place path).toList)) ∧
    (Path.isDevice path = true →
      (t.resolve path = [path] ∧ ∀ point ∈ t.mountPoints, ¬Path.Within point path) ∨
      ∃ point members rest, t.unions.find? point = some members ∧ path = point ++ rest ∧
        Path.Within point path ∧ Path.isDevice point = true ∧
        (∀ other ∈ t.mountPoints, Path.Within other path →
          other = point ∨ other.length < point.length) ∧
        t.resolve path =
          members.map fun m => String.ofList (Path.graft m.root.toList rest.toList)) := by
  refine ⟨h.wellFormed.resolve_eq_walk, fun hdevice => ?_⟩
  have hplace : t.place path = path := Path.normalize_of_device hdevice t.cwd
  rw [resolve_eq_resolveAt, hplace]
  cases hd : deepest? path t.unions.entries with
  | none =>
    refine Or.inl ⟨by rw [resolveAt, hd], fun point hpoint hw => ?_⟩
    obtain ⟨e, he, rfl⟩ := List.mem_map.mp hpoint
    have hfree := deepest?_eq_none_iff.mp hd e he
    exact Bool.eq_false_iff.mp hfree ((Path.covers_iff_within hdevice).mpr hw)
  | some best =>
    obtain ⟨point, members⟩ := best
    obtain ⟨hfind, hcover, hlongest⟩ := deepest?_eq_some_iff.mp hd
    obtain ⟨rest, hrest⟩ := Option.isSome_iff_exists.mp hcover
    have hwithin := (Path.covers_iff_within hdevice).mp hcover
    have hkey : point ∈ t.unions.keys := PathMap.mem_keys_iff.mpr ⟨members, hfind⟩
    have happ := ((Path.below?_device hdevice).mp hrest).1
    refine Or.inr ⟨point, members, String.ofList rest, hfind,
      String.toList_injective (by simpa using happ), hwithin,
      h.wellFormed.device_of_covers hkey hdevice hcover, fun other ho hw => ?_, ?_⟩
    · exact hlongest other ho ((Path.covers_iff_within hdevice).mpr hw)
    · rw [resolveAt_of_deepest hd hrest, String.toList_ofList]

theorem resolve_of_reachable_lookalike :
    let t := NameSpace.performAll empty [.bind "/x//" "/" .replace, .changeDir "/bin",
      .bind "lib" "." ⟨false, true, false, false⟩, .importTree "helix" none "#c" .replace]
    t.Reachable ∧ t.resolve "ls" = ["/bin/ls", "/bin/lib/ls"] ∧
      t.resolve "../binary/ls" = ["/x/binary/ls"] ∧
      t.resolve "../binary/ls" = t.walk (Path.components (t.place "../binary/ls").toList) ∧
      ∃ point members rest, t.unions.find? point = some members ∧ "#c/cons" = point ++ rest ∧
        t.resolve "#c/cons" =
          members.map fun m => String.ofList (Path.graft m.root.toList rest.toList) := by
  intro t
  have hr : t.Reachable := ⟨_, rfl⟩
  have hmounted : ¬(t.resolve "#c/cons" = ["#c/cons"] ∧
      ∀ point ∈ t.mountPoints, ¬Path.Within point "#c/cons") := by
    rintro ⟨h, -⟩
    exact absurd h (by decide +kernel)
  obtain ⟨point, members, rest, hfind, happ, -, -, -, hresolve⟩ :=
    ((resolve_of_reachable hr "#c/cons").2 rfl).resolve_left hmounted
  exact ⟨hr, by decide +kernel, by decide +kernel,
    (resolve_of_reachable hr "../binary/ls").1 rfl, point, members, rest, hfind, happ, hresolve⟩

end MountTable
end MountScript
