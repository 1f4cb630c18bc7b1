import MountScript.Proofs.Path.Canonical

/-!
# What lies below a mount point

A canonical path lies below another if its names continue the names of the other, and what is left
of it is the descent through the names that follow. A part that is grafted on a root can be grafted
name by name, since only the slashes at the end of the root itself are dropped.
-/

namespace MountScript.Path

theorem below?_root {path : List Char} (h : path.head? = some '/') :
    below? ['/'] path = some (if path = ['/'] then [] else path) := by
  simp [below?, h]

theorem below?_eq_some_iff {mount path rest : List Char}
    (h : mount ≠ ['/'] ∨ path.head? ≠ some '/') :
    below? mount path = some rest ↔ path = mount ++ rest ∧ (rest = [] ∨ rest.head? = some '/') := by
  have hroot : ¬(mount = ['/'] ∧ path.head? = some '/') := by
    rintro ⟨hm, hp⟩
    exact h.elim (· hm) (· hp)
  rw [below?, if_neg hroot]
  constructor
  · intro hb
    split at hb
    · next hp =>
      obtain rfl : [] = rest := Option.some.inj hb
      exact ⟨(List.isPrefixOf?_eq_some_iff_append_eq.mp hp).symm, Or.inl rfl⟩
    · next r hp =>
      obtain rfl : '/' :: r = rest := Option.some.inj hb
      exact ⟨(List.isPrefixOf?_eq_some_iff_append_eq.mp hp).symm, Or.inr rfl⟩
    · simp at hb
  · rintro ⟨rfl, hr⟩
    rw [List.isPrefixOf?_eq_some_iff_append_eq.mpr rfl]
    cases rest with
    | nil => rfl
    | cons c cs =>
      obtain rfl : c = '/' := by simpa using hr
      rfl

theorem prefix_of_below? {mount path rest : List Char} (h : below? mount path = some rest) :
    mount <+: path := by
  by_cases hroot : mount = ['/'] ∧ path.head? = some '/'
  · obtain ⟨rfl, hp⟩ := hroot
    obtain ⟨cs, rfl⟩ := List.head?_eq_some_iff.mp hp
    exact ⟨cs, rfl⟩
  · have hside : mount ≠ ['/'] ∨ path.head? ≠ some '/' := by tauto
    exact ⟨rest, ((below?_eq_some_iff hside).mp h).1.symm⟩

theorem below?_self (path : List Char) : below? path path = some [] := by
  by_cases hroot : path = ['/']
  · simp [hroot, below?]
  · exact (below?_eq_some_iff (Or.inl hroot)).mpr ⟨by simp, Or.inl rfl⟩

theorem prefix_of_covers {mount path : String} (h : covers mount path = true) :
    mount.toList <+: path.toList := by
  obtain ⟨rest, hrest⟩ := Option.isSome_iff_exists.mp h
  exact prefix_of_below? hrest

theorem covers_of_covers {mount inner path : String} (hm : covers mount path = true)
    (hi : covers inner path = true) (hl : mount.length < inner.length) :
    covers mount inner = true := by
  obtain ⟨more, hmore⟩ := prefix_of_covers hi
  have hlength : mount.toList.length < inner.toList.length := by
    rwa [String.length_toList, String.length_toList]
  obtain ⟨mid, hmid⟩ := List.prefix_of_prefix_length_le (prefix_of_covers hm)
    (prefix_of_covers hi) hlength.le
  have hfull : mid ≠ [] := by
    rintro rfl
    simp [← hmid] at hlength
  by_cases hroot : mount.toList = ['/']
  · rw [covers, ← hmid, hroot, List.singleton_append, below?_root rfl]
    rfl
  · obtain ⟨rest, hrest⟩ := Option.isSome_iff_exists.mp hm
    obtain ⟨hsplit, hslash⟩ := (below?_eq_some_iff (Or.inl hroot)).mp hrest
    rw [← hmore, ← hmid, List.append_assoc, List.append_right_inj] at hsplit
    obtain ⟨c, cs, rfl⟩ := List.exists_cons_of_ne_nil hfull
    subst hsplit
    have hc : c = '/' := by simpa using hslash
    rw [covers, Option.isSome_iff_exists]
    exact ⟨c :: cs, (below?_eq_some_iff (Or.inl hroot)).mpr ⟨hmid.symm, Or.inr (by simp [hc])⟩⟩

theorem not_covers_of_device {mount path : String} (hm : isDevice mount = true)
    (hp : isDevice path = false) : covers mount path = false := by
  rw [Bool.eq_false_iff]
  intro hc
  obtain ⟨cs, hcs⟩ : ∃ cs, mount.toList = '#' :: cs := by
    simpa [isDevice, List.head?_eq_some_iff] using hm
  obtain ⟨more, hmore⟩ := prefix_of_covers hc
  simp [isDevice, ← hmore, hcs] at hp

theorem descent_ne_slash {names : List (List Char)} (hn : ∀ n ∈ names, IsName n) :
    descent names ≠ ['/'] := by
  cases names with
  | nil => simp
  | cons name names =>
    intro h
    have hname := (hn name List.mem_cons_self).1.1
    simp_all

theorem below?_ofComponents {names more : List (List Char)} (hn : ∀ n ∈ names, IsName n)
    (hm : ∀ n ∈ more, IsName n) :
    below? (ofComponents names) (ofComponents (names ++ more)) = some (descent more) := by
  by_cases hne : names = []
  · subst hne
    rw [List.nil_append, show ofComponents [] = ['/'] from rfl, below?_root rfl]
    by_cases hmore : more = []
    · simp [hmore, ofComponents]
    · rw [ofComponents_of_ne_nil hmore, if_neg (descent_ne_slash hm)]
  · rw [ofComponents_of_ne_nil hne, ofComponents_of_ne_nil (by simp [hne]), descent_append]
    refine (below?_eq_some_iff (Or.inl (descent_ne_slash hn))).mpr ⟨rfl, ?_⟩
    cases more <;> simp

theorem prefix_of_below?_ofComponents {names path : List (List Char)} {rest : List Char}
    (hn : ∀ n ∈ names, IsName n) (hp : ∀ n ∈ path, IsName n)
    (h : below? (ofComponents names) (ofComponents path) = some rest) : names <+: path := by
  by_cases hne : names = []
  · exact hne ▸ List.nil_prefix
  · have hroot : ofComponents names ≠ ['/'] := by
      rw [ofComponents_of_ne_nil hne]
      exact descent_ne_slash hn
    obtain ⟨happ, hrest⟩ := (below?_eq_some_iff (Or.inl hroot)).mp h
    -- The names of both sides, read off the text.
    have hnames := congrArg components happ
    rw [components_ofComponents hp] at hnames
    rcases hrest with rfl | hslash
    · rw [List.append_nil, components_ofComponents hn] at hnames
      exact hnames ▸ List.prefix_rfl
    · obtain ⟨cs, rfl⟩ := List.head?_eq_some_iff.mp hslash
      rw [components_append_slash, components_ofComponents hn] at hnames
      exact ⟨_, hnames.symm⟩

theorem exists_names_below {mount : String} (hm : Proper mount) {path : List (List Char)}
    (hp : ∀ n ∈ path, IsName n)
    (hc : covers mount (ofNames path) = true) :
    ∃ names more, mount = ofNames names ∧ path = names ++ more ∧
      below? mount.toList (ofNames path).toList = some (descent more) := by
  have hpath := not_device_of_canonical (canonical_ofNames hp)
  rcases hm with hdevice | hcanonical
  · rw [not_covers_of_device hdevice hpath] at hc
    simp at hc
  · obtain ⟨names, hn, rfl⟩ := exists_names hcanonical
    obtain ⟨rest, hrest⟩ := Option.isSome_iff_exists.mp hc
    rw [toList_ofNames, toList_ofNames] at hrest
    rw [toList_ofNames, toList_ofNames]
    obtain ⟨more, rfl⟩ := prefix_of_below?_ofComponents hn hp hrest
    exact ⟨names, more, rfl, rfl, below?_ofComponents hn (List.forall_mem_append.mp hp).2⟩

theorem covers_ofNames_append {names more : List (List Char)}
    (hp : ∀ n ∈ names ++ more, IsName n) :
    covers (ofNames names) (ofNames (names ++ more)) = true := by
  obtain ⟨hn, hm⟩ := List.forall_mem_append.mp hp
  simp [covers, below?_ofComponents hn hm]

theorem covers_concat {mount : String} (hm : Proper mount) {names : List (List Char)}
    {name : List Char} (hp : ∀ n ∈ names ++ [name], IsName n)
    (hne : mount ≠ ofNames (names ++ [name])) :
    covers mount (ofNames (names ++ [name])) = covers mount (ofNames names) := by
  have hn := (List.forall_mem_append.mp hp).1
  rw [Bool.eq_iff_iff]
  constructor
  · intro hc
    obtain ⟨front, more, rfl, hsplit, -⟩ := exists_names_below hm hp hc
    have hfront : front <+: names ++ [name] := ⟨more, hsplit.symm⟩
    rcases List.prefix_concat_iff.mp hfront with rfl | ⟨others, rfl⟩
    · exact absurd rfl hne
    · exact covers_ofNames_append hn
  · intro hc
    obtain ⟨front, more, rfl, rfl, -⟩ := exists_names_below hm hn hc
    rw [List.append_assoc] at hp ⊢
    exact covers_ofNames_append hp

def dropSlashes (root : List Char) : List Char := root.rdropWhile (· = '/')

@[simp] theorem graft_nil (root : List Char) : graft root [] = root := rfl

theorem graft_of_ne_nil {rest : List Char} (h : rest ≠ []) (root : List Char) :
    graft root rest = dropSlashes root ++ rest := by
  rw [graft, if_neg (by simpa using h)]
  rfl

theorem getLast?_dropSlashes_ne (root : List Char) : (dropSlashes root).getLast? ≠ some '/' := by
  intro hlast
  have hne : dropSlashes root ≠ [] := fun h => by simp [h] at hlast
  rw [List.getLast?_eq_some_getLast hne, Option.some.injEq] at hlast
  have hother := List.rdropWhile_last_not (· = '/') root hne
  rw [decide_eq_true_eq] at hother
  exact hother hlast

theorem dropSlashes_append_name {name : List Char} (h : IsName name) (cs : List Char) :
    dropSlashes (cs ++ name) = cs ++ name := by
  refine List.rdropWhile_eq_self_iff.mpr fun hne => ?_
  rw [List.getLast_append_of_ne_nil hne h.1.1, decide_eq_true_eq]
  exact fun he => h.2 (he ▸ List.getLast_mem h.1.1)

theorem dropSlashes_append_descent {names : List (List Char)} (hn : ∀ n ∈ names, IsName n)
    (hne : names ≠ []) (cs : List Char) :
    dropSlashes (cs ++ descent names) = cs ++ descent names := by
  obtain ⟨front, last, rfl⟩ := (List.eq_nil_or_concat' names).resolve_left hne
  have hlast : IsName last := hn last (by simp)
  have hcut : cs ++ descent (front ++ [last]) = (cs ++ descent front ++ ['/']) ++ last := by simp
  rw [hcut, dropSlashes_append_name hlast]

theorem dropSlashes_ofComponents {names : List (List Char)} (hn : ∀ n ∈ names, IsName n) :
    dropSlashes (ofComponents names) = descent names := by
  by_cases hne : names = []
  · subst hne
    rfl
  · rw [ofComponents_of_ne_nil hne]
    exact dropSlashes_append_descent hn hne []

theorem graft_ofComponents {names : List (List Char)} (hn : ∀ n ∈ names, IsName n)
    (more : List (List Char)) :
    graft (ofComponents names) (descent more) = ofComponents (names ++ more) := by
  cases more with
  | nil => simp
  | cons first others =>
    have hfull : descent (first :: others) ≠ [] := by simp
    have hne : names ++ first :: others ≠ [] := by simp
    rw [graft_of_ne_nil hfull, dropSlashes_ofComponents hn, ← descent_append,
      ofComponents_of_ne_nil hne]

def child (root : String) (name : List Char) : String :=
  String.ofList (dropSlashes root.toList ++ '/' :: name)

theorem graft_descent_concat {names : List (List Char)} (hn : ∀ n ∈ names, IsName n)
    (root : List Char) (name : List Char) :
    String.ofList (graft root (descent (names ++ [name]))) =
      child (String.ofList (graft root (descent names))) name := by
  by_cases hne : names = []
  · simp [hne, child, graft_of_ne_nil]
  · obtain ⟨first, others, rfl⟩ := List.exists_cons_of_ne_nil hne
    have hfull : descent (first :: others) ≠ [] := by simp
    have hmore : descent (first :: others ++ [name]) ≠ [] := by simp
    rw [child, graft_of_ne_nil hfull, graft_of_ne_nil hmore, String.toList_ofList,
      dropSlashes_append_descent hn hne]
    simp

theorem child_ofNames {names : List (List Char)} (hn : ∀ n ∈ names, IsName n)
    (name : List Char) :
    child (ofNames names) name = ofNames (names ++ [name]) := by
  have hmore : names ++ [name] ≠ [] := by simp
  rw [child, toList_ofNames, ofNames, ofComponents_of_ne_nil hmore, dropSlashes_ofComponents hn]
  simp

def Within (mount path : String) : Prop := path = mount ∨ ∃ rest, path = mount ++ "/" ++ rest

theorem within_iff {mount path : String} :
    Within mount path ↔
      ∃ rest, path.toList = mount.toList ++ rest ∧ (rest = [] ∨ rest.head? = some '/') := by
  constructor
  · rintro (rfl | ⟨rest, rfl⟩)
    · exact ⟨[], by simp, Or.inl rfl⟩
    · exact ⟨'/' :: rest.toList, by simp, Or.inr rfl⟩
  · rintro ⟨rest, happ, rfl | hslash⟩
    · exact Or.inl (String.toList_injective (by simpa using happ))
    · obtain ⟨cs, rfl⟩ := List.head?_eq_some_iff.mp hslash
      exact Or.inr ⟨String.ofList cs, String.toList_injective (by simpa using happ)⟩

theorem below?_device {path : String} (h : isDevice path = true) {mount rest : List Char} :
    below? mount path.toList = some rest ↔
      path.toList = mount ++ rest ∧ (rest = [] ∨ rest.head? = some '/') := by
  refine below?_eq_some_iff (Or.inr fun hslash => ?_)
  simp [isDevice, hslash] at h

theorem covers_iff_within {mount path : String} (h : isDevice path = true) :
    covers mount path = true ↔ Within mount path := by
  rw [covers, Option.isSome_iff_exists, within_iff]
  exact exists_congr fun rest => below?_device h

end MountScript.Path
