import MountScript.Proofs.Path.Relative
import MountScript.Proofs.Space.Locality

/-!
# Entering a directory

What a call does after a directory was entered, the call with the directory written in front of its
paths does before. The two come to the same table and give the same answer, whatever is mounted. Two
things are not paths: the empty name of a server, which is refused, and a name that is meant for a
host.
-/

namespace MountScript

/-- The call as it is made where `dir` is, if it is meant as it is made in `dir`. Hosts and what is
imported from them are no paths here. -/
def Call.via (dir : String) : Call → Call
  | .bind new old p => .bind (Path.via dir new) (Path.via dir old) p
  | .mount server old spec p => .mount (Path.via dir server) (Path.via dir old) spec p
  | .unmount new old => .unmount (new.map (Path.via dir)) (Path.via dir old)
  | .clear => .clear
  | .changeDir path => .changeDir (Path.via dir path)
  | .importTree host remote old p => .importTree host remote (Path.via dir old) p

namespace MountTable

def inDir (t : MountTable) (dir : String) : MountTable := { t with cwd := t.place dir }

/-- What the call names is a path: no server without a name, and nothing that may be a host. -/
def NamesPaths (t : MountTable) : Call → Prop
  | .bind .. | .importTree .. | .unmount none _ => True
  | .mount server .. => server ≠ ""
  | .unmount (some new) old =>
    Path.Rooted new ∨ ∀ members, t.union? old = some members →
      ∀ m ∈ members, ∀ host tree, m.source ≠ .remote host tree
  | .clear | .changeDir _ => False

variable {t : MountTable} {dir old : String} {call : Call}

theorem exists_site_of_namesPaths (h : t.NamesPaths call) : ∃ old, call.site? = some old := by
  cases call with
  | bind | mount | unmount | importTree => exact ⟨_, rfl⟩
  | clear | changeDir => exact h.elim

theorem site?_via (dir : String) (call : Call) :
    (call.via dir).site? = call.site?.map (Path.via dir) := by
  cases call <;> rfl

theorem answersTo_of_local {m : Member} (h : ∀ host tree, m.source ≠ .remote host tree)
    (given other normalized : String) :
    m.answersTo given normalized = m.answersTo other normalized := by
  rw [Member.answersTo, Member.answersTo]
  split
  · rfl
  · rfl
  · next host tree hsource => exact absurd hsource (h host tree)

theorem answersTo_via {members : List Member} {new : String}
    (paths : Path.Rooted new ∨ ∀ m ∈ members, ∀ host tree, m.source ≠ .remote host tree)
    (dir path : String) :
    ∀ m ∈ members, m.answersTo new path = m.answersTo (Path.via dir new) path := by
  intro m hm
  rcases paths with rooted | locals
  · rw [Path.via, if_pos rooted]
  · exact answersTo_of_local (locals m hm) ..

section Named

variable (named : dir ≠ "") (noDevice : Path.isDevice dir = false)

include named noDevice

theorem perform_changeDir (t : MountTable) :
    NameSpace.perform (.changeDir dir) t = (.ok (), t.inDir dir) := by
  simp [NameSpace.perform, apply, changeDir, named, noDevice, inDir]

theorem place_inDir (t : MountTable) (path : String) :
    (t.inDir dir).place path = t.place (Path.via dir path) :=
  (Path.normalize_via named noDevice t.cwd path).symm

theorem union?_inDir (t : MountTable) (path : String) :
    (t.inDir dir).union? path = t.union? (Path.via dir path) := by
  rw [union?, place_inDir named noDevice, union?]
  rfl

theorem resolve_inDir (t : MountTable) (path : String) :
    (t.inDir dir).resolve path = t.resolve (Path.via dir path) := by
  rw [resolve_eq_resolveAt, place_inDir named noDevice, resolve_eq_resolveAt]
  rfl

theorem createTarget?_inDir (t : MountTable) (path : String) :
    (t.inDir dir).createTarget? path = t.createTarget? (Path.via dir path) := by
  rw [createTarget?, union?_inDir named noDevice, place_inDir named noDevice, createTarget?]

theorem others_inDir {members : List Member} {new : String}
    (answers : ∀ m ∈ members, m.answersTo new (t.place (Path.via dir new)) =
      m.answersTo (Path.via dir new) (t.place (Path.via dir new))) :
    (t.inDir dir).others new members = t.others (Path.via dir new) members := by
  refine List.filter_congr fun m hm => ?_
  rw [place_inDir named noDevice, answers m hm]

theorem revise_inDir (paths : (t.inDir dir).NamesPaths call) (site : call.site? = some old) :
    (t.inDir dir).revise ((t.inDir dir).union? old) call =
      t.revise (t.union? (Path.via dir old)) (call.via dir) := by
  have hplace := place_inDir named noDevice t
  rw [union?_inDir named noDevice]
  cases call with
  | bind new old p => simp only [revise, attached, attachment?, Call.via, hplace]
  | mount server old spec p =>
    have hserver : server ≠ "" := paths
    simp only [revise, attached, attachment?, Call.via, hplace, if_neg hserver,
      if_neg (Path.via_ne_empty hserver dir)]
  | importTree host remote old p => simp only [revise, attached, attachment?, Call.via, hplace]
  | unmount new old =>
    obtain rfl := Option.some.inj site
    cases mounted : t.union? (Path.via dir old) with
    | none => simp only [revise, Call.via, hplace]
    | some members =>
      cases new with
      | none => rfl
      | some new =>
        have here : (t.inDir dir).union? old = some members :=
          (union?_inDir named noDevice t old).trans mounted
        have answers := answersTo_via (paths.imp_right fun h => h members here) dir
          (t.place (Path.via dir new))
        have silent_iff : (∀ m ∈ members, m.answersTo new (t.place (Path.via dir new)) = false) ↔
            ∀ m ∈ members,
              m.answersTo (Path.via dir new) (t.place (Path.via dir new)) = false :=
          forall₂_congr fun m hm => by rw [answers m hm]
        simp only [revise, Call.via, Option.map_some, hplace, silent_iff,
          others_inDir named noDevice answers]
  | clear | changeDir => cases site

end Named

/-- To enter a directory and make a call there comes to the same as to make the call with the
directory written in front of its paths, and to enter the directory afterwards: the answer is the same
and so is the table. What is looked up there is what the rewritten path gives outside, and a directory
that is entered from there is the one that the rewritten path names. -/
theorem perform_inDir (named : dir ≠ "") (noDevice : Path.isDevice dir = false) :
    NameSpace.perform (.changeDir dir) t = (.ok (), t.inDir dir) ∧
      (∀ call, (t.inDir dir).NamesPaths call →
        ∃ answer after, NameSpace.perform (call.via dir) t = (answer, after) ∧
          NameSpace.perform (.changeDir dir) after = (.ok (), after.inDir dir) ∧
          NameSpace.perform call (t.inDir dir) = (answer, after.inDir dir)) ∧
      (∀ path, (t.inDir dir).resolve path = t.resolve (Path.via dir path) ∧
        (t.inDir dir).union? path = t.union? (Path.via dir path) ∧
        (t.inDir dir).createTarget? path = t.createTarget? (Path.via dir path)) ∧
      ∀ path, path ≠ "" → Path.isDevice path = false →
        ∃ after, NameSpace.perform (.changeDir path) (t.inDir dir) = (.ok (), after) ∧
          NameSpace.perform (.changeDir (Path.via dir path)) t = (.ok (), after) := by
  refine ⟨perform_changeDir named noDevice t, fun call paths => ?_, fun path => ?_,
    fun path hpath hplain => ?_⟩
  · obtain ⟨old, site⟩ := exists_site_of_namesPaths paths
    have moved : (call.via dir).site? = some (Path.via dir old) := by rw [site?_via, site]; rfl
    refine ⟨_, _, perform_of_site moved, perform_changeDir named noDevice _, ?_⟩
    have hrevise := revise_inDir named noDevice paths site
    rw [perform_of_site site, ← union?, hrevise, place_inDir named noDevice]
    rfl
  · exact ⟨resolve_inDir named noDevice t path, union?_inDir named noDevice t path,
      createTarget?_inDir named noDevice t path⟩
  · have hvia : Path.isDevice (Path.via dir path) = false := by
      rw [Path.isDevice_via named noDevice, hplain]
    refine ⟨_, perform_changeDir hpath hplain _, ?_⟩
    rw [perform_changeDir (Path.via_ne_empty hpath dir) hvia, inDir, inDir,
      ← place_inDir named noDevice]
    rfl

theorem perform_inDir_climbing :
    let t := NameSpace.performAll empty [.bind "/usr/x" "/usr/lib" ⟨true, false, true, false⟩,
      .mount "#s/boot" "/" (some "") .replace, .changeDir "/usr/glenda"]
    let dir := "../../../usr/.//lib"
    let call := Call.unmount (some "../x") "bin/.."
    let after := (NameSpace.perform (call.via dir) t).2
    call.via dir = .unmount (some "../../../usr/.//lib/../x") "../../../usr/.//lib/bin/.." ∧
      NameSpace.perform call (t.inDir dir) = (.ok (), after.inDir dir) ∧ after ≠ t ∧
      (t.inDir dir).resolve "../doc" = t.resolve "../../../usr/.//lib/../doc" ∧
      ∃ below, NameSpace.perform (.changeDir "..") (t.inDir dir) = (.ok (), below) ∧
        NameSpace.perform (.changeDir "../../../usr/.//lib/..") t = (.ok (), below) := by
  intro t dir call after
  have named : dir ≠ "" := by decide
  have noDevice : Path.isDevice dir = false := by decide +kernel
  have mounted : (t.inDir dir).union? "bin/.." =
      some [⟨.path "/usr/x", true, false⟩, ⟨.path "/usr/lib", false, false⟩] := by
    decide +kernel
  have paths : (t.inDir dir).NamesPaths call := Or.inr fun members found => by
    obtain rfl := Option.some.inj (mounted.symm.trans found)
    simp
  have accepted : NameSpace.perform (call.via dir) t = (.ok (), after) := by decide +kernel
  obtain ⟨-, moves, sees, enters⟩ := perform_inDir (t := t) named noDevice
  obtain ⟨answer, left, outside, -, inside⟩ := moves call paths
  obtain ⟨rfl, rfl⟩ := Prod.ext_iff.mp (accepted.symm.trans outside)
  have hdoc : Path.via dir "../doc" = "../../../usr/.//lib/../doc" := by decide +kernel
  have hup : Path.via dir ".." = "../../../usr/.//lib/.." := by decide +kernel
  refine ⟨by decide +kernel, inside, by decide +kernel, hdoc ▸ (sees "../doc").1, ?_⟩
  exact hup ▸ enters ".." (by decide) (by decide +kernel)

end MountTable
end MountScript
