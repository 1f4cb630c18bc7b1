import MountScript.Build.Catalogue
import MountScript.File.Build
import MountScript.Proofs.Build.Observation
import MountScript.Space.MountTable

/-!
# How a build enters and leaves scripts

What a build asks of its loader is well nested, also when the build fails: each script that was
opened is left once, the last one opened first, and nothing else is left. After a refusal the build
only leaves the scripts that are still open. So a loader of files ends in the state it began in.
-/

namespace MountScript

/-- The paths of the scripts that are open after the visits, innermost first, or `none` if a script
is left that is not the innermost one. -/
def openAfter : List String → List Visit → Option (List String)
  | opened, [] => some opened
  | opened, .opened path _ :: visits => openAfter (path :: opened) visits
  | opened, .refused _ _ :: visits => openAfter opened visits
  | [], .left _ :: _ => none
  | innermost :: opened, .left path :: visits =>
    if innermost = path then openAfter opened visits else none

theorem openAfter_append (opened : List String) (first second : List Visit) :
    openAfter opened (first ++ second) = (openAfter opened first).bind (openAfter · second) := by
  induction first generalizing opened with
  | nil => rfl
  | cons visit visits ih =>
    cases visit with
    | opened path script => exact ih (path :: opened)
    | refused path cause => exact ih opened
    | left path =>
      cases opened with
      | nil => rfl
      | cons innermost opened =>
        simp only [List.cons_append, openAfter]
        split
        · exact ih opened
        · rfl

theorem openAfter_append_of_eq {opened between : List String} {first : List Visit}
    (h : openAfter opened first = some between) (second : List Visit) :
    openAfter opened (first ++ second) = openAfter between second := by
  rw [openAfter_append, h]
  rfl

def Visit.IsRefusal : Visit → Prop
  | refused _ _ => True
  | _ => False

/-- Visits that leave the same scripts open as there were before. Any scripts may be open around
them, and after a refusal there are only the leaves of those that were opened within. -/
structure Bracketed (visits : List Visit) : Prop where
  closes : ∀ opened, openAfter opened visits = some opened
  unwinds : ∀ before path cause after, visits = before ++ .refused path cause :: after →
    ∀ opened, ∃ within, openAfter opened before = some (within ++ opened) ∧
      after = within.map Visit.left

theorem append_eq_append_cons_iff {α : Type} {first second before after : List α} {x : α} :
    first ++ second = before ++ x :: after ↔
      (∃ middle, before = first ++ middle ∧ second = middle ++ x :: after) ∨
        ∃ middle, first = before ++ x :: middle ∧ after = middle ++ second := by
  rw [List.append_eq_append_iff]
  constructor
  · rintro (⟨middle, rfl, h⟩ | ⟨middle, rfl, h⟩)
    · exact .inl ⟨middle, rfl, h⟩
    · rcases List.cons_eq_append_iff.mp h with ⟨rfl, rfl⟩ | ⟨middle, rfl, rfl⟩
      · exact .inl ⟨[], by simp, rfl⟩
      · exact .inr ⟨middle, rfl, rfl⟩
  · rintro (⟨middle, rfl, h⟩ | ⟨middle, rfl, rfl⟩)
    · exact .inl ⟨middle, rfl, h⟩
    · exact .inr ⟨x :: middle, rfl, rfl⟩

namespace Bracketed

variable {first second inside : List Visit}

theorem nil : Bracketed [] where
  closes _ := rfl
  unwinds before path cause after h := by simp at h

theorem refusal (path : String) (cause : IncludeError) : Bracketed [.refused path cause] where
  closes _ := rfl
  unwinds before refused cause' after h opened := by
    rcases List.cons_eq_append_iff.mp h with ⟨rfl, h⟩ | ⟨rest, -, h⟩
    · exact ⟨[], rfl, (List.cons.inj h).2.symm⟩
    · simp at h

theorem enclose (h : Bracketed inside) (path : String) (script : Script) :
    Bracketed (.opened path script :: (inside ++ [.left path])) where
  closes opened := by
    rw [openAfter, openAfter_append_of_eq (h.closes _)]
    simp [openAfter]
  unwinds before refused cause after hsplit opened := by
    rcases List.cons_eq_append_iff.mp hsplit with ⟨-, hfirst⟩ | ⟨before, rfl, hsplit⟩
    · simp at hfirst
    · have htail := (List.cons.inj hsplit).2
      rcases append_eq_append_cons_iff.mp htail with ⟨rest, -, hlast⟩ | ⟨rest, hinside, rfl⟩
      · rcases List.singleton_eq_append_iff.mp hlast with ⟨-, hlast⟩ | ⟨-, hlast⟩ <;> simp at hlast
      · obtain ⟨within, hopen, rfl⟩ :=
          h.unwinds before refused cause rest hinside (path :: opened)
        refine ⟨within ++ [path], ?_, by simp⟩
        rw [openAfter, hopen]
        simp

theorem free_enclose (free : ∀ visit ∈ inside, ¬visit.IsRefusal) (path : String)
    (script : Script) :
    ∀ visit ∈ Visit.opened path script :: (inside ++ [.left path]), ¬visit.IsRefusal := by
  simpa [Visit.IsRefusal, or_imp, forall_and] using free

theorem append (h₁ : Bracketed first) (free : ∀ visit ∈ first, ¬visit.IsRefusal)
    (h₂ : Bracketed second) : Bracketed (first ++ second) where
  closes opened := by
    rw [openAfter_append_of_eq (h₁.closes opened)]
    exact h₂.closes opened
  unwinds before path cause after hsplit opened := by
    rcases append_eq_append_cons_iff.mp hsplit with ⟨rest, rfl, hsecond⟩ | ⟨rest, hfirst, -⟩
    · rw [openAfter_append_of_eq (h₁.closes opened)]
      exact h₂.unwinds rest path cause after hsecond opened
    · exact absurd trivial (free (.refused path cause) (by simp [hfirst]))

end Bracketed

section Replay

variable {σ ℓ : Type} [NameSpace σ] [BoundedLoader ℓ]

omit [NameSpace σ] in
theorem visits_leave {path : String} {script : Script} {loader entered left : ObservedLoader ℓ}
    {inside : List Visit} (answer : Loader.enter path loader = (.ok script, entered))
    (hinside : left.visits = entered.visits ++ inside) :
    (Loader.leave path left).visits =
      loader.visits ++ .opened path script :: (inside ++ [.left path]) := by
  have hentered := (enter_observed_iff.mp answer).2
  simp [Loader.leave, hinside, hentered, Visit.ofAnswer]

theorem Replays.bracketed {index : Nat} {script : Script} {space : σ} {loader : ObservedLoader ℓ}
    {o : Outcome Tally σ (ObservedLoader ℓ)} (h : Replays index script space loader o) :
    ∃ visits, o.loader.visits = loader.visits ++ visits ∧ Bracketed visits ∧
      (o.result.isOk → ∀ visit ∈ visits, ¬visit.IsRefusal) := by
  induction h with
  | done | arity | refused => exact ⟨[], by simp, .nil, by simp⟩
  | applied _ _ _ ih => simpa using ih
  | barred _ answer => exact ⟨_, (enter_observed_iff.mp answer).2, .refusal _ _, nofun⟩
  -- The leave is made in both ways of ending, which is what keeps a failed include bracketed.
  | @failed _ _ _ _ _ _ _ _ path script _ _ answer _ ih =>
    obtain ⟨visits, hvisits, hb, -⟩ := ih
    exact ⟨_, visits_leave answer hvisits, hb.enclose path script, nofun⟩
  | @included _ _ _ _ _ _ _ _ path script _ _ _ answer _ _ inside rest =>
    obtain ⟨visits, hvisits, hb, free⟩ := inside
    obtain ⟨more, hmore, hb', free'⟩ := rest
    have hfree := Bracketed.free_enclose (free rfl) path script
    refine ⟨_, ?_, (hb.enclose path script).append hfree hb', fun hok visit hvisit => ?_⟩
    · rw [Outcome.loader_map, hmore, visits_leave answer hvisits, List.append_assoc]
    · rw [Outcome.result_map, Outcome.isOk_map] at hok
      exact (List.mem_append.mp hvisit).elim (hfree visit) (free' hok visit)

theorem openAfter_replay (index : Nat) (script : Script) (space : σ) {loader : ObservedLoader ℓ}
    {opened : List String} (h : openAfter [] loader.visits = some opened) :
    openAfter [] (replay index script space loader).loader.visits = some opened := by
  obtain ⟨visits, hvisits, hb, -⟩ := (replays_replay index script space loader).bracketed
  rw [hvisits, openAfter_append_of_eq h, hb.closes]

theorem Replays.loader_eq
    (refused : ∀ {path : String} {l after : ℓ} {cause : IncludeError},
      Loader.enter path l = (.error cause, after) → after = l)
    (left : ∀ {path : String} {l entered : ℓ} {script : Script},
      Loader.enter path l = (.ok script, entered) → Loader.leave path entered = l)
    {index : Nat} {script : Script} {space : σ} {loader : ℓ} {o : Outcome Tally σ ℓ}
    (h : Replays index script space loader o) : o.loader = loader := by
  induction h with
  | done | arity | refused => rfl
  | applied _ _ _ ih => exact ih
  | barred _ answer => exact refused answer
  | failed _ answer _ ih =>
    obtain rfl : _ = _ := ih
    exact left answer
  | included _ answer _ _ inside rest =>
    obtain rfl : _ = _ := inside
    exact rest.trans (left answer)

end Replay

namespace FileLoader

theorem eq_of_enter_error {path : String} {l after : FileLoader} {cause : IncludeError}
    (h : Loader.enter path l = (.error cause, after)) : after = l := by
  simp only [Loader.enter, enter] at h
  split at h
  · exact (Prod.mk.inj h).2.symm
  · simp at h

theorem leave_of_enter_ok {path : String} {l entered : FileLoader} {script : Script}
    (h : Loader.enter path l = (.ok script, entered)) : Loader.leave path entered = l := by
  simp only [Loader.enter, enter] at h
  split at h
  · simp at h
  · obtain ⟨-, rfl⟩ := Prod.mk.inj h
    rfl

end FileLoader

theorem Replays.fileLoader_eq {σ : Type} [NameSpace σ] {index : Nat} {script : Script} {space : σ}
    {files : FileLoader} {o : Outcome Tally σ FileLoader}
    (h : Replays index script space files o) : o.loader = files :=
  h.loader_eq FileLoader.eq_of_enter_error FileLoader.leave_of_enter_ok

namespace BuildMode

variable {σ ℓ : Type} [NameSpace σ] [BoundedLoader ℓ]

theorem bracketed_visits (mode : BuildMode) (script : Script) (space : σ) (loader : ℓ) :
    Bracketed (mode.visits script space loader) := by
  rw [visits, observe]
  rcases mode.loader_run script (ObservedSpace.mk space []) (ObservedLoader.mk loader []) with
    h | ⟨start, h⟩
  · rw [h]
    exact .nil
  · obtain ⟨visits, hvisits, hb, -⟩ :=
      (replays_replay 0 script start (ObservedLoader.mk loader [])).bracketed
    rw [h, hvisits]
    exact hb

theorem files_run (mode : BuildMode) (script : Script) (space : σ) (files : FileLoader) :
    (mode.run script space files).loader = files := by
  rcases mode.loader_run script space files with h | ⟨start, h⟩
  · exact h
  · rw [h]
    exact (replays_replay 0 script start files).fileLoader_eq

/-- Every script that a build opened it leaves once, the last one opened first, and it leaves no
other. Once it is refused a script, it leaves those that are open and asks for nothing more. A
loader of files is afterwards as it was before. -/
theorem visits_nested (mode : BuildMode) (script : Script) (space : σ) (loader : ℓ) :
    openAfter [] (mode.visits script space loader) = some [] ∧
      (∀ before path cause after,
        mode.visits script space loader = before ++ .refused path cause :: after →
        ∃ opened, openAfter [] before = some opened ∧ after = opened.map Visit.left) ∧
      ∀ files : FileLoader, (mode.run script space files).loader = files ∧
        (mode.run script space files).loader.depth = files.depth := by
  have hb := mode.bracketed_visits script space loader
  refine ⟨hb.closes [], fun before path cause after h => ?_, fun files => ?_⟩
  · obtain ⟨within, hopen, hafter⟩ := hb.unwinds before path cause after h []
    exact ⟨within, by simpa using hopen, hafter⟩
  · have hfiles := mode.files_run script space files
    exact ⟨hfiles, by rw [hfiles]⟩

theorem visits_nested_barred :
    let inner : Script := [⟨.includeScript, .replace, ["b"], 1⟩]
    let script : Script := [⟨.changeDir, .replace, ["/"], 1⟩, ⟨.includeScript, .replace, ["a"], 2⟩]
    let loader := Catalogue.start [("a", .text ". b"), ("b", .cyclic)] 8
    let visits := fromScratch.visits script MountTable.empty loader
    visits = [.opened "a" inner] ++ .refused "b" (.cycle "b") :: [.left "a"] ∧
      openAfter [] visits = some [] ∧
      ∃ opened, openAfter [] [.opened "a" inner] = some opened ∧
        [.left "a"] = opened.map Visit.left := by
  intro inner script loader visits
  have hvisits : visits = [.opened "a" inner] ++ .refused "b" (.cycle "b") :: [.left "a"] := by
    decide +kernel
  obtain ⟨hclosed, hbarred, -⟩ := visits_nested fromScratch script MountTable.empty loader
  exact ⟨hvisits, hclosed, hbarred _ _ _ _ hvisits⟩

end BuildMode

end MountScript
