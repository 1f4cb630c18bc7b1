import MountScript.Proofs.Build.Rules

/-!
# Ways to build

A build takes the name space as it stands or clears it first. Then it is one replay of its script.
With a loader that has no bound it returns if some number of levels is enough, and more levels
change nothing (`Returns`); with a bounded loader it always returns, with the outcome that it is run
to (`returns_iff_run`).
-/

namespace MountScript

inductive BuildMode
  | asFound
  | fromScratch
deriving DecidableEq

namespace BuildMode

section Start

variable {σ : Type} [NameSpace σ]

def Starts (mode : BuildMode) (space start : σ) : Prop :=
  match mode with
  | asFound => start = space
  | fromScratch => NameSpace.perform .clear space = (.ok (), start)

def ClearRefused (mode : BuildMode) (space : σ) (cause : Refusal) (after : σ) : Prop :=
  mode = fromScratch ∧ NameSpace.perform .clear space = (.error cause, after)

theorem starts_or_refused (mode : BuildMode) (space : σ) :
    (∃ start, mode.Starts space start) ∨ ∃ cause after, mode.ClearRefused space cause after := by
  cases mode with
  | asFound => exact .inl ⟨space, rfl⟩
  | fromScratch =>
    rcases answer : NameSpace.perform Call.clear space with ⟨cause | _, after⟩
    · exact .inr ⟨cause, after, rfl, answer⟩
    · exact .inl ⟨after, answer⟩

end Start

section Run

variable {σ ℓ : Type} [NameSpace σ] [BoundedLoader ℓ]

def run : BuildMode → Script → σ → ℓ → Outcome Summary σ ℓ
  | asFound => build
  | fromScratch => buildFromScratch

theorem run_of_starts {mode : BuildMode} {space start : σ} (h : mode.Starts space start)
    (script : Script) (loader : ℓ) :
    mode.run script space loader =
      (replay 0 script start loader).map (Tally.summary · (mode = fromScratch)) := by
  cases mode with
  | asFound =>
    obtain rfl : start = space := h
    rfl
  | fromScratch =>
    have answer : NameSpace.perform .clear space = (.ok (), start) := h
    simp only [run, buildFromScratch, answer]
    rfl

theorem run_of_refused {mode : BuildMode} {space after : σ} {cause : Refusal}
    (h : mode.ClearRefused space cause after) (script : Script) (loader : ℓ) :
    mode.run script space loader = ⟨.error (.reset cause), after, loader⟩ := by
  obtain ⟨rfl, answer⟩ := h
  simp only [run, buildFromScratch, answer]

theorem loader_run (mode : BuildMode) (script : Script) (space : σ) (loader : ℓ) :
    (mode.run script space loader).loader = loader ∨
      ∃ start : σ,
        (mode.run script space loader).loader = (replay 0 script start loader).loader := by
  rcases mode.starts_or_refused space with ⟨start, h⟩ | ⟨cause, after, h⟩
  · exact .inr ⟨start, by rw [run_of_starts h]; rfl⟩
  · exact .inl (by rw [run_of_refused h])

end Run

section Levels

variable {σ ℓ : Type} [NameSpace σ] [Loader ℓ]

/-- Runs a build in which scripts may nest by so many levels; `none` is a build that is cut off. -/
def run? (levels : Nat) : BuildMode → Script → σ → ℓ → Option (Outcome Summary σ ℓ)
  | asFound, script, space, loader =>
    (replay? levels 0 script space loader).map (·.map (·.summary false))
  | fromScratch, script, space, loader =>
    match NameSpace.perform .clear space with
    | (.error refusal, space) => some ⟨.error (.reset refusal), space, loader⟩
    | (.ok (), space) => (replay? levels 0 script space loader).map (·.map (·.summary true))

variable {mode : BuildMode} {levels : Nat} {script : Script} {space : σ} {loader : ℓ}
  {o : Outcome Summary σ ℓ}

theorem run?_of_starts {start : σ} (h : mode.Starts space start) (levels : Nat) (script : Script)
    (loader : ℓ) :
    mode.run? levels script space loader =
      (replay? levels 0 script start loader).map
        (·.map (Tally.summary · (mode = fromScratch))) := by
  cases mode with
  | asFound =>
    obtain rfl : start = space := h
    rfl
  | fromScratch =>
    have answer : NameSpace.perform .clear space = (.ok (), start) := h
    simp only [run?, answer, decide_true]

theorem run?_of_refused {cause : Refusal} {after : σ} (h : mode.ClearRefused space cause after)
    (levels : Nat) (script : Script) (loader : ℓ) :
    mode.run? levels script space loader = some ⟨.error (.reset cause), after, loader⟩ := by
  obtain ⟨rfl, answer⟩ := h
  simp only [run?, answer]

theorem run?_mono {more : Nat} (hle : levels ≤ more)
    (h : mode.run? levels script space loader = some o) :
    mode.run? more script space loader = some o := by
  rcases mode.starts_or_refused space with ⟨start, starts⟩ | ⟨cause, after, refused⟩
  · rw [run?_of_starts starts] at h ⊢
    obtain ⟨o, ho, rfl⟩ := Option.map_eq_some_iff.mp h
    rw [replay?_mono hle ho]
    rfl
  · rw [run?_of_refused refused] at h ⊢
    exact h

/-- The build ends with this outcome if scripts may nest deep enough. -/
def Returns (mode : BuildMode) (script : Script) (space : σ) (loader : ℓ)
    (o : Outcome Summary σ ℓ) : Prop :=
  ∃ levels, ∀ more, levels ≤ more → mode.run? more script space loader = some o

theorem returns_of_run? (h : mode.run? levels script space loader = some o) :
    mode.Returns script space loader o :=
  ⟨levels, fun _ hle => run?_mono hle h⟩

theorem Returns.unique {first second : Outcome Summary σ ℓ}
    (h₁ : mode.Returns script space loader first)
    (h₂ : mode.Returns script space loader second) : first = second := by
  obtain ⟨a, ha⟩ := h₁
  obtain ⟨b, hb⟩ := h₂
  have hfirst := ha (max a b) (Nat.le_max_left a b)
  have hsecond := hb (max a b) (Nat.le_max_right a b)
  exact Option.some.inj (hfirst.symm.trans hsecond)

theorem returns_of_replays {start : σ} {p : Outcome Tally σ ℓ} (h : mode.Starts space start)
    (ran : Replays 0 script start loader p) :
    mode.Returns script space loader (p.map (Tally.summary · (mode = fromScratch))) := by
  obtain ⟨levels, hlevels⟩ := ran.exists_levels
  have hrun := run?_of_starts h levels script loader
  rw [hlevels] at hrun
  exact returns_of_run? hrun

end Levels

section Bounded

variable {σ ℓ : Type} [NameSpace σ] [BoundedLoader ℓ]

theorem run?_room (mode : BuildMode) (script : Script) (space : σ) (loader : ℓ) :
    mode.run? (BoundedLoader.room loader) script space loader =
      some (mode.run script space loader) := by
  rcases mode.starts_or_refused space with ⟨start, h⟩ | ⟨cause, after, h⟩
  · rw [run?_of_starts h, run_of_starts h, replay?_room]
    rfl
  · rw [run?_of_refused h, run_of_refused h]

theorem returns_iff_run {mode : BuildMode} {script : Script} {space : σ} {loader : ℓ}
    {o : Outcome Summary σ ℓ} :
    mode.Returns script space loader o ↔ mode.run script space loader = o := by
  have own := returns_of_run? (mode.run?_room script space loader)
  exact ⟨own.unique, fun h => h ▸ own⟩

end Bounded

end BuildMode

end MountScript
