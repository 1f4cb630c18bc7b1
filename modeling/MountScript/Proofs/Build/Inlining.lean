import Mathlib.Control.Monad.Basic
import MountScript.Proofs.Build.Composition
import MountScript.Proofs.Build.Observation
import MountScript.Space.MountTable

/-!
# Includes in place

A script with includes builds what the flat script builds in which each include is replaced by the
operations that it stands for, if the loader opens all that is included. The name space is the same
and so are the calls. Only the counts know of the includes, and the error of the flat script is the
innermost one, but for its index. The loader need have no bound, so that the build returns is shown
as well; with a bounded loader what it returns is `build` (`BuildMode.returns_iff_run`).
-/

namespace MountScript

/-- `flat` is the script with every include replaced by what stands in `contents` under its operand,
itself made flat. -/
inductive Flattens (contents : String → Script) : Script → Script → Prop
  | nil : Flattens contents [] []
  | keep {op : Operation} {ops flat : Script} (plain : op.action ≠ .includeScript)
      (rest : Flattens contents ops flat) : Flattens contents (op :: ops) (op :: flat)
  | splice {op : Operation} {ops inner flat : Script} {path : String}
      (action : op.action = .includeScript) (operands : op.operands = [path])
      (inside : Flattens contents (contents path) inner) (rest : Flattens contents ops flat) :
      Flattens contents (op :: ops) (inner ++ flat)

theorem Flattens.unique {contents : String → Script} {script first second : Script}
    (h₁ : Flattens contents script first) (h₂ : Flattens contents script second) :
    first = second := by
  induction h₁ generalizing second with
  | nil => cases h₂; rfl
  | keep plain _ ih =>
    cases h₂ with
    | keep _ rest => rw [ih rest]
    | splice action => exact absurd action plain
  | splice action operands _ _ inside rest =>
    cases h₂ with
    | keep plain => exact absurd action plain
    | splice _ operands' inside' rest' =>
      obtain rfl : _ = _ := by simpa [operands] using operands'
      rw [inside inside', rest rest']

section Serves

variable {ℓ : Type} [Loader ℓ]

/-- On a walk through all of a script and of what it includes, from `loader` to `after`, the loader
refuses nothing and opens what stands in `contents`. -/
inductive Serves (contents : String → Script) : Script → ℓ → ℓ → Prop
  | nil {loader : ℓ} : Serves contents [] loader loader
  | keep {op : Operation} {ops : Script} {loader after : ℓ} (plain : op.action ≠ .includeScript)
      (rest : Serves contents ops loader after) : Serves contents (op :: ops) loader after
  | splice {op : Operation} {ops : Script} {path : String} {loader entered left after : ℓ}
      (action : op.action = .includeScript) (operands : op.operands = [path])
      (answer : Loader.enter path loader = (.ok (contents path), entered))
      (inside : Serves contents (contents path) entered left)
      (rest : Serves contents ops (Loader.leave path left) after) :
      Serves contents (op :: ops) loader after

end Serves

structure Tally.Flattened (tally flat : Tally) : Prop where
  applied : tally.applied = flat.applied + tally.included
  included : flat.included = 0

theorem Tally.Flattened.add {a b c d : Tally} (h₁ : a.Flattened b) (h₂ : c.Flattened d) :
    (a.add c).Flattened (b.add d) := by
  have h₃ := h₁.applied
  have h₄ := h₂.applied
  constructor
  · simp only [Tally.add]
    omega
  · simp only [Tally.add, h₁.included, h₂.included]

inductive EndsAs {σ ℓ : Type} (after : ℓ) : Outcome Tally σ ℓ → Outcome Tally σ NoLoader → Prop
  | through {space : σ} {tally flat : Tally} (counts : tally.Flattened flat) :
      EndsAs after ⟨.ok tally, space, after⟩ ⟨.ok flat, space, ⟨⟩⟩
  | stopped {space : σ} {left : ℓ} {e f : BuildError} {i j : Nat}
      (same : e.innermost.shift i = f.shift j) :
      EndsAs after ⟨.error e, space, left⟩ ⟨.error f, space, ⟨⟩⟩

section Replay

variable {σ ℓ : Type}

theorem EndsAs.add {after : ℓ} {o : Outcome Tally σ ℓ} {p : Outcome Tally σ NoLoader}
    {tally flat : Tally} (counts : tally.Flattened flat) (h : EndsAs after o p) :
    EndsAs after (o.map tally.add) (p.map flat.add) := by
  cases h with
  | through more => exact .through (counts.add more)
  | stopped same => exact .stopped same

theorem EndsAs.space_eq {after : ℓ} {o : Outcome Tally σ ℓ} {p : Outcome Tally σ NoLoader}
    (h : EndsAs after o p) : o.space = p.space := by
  cases h <;> rfl

theorem EndsAs.results {after : ℓ} {o : Outcome Tally σ ℓ} {p : Outcome Tally σ NoLoader}
    (h : EndsAs after o p) :
    (∃ a b : Summary, (o.map (Tally.summary · false)).result = .ok a ∧
        (p.map (Tally.summary · false)).result = .ok b ∧
        b.applied = a.applied - a.included ∧ a.included ≤ a.applied ∧ b.included = 0) ∨
      ∃ e f i j, (o.map (Tally.summary · false)).result = .error e ∧
        (p.map (Tally.summary · false)).result = .error f ∧ e.innermost.shift i = f.shift j := by
  cases h with
  | @through _ tally flat counts =>
    have happlied := counts.applied
    refine .inl ⟨_, _, rfl, rfl, ?_, ?_, counts.included⟩ <;> simp only [Tally.summary] <;> omega
  | stopped same => exact .inr ⟨_, _, _, _, rfl, rfl, same⟩

variable [NameSpace σ] [Loader ℓ]

def RunsAs (after : ℓ) (index : Nat) (script : Script) (space : σ) (loader : ℓ)
    (p : Outcome Tally σ NoLoader) : Prop :=
  ∃ o, Replays index script space loader o ∧ EndsAs after o p

theorem runsAs_keep {op : Operation} {ops flat : Script} {index place : Nat} {space : σ}
    {loader after : ℓ} (plain : op.action ≠ .includeScript)
    (rest : ∀ space : σ, RunsAs after (index + 1) ops space loader
      (replay (place + 1) flat space NoLoader.mk)) :
    RunsAs after index (op :: ops) space loader (replay place (op :: flat) space NoLoader.mk) := by
  cases asks : op.request? with
  | none =>
    rw [(Replays.arity asks).replay_eq]
    exact ⟨_, .arity asks, .stopped (i := place) (j := index)
      (by simp [BuildError.shift, Site.shift, BuildError.innermost, Nat.add_comm])⟩
  | some request =>
    cases request with
    | call call =>
      rcases answer : NameSpace.perform call space with ⟨refusal | _, next⟩
      · rw [(Replays.refused asks answer).replay_eq]
        exact ⟨_, .refused asks answer, .stopped (i := place) (j := index)
          (by simp [BuildError.shift, Site.shift, BuildError.innermost, Nat.add_comm])⟩
      · rw [(Replays.applied asks answer (replays_replay ..)).replay_eq]
        obtain ⟨o, ran, ends⟩ := rest next
        exact ⟨_, .applied asks answer ran, .add ⟨rfl, rfl⟩ ends⟩
    | includeScript path =>
      exact absurd (Operation.request?_eq_includeScript_iff.mp asks).1 plain

theorem runsAs_splice {op : Operation} {ops inner flat script : Script} {path : String}
    {index place : Nat} {space : σ} {loader entered left after : ℓ}
    (asks : op.request? = some (.includeScript path))
    (answer : Loader.enter path loader = (.ok script, entered))
    (inside : RunsAs left 0 script space entered (replay place inner space NoLoader.mk))
    (rest : ∀ space : σ, RunsAs after (index + 1) ops space (Loader.leave path left)
      (replay (place + inner.length) flat space NoLoader.mk)) :
    RunsAs after index (op :: ops) space loader
      (replay place (inner ++ flat) space NoLoader.mk) := by
  obtain ⟨o, ran, ends⟩ := inside
  rw [replay_append]
  generalize replay place inner space NoLoader.mk = p at ends
  cases ends with
  | stopped same => exact ⟨_, .failed asks answer ran, .stopped same⟩
  | @through next tally flatTally counts =>
    obtain ⟨o, ranRest, endsRest⟩ := rest next
    refine ⟨_, .included asks answer ran ranRest, .add ⟨?_, counts.included⟩ endsRest⟩
    simp only [Tally.add, counts.applied]
    omega

theorem Serves.runsAs {contents : String → Script} {script flat : Script} {loader after : ℓ}
    (h : Serves contents script loader after) (hflat : Flattens contents script flat)
    (index place : Nat) (space : σ) :
    RunsAs after index script space loader (replay place flat space NoLoader.mk) := by
  -- The two positions run apart at each include, so both stand for any number in the induction.
  induction h generalizing flat index place space with
  | nil =>
    cases hflat
    exact ⟨_, .done, .through ⟨rfl, rfl⟩⟩
  | keep plain _ ih =>
    cases hflat with
    | keep _ rest => exact runsAs_keep plain fun next => ih rest (index + 1) (place + 1) next
    | splice action => exact absurd action plain
  | splice action operands answer _ _ ihInside ihRest =>
    cases hflat with
    | keep plain => exact absurd action plain
    | @splice _ _ inner _ _ _ operands' inside rest =>
      obtain rfl : _ = _ := by simpa [operands] using operands'
      have asks := Operation.request?_eq_includeScript_iff.mpr ⟨action, operands⟩
      exact runsAs_splice asks answer (ihInside inside 0 place space) fun next =>
        ihRest rest (index + 1) (place + inner.length) next

end Replay

theorem Serves.exists_flattens {ℓ : Type} [Loader ℓ] {contents : String → Script} {script : Script}
    {loader after : ℓ} (h : Serves contents script loader after) :
    ∃ flat, Flattens contents script flat := by
  induction h with
  | nil => exact ⟨_, .nil⟩
  | keep plain _ ih =>
    obtain ⟨flat, hflat⟩ := ih
    exact ⟨_, .keep plain hflat⟩
  | splice action operands _ _ _ inside rest =>
    obtain ⟨inner, hinner⟩ := inside
    obtain ⟨flat, hflat⟩ := rest
    exact ⟨_, .splice action operands hinner hflat⟩

/-- On any name space a script with includes makes the calls of its flat form, which needs no
loader, and leaves the name space that the flat form leaves. Both succeed, and the flat form counts
as many operations less as there were includes; or both fail, with the same innermost error but for
its index. -/
theorem build_flat {ℓ : Type} [Loader ℓ] {contents : String → Script} {script : Script}
    {loader after : ℓ} (h : Serves contents script loader after) :
    ∃ flat, (∀ other, Flattens contents script other ↔ other = flat) ∧
      ∀ {σ : Type} [NameSpace σ] (space : σ),
        ∃ (whole : Outcome Summary σ ℓ) (calls : List Call),
          let plain := build flat space NoLoader.mk
          BuildMode.asFound.Returns script space loader whole ∧
          BuildMode.asFound.Returns script (ObservedSpace.mk space []) loader
            ⟨whole.result, ⟨whole.space, calls⟩, whole.loader⟩ ∧
          calls = BuildMode.asFound.calls flat space NoLoader.mk ∧
          whole.space = plain.space ∧
          ((∃ a b, whole.result = .ok a ∧ plain.result = .ok b ∧
              b.applied = a.applied - a.included ∧ a.included ≤ a.applied ∧ b.included = 0) ∨
            ∃ e f i j, whole.result = .error e ∧ plain.result = .error f ∧
              e.innermost.shift i = f.shift j) := by
  obtain ⟨flat, hflat⟩ := h.exists_flattens
  refine ⟨flat, fun other => ⟨fun hother => hother.unique hflat, fun he => he ▸ hflat⟩,
    fun {σ} _ space => ?_⟩
  obtain ⟨o, ran, ends⟩ := h.runsAs hflat 0 0 space
  obtain ⟨watched, ranWatched, endsWatched⟩ := h.runsAs hflat 0 0 (ObservedSpace.mk space [])
  -- The watched replay is the plain one with a log, since no more than one replay is possible.
  have same : watched.mapState ObservedSpace.space id = o :=
    (ranWatched.mapState (f := ObservedSpace.space) (g := id) (fun _ _ => rfl) (fun _ _ => rfl)
      (fun _ _ => rfl)).unique ran
  have hcalls : watched.space.calls = BuildMode.asFound.calls flat space NoLoader.mk := by
    rw [BuildMode.calls_eq]
    exact congrArg ObservedSpace.calls endsWatched.space_eq
  subst same
  exact ⟨_, watched.space.calls, BuildMode.returns_of_replays rfl ran,
    BuildMode.returns_of_replays rfl ranWatched, hcalls, ends.space_eq, ends.results⟩

structure ListedScripts where
  scripts : List (String × Script)

instance : Loader ListedScripts where
  enter path l := ((l.scripts.lookup path).elim (.error .unsupported) .ok, l)
  leave _ l := l

theorem build_flat_unmounted :
    let base : Script :=
      [⟨.splice, .replace, ["/x", "/y"], 1⟩, ⟨.includeScript, .replace, ["site"], 2⟩]
    let site : Script := [⟨.changeDir, .replace, ["/z"], 1⟩, ⟨.unmount, .replace, ["/y"], 2⟩]
    let contents : String → Script := fun path => if path = "base" then base else site
    let script : Script :=
      [⟨.includeScript, .replace, ["base"], 1⟩, ⟨.includeScript, .replace, ["site"], 2⟩]
    let loader := ListedScripts.mk [("base", base), ("site", site)]
    Serves contents script loader loader ∧
      ∃ flat, Flattens contents script flat ∧
        ∃ (whole : Outcome Summary MountTable ListedScripts) (calls : List Call),
          BuildMode.asFound.Returns script MountTable.empty loader whole ∧
          BuildMode.asFound.Returns script (ObservedSpace.mk MountTable.empty []) loader
            ⟨whole.result, ⟨whole.space, calls⟩, whole.loader⟩ ∧
          calls = BuildMode.asFound.calls flat MountTable.empty NoLoader.mk ∧
          whole.space = (build flat MountTable.empty NoLoader.mk).space ∧
          ∃ e f i j, whole.result = .error e ∧
            (build flat MountTable.empty NoLoader.mk).result = .error f ∧
            e.innermost.shift i = f.shift j := by
  intro base site contents script loader
  have inSite : Serves contents site loader loader := .keep (by decide) (.keep (by decide) .nil)
  have serves : Serves contents script loader loader :=
    .splice rfl rfl rfl (.keep (by decide) (.splice rfl rfl rfl inSite .nil))
      (.splice rfl rfl rfl inSite .nil)
  obtain ⟨flat, hflat, same⟩ := build_flat serves
  refine ⟨serves, flat, (hflat flat).mpr rfl, ?_⟩
  obtain ⟨whole, calls, hreturns, hwatched, hcalls, hspace, ⟨a, _, hok, _⟩ | hfailed⟩ :=
    same MountTable.empty
  · have stops : (BuildMode.asFound.run? 2 script MountTable.empty loader).map (·.result.isOk) =
        some false := by decide +kernel
    obtain ⟨o, ho, hfalse⟩ := Option.map_eq_some_iff.mp stops
    rw [← hreturns.unique (BuildMode.returns_of_run? ho), hok] at hfalse
    nomatch hfalse
  · exact ⟨whole, calls, hreturns, hwatched, hcalls, hspace, hfailed⟩

end MountScript
