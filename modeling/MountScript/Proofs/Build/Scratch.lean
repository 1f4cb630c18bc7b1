import MountScript.Proofs.Build.Composition
import MountScript.Proofs.Build.Provenance
import MountScript.Space.MountTable

/-!
# Building from scratch

A build from scratch makes the calls of a script that begins with a clearing operation, and leaves
what that script leaves. Only the counts and the places of errors are told without that operation.
On a mount table nothing is left of what was there before: the result, the table and the loader are
those of a build on the empty table.
-/

namespace MountScript

def Operation.clearing (placement : Placement) (line : Nat) : Operation :=
  ⟨.reset, placement, [], line⟩

theorem BuildError.index?_shift (count : Nat) (e : BuildError) :
    (e.shift count).index? = e.index?.map (· + count) := by
  cases e <;> rfl

namespace BuildMode

def start (mode : BuildMode) (t : MountTable) : MountTable :=
  match mode with
  | asFound => t
  | fromScratch => .empty

theorem run_eq_replay {ℓ : Type} [BoundedLoader ℓ] (mode : BuildMode) (script : Script)
    (t : MountTable) (loader : ℓ) :
    mode.run script t loader =
      (replay 0 script (mode.start t) loader).map (Tally.summary · (mode = fromScratch)) := by
  cases mode <;> rfl

end BuildMode

theorem buildFromScratch_table {ℓ : Type} [BoundedLoader ℓ] (script : Script) (t : MountTable)
    (loader : ℓ) :
    buildFromScratch script t loader =
      (build script MountTable.empty loader).map fun summary => { summary with reset := true } := by
  have hscratch := BuildMode.fromScratch.run_eq_replay script t loader
  rw [BuildMode.run] at hscratch
  rw [hscratch, build, Outcome.map_map]
  rfl

section Scratch

variable {σ ℓ : Type} [NameSpace σ] [BoundedLoader ℓ]

theorem replay_clearing {placement : Placement} {line : Nat} (script : Script) {space after : σ}
    {loader : ℓ} (accepted : NameSpace.perform .clear space = (.ok (), after)) :
    replay 0 (.clearing placement line :: script) space loader =
      ((replay 0 script after loader).mapError (·.shift 1)).map (Tally.mk 1 0).add := by
  have asks : (Operation.clearing placement line).request? = some (.call .clear) := rfl
  rw [(Replays.applied asks accepted (replays_replay 1 script after loader)).replay_eq]
  exact congrArg _ (replay_shift 1 0 script after loader)

theorem replay_clearing_refused {placement : Placement} {line : Nat} (script : Script)
    {space after : σ} {loader : ℓ} {cause : Refusal}
    (refused : NameSpace.perform .clear space = (.error cause, after)) :
    replay 0 (.clearing placement line :: script) space loader =
      ⟨.error (.apply ⟨0, line⟩ .reset cause), after, loader⟩ := by
  have asks : (Operation.clearing placement line).request? = some (.call .clear) := rfl
  exact (Replays.refused asks refused).replay_eq

theorem space_loader_buildFromScratch (script : Script) (space : σ) (loader : ℓ)
    (placement : Placement) (line : Nat) :
    (buildFromScratch script space loader).space =
        (build (.clearing placement line :: script) space loader).space ∧
      (buildFromScratch script space loader).loader =
        (build (.clearing placement line :: script) space loader).loader := by
  rw [build, buildFromScratch]
  rcases answer : NameSpace.perform Call.clear space with ⟨cause | _, after⟩
  · rw [replay_clearing_refused script answer]
    exact ⟨rfl, rfl⟩
  · rw [replay_clearing script answer]
    exact ⟨rfl, rfl⟩

theorem exists_index_of_replay {script : Script} {space after : σ} {loader left : ℓ}
    {e : BuildError} (h : replay 0 script space loader = ⟨.error e, after, left⟩) :
    ∃ index, e.index? = some index := by
  obtain ⟨levels, site, op, last, kept, fault, -, rfl, faults⟩ := exists_stopsAt h
  obtain ⟨outer, houter⟩ : ∃ outer, (levels.map Prod.fst ++ [site]).head? = some outer := by
    cases levels <;> simp
  have hsite := (BuildError.site?_nest faults.action_site.2).trans houter
  exact ⟨outer.index, BuildError.index?_of_site? hsite⟩

theorem observe_of_clear_refused (script : Script) {space after : σ} (loader : ℓ) {cause : Refusal}
    (refused : NameSpace.perform .clear space = (.error cause, after)) :
    BuildMode.fromScratch.observe script space loader =
      ⟨.error (.reset cause), ⟨after, [.clear]⟩, ⟨loader, []⟩⟩ := by
  have hobserved : NameSpace.perform .clear (ObservedSpace.mk space []) =
      (.error cause, ObservedSpace.mk after [.clear]) :=
    perform_observed_iff.mpr ⟨refused, rfl⟩
  simp only [BuildMode.observe, BuildMode.run, buildFromScratch, hobserved]

/-- A build from scratch on a mount table does not depend on the table: it is the build on the empty
one. On any name space it leaves what the build of the script with a clearing operation in front
leaves, after the same calls. If clearing is refused, nothing else is tried; else the two succeed
alike, one operation more being counted, or fail alike, one index further on. -/
theorem buildFromScratch_forgets (script : Script) (loader : ℓ) :
    (∀ t other : MountTable,
      buildFromScratch script t loader = buildFromScratch script other loader ∧
        buildFromScratch script t loader =
          (build script MountTable.empty loader).map fun summary =>
            { summary with reset := true }) ∧
    ∀ (space : σ) (placement : Placement) (line : Nat),
      let whole := Operation.clearing placement line :: script
      let scratch := buildFromScratch script space loader
      let plain := build whole space loader
      let calls := BuildMode.fromScratch.calls script space loader
      let visits := BuildMode.fromScratch.visits script space loader
      (scratch.space = plain.space ∧ scratch.loader = plain.loader) ∧
      (calls = BuildMode.asFound.calls whole space loader ∧
        visits = BuildMode.asFound.visits whole space loader) ∧
      ((∃ cause, (NameSpace.perform .clear space).1 = .error cause ∧
          scratch.result = .error (.reset cause) ∧
          plain.result = .error (.apply ⟨0, line⟩ .reset cause) ∧ calls = [.clear] ∧ visits = []) ∨
        (NameSpace.perform .clear space).1 = .ok () ∧
          ((∃ summary, scratch.result = .ok summary ∧ summary.reset = true ∧
              plain.result = .ok ⟨summary.applied + 1, summary.included, false⟩) ∨
            ∃ e index, scratch.result = .error e ∧ e.index? = some index ∧
              plain.result = .error (e.shift 1) ∧ (e.shift 1).index? = some (index + 1))) := by
  refine ⟨fun t other => ?_, fun space placement line => ?_⟩
  · rw [buildFromScratch_table script t, buildFromScratch_table script other]
    exact ⟨rfl, rfl⟩
  have watched := space_loader_buildFromScratch script (ObservedSpace.mk space [])
    (ObservedLoader.mk loader []) placement line
  refine ⟨space_loader_buildFromScratch script space loader placement line,
    ⟨congrArg ObservedSpace.calls watched.1, congrArg ObservedLoader.visits watched.2⟩, ?_⟩
  rcases answer : NameSpace.perform Call.clear space with ⟨cause | _, after⟩
  · have hwatched := observe_of_clear_refused script loader answer
    refine .inl ⟨cause, rfl, ?_, ?_, ?_, ?_⟩
    · simp only [buildFromScratch, answer]
    · rw [build, replay_clearing_refused script answer]
      rfl
    · rw [BuildMode.calls, hwatched]
    · rw [BuildMode.visits, hwatched]
  · refine .inr ⟨rfl, ?_⟩
    rw [build, replay_clearing script answer, buildFromScratch, answer]
    dsimp only
    rcases hrun : replay 0 script after loader with ⟨e | tally, last, left⟩
    · obtain ⟨index, hindex⟩ := exists_index_of_replay hrun
      exact .inr ⟨e, index, rfl, hindex, rfl, by rw [BuildError.index?_shift, hindex]; rfl⟩
    · refine .inl ⟨_, rfl, rfl, ?_⟩
      simp [Outcome.map, Outcome.mapError, Except.map, Except.mapError, Tally.add, Tally.summary,
        Nat.add_comm]

end Scratch

end MountScript
