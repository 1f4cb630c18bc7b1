import MountScript.Proofs.Build.Modes

/-!
# Watching a build

What a build asks of its name space and of its loader is seen by wrapping both so that they keep a
log. The wrapped ones answer as before, so a build that is watched does what it does unwatched
(`unobserved_observe`), and the logs are the calls and the visits of the build itself.
-/

namespace MountScript

def Outcome.mapState {α σ τ ℓ m : Type} (f : σ → τ) (g : ℓ → m) (o : Outcome α σ ℓ) :
    Outcome α τ m :=
  ⟨o.result, f o.space, g o.loader⟩

section Transport

variable {σ τ ℓ m : Type} [NameSpace σ] [NameSpace τ]

/-- States that answer alike are carried over by a replay: it sees no more of them than that. -/
theorem Replays.mapState [Loader ℓ] [Loader m] {f : σ → τ} {g : ℓ → m}
    (perform : ∀ call s, NameSpace.perform call (f s) = (NameSpace.perform call s).map id f)
    (enter : ∀ path l, Loader.enter path (g l) = (Loader.enter path l).map id g)
    (leave : ∀ path l, Loader.leave path (g l) = g (Loader.leave path l))
    {index : Nat} {script : Script} {space : σ} {loader : ℓ} {o : Outcome Tally σ ℓ}
    (h : Replays index script space loader o) :
    Replays index script (f space) (g loader) (o.mapState f g) := by
  induction h with
  | done => exact .done
  | arity asks => exact .arity asks
  | refused asks answer => exact .refused asks (by rw [perform, answer]; rfl)
  | applied asks answer _ ih => exact .applied asks (by rw [perform, answer]; rfl) ih
  | barred asks answer => exact .barred asks (by rw [enter, answer]; rfl)
  | failed asks answer _ ih =>
    rw [Outcome.mapState, ← leave]
    exact .failed asks (by rw [enter, answer]; rfl) ih
  | included asks answer _ _ inside rest =>
    rw [← leave] at rest
    exact .included asks (by rw [enter, answer]; rfl) inside rest

theorem BuildMode.run_mapState [BoundedLoader ℓ] [BoundedLoader m] {f : σ → τ} {g : ℓ → m}
    (perform : ∀ call s, NameSpace.perform call (f s) = (NameSpace.perform call s).map id f)
    (enter : ∀ path l, Loader.enter path (g l) = (Loader.enter path l).map id g)
    (leave : ∀ path l, Loader.leave path (g l) = g (Loader.leave path l))
    (mode : BuildMode) (script : Script) (space : σ) (loader : ℓ) :
    mode.run script (f space) (g loader) = (mode.run script space loader).mapState f g := by
  have replayed : ∀ s : σ, replay 0 script (f s) (g loader) =
      (replay 0 script s loader).mapState f g := fun s =>
    ((replays_replay 0 script s loader).mapState perform enter leave).replay_eq
  cases mode with
  | asFound =>
    simp only [run, build, replayed]
    rfl
  | fromScratch =>
    simp only [run, buildFromScratch, perform]
    rcases NameSpace.perform Call.clear space with ⟨_ | _, after⟩
    · rfl
    · simp only [Prod.map, id, replayed]
      rfl

end Transport

structure ObservedSpace (σ : Type) where
  space : σ
  calls : List Call

instance {σ : Type} [NameSpace σ] : NameSpace (ObservedSpace σ) where
  perform call w :=
    ((NameSpace.perform call w.space).1,
      ⟨(NameSpace.perform call w.space).2, w.calls ++ [call]⟩)

inductive Visit
  | opened (path : String) (script : Script)
  | refused (path : String) (cause : IncludeError)
  | left (path : String)
deriving DecidableEq

def Visit.ofAnswer (path : String) : Except IncludeError Script → Visit
  | .ok script => opened path script
  | .error cause => refused path cause

structure ObservedLoader (ℓ : Type) where
  loader : ℓ
  visits : List Visit

instance {ℓ : Type} [Loader ℓ] : Loader (ObservedLoader ℓ) where
  enter path w :=
    ((Loader.enter path w.loader).1,
      ⟨(Loader.enter path w.loader).2,
        w.visits ++ [.ofAnswer path (Loader.enter path w.loader).1]⟩)
  leave path w := ⟨Loader.leave path w.loader, w.visits ++ [.left path]⟩

instance {ℓ : Type} [BoundedLoader ℓ] : BoundedLoader (ObservedLoader ℓ) where
  room w := BoundedLoader.room w.loader
  room_enter_ok h := BoundedLoader.room_enter_ok h
  room_enter_error h := BoundedLoader.room_enter_error h
  room_leave path w := BoundedLoader.room_leave path w.loader

section Observed

variable {σ ℓ : Type} [NameSpace σ] [Loader ℓ]

theorem perform_observed_iff {call : Call} {w after : ObservedSpace σ}
    {answer : Except Refusal Unit} :
    NameSpace.perform call w = (answer, after) ↔
      NameSpace.perform call w.space = (answer, after.space) ∧ after.calls = w.calls ++ [call] := by
  rcases after with ⟨space, calls⟩
  simp only [NameSpace.perform, Prod.ext_iff, ObservedSpace.mk.injEq]
  grind

theorem enter_observed_iff {path : String} {w entered : ObservedLoader ℓ}
    {answer : Except IncludeError Script} :
    Loader.enter path w = (answer, entered) ↔
      Loader.enter path w.loader = (answer, entered.loader) ∧
        entered.visits = w.visits ++ [.ofAnswer path answer] := by
  rcases entered with ⟨loader, visits⟩
  simp only [Loader.enter, Prod.ext_iff, ObservedLoader.mk.injEq]
  grind

theorem Replays.calls_extend {index : Nat} {script : Script} {w : ObservedSpace σ} {loader : ℓ}
    {o : Outcome Tally (ObservedSpace σ) ℓ} (h : Replays index script w loader o) :
    w.calls <+: o.space.calls := by
  induction h with
  | done | arity | barred => exact List.prefix_rfl
  | refused _ answer =>
    rw [(perform_observed_iff.mp answer).2]
    exact List.prefix_append _ _
  | applied _ answer _ ih =>
    rw [(perform_observed_iff.mp answer).2] at ih
    exact (List.prefix_append _ _).trans ih
  | failed _ _ _ ih => exact ih
  | included _ _ _ _ inside rest => exact inside.trans rest

def Outcome.unobserved {α : Type} :
    Outcome α (ObservedSpace σ) (ObservedLoader ℓ) → Outcome α σ ℓ :=
  mapState ObservedSpace.space ObservedLoader.loader

end Observed

namespace BuildMode

variable {σ ℓ : Type} [NameSpace σ] [BoundedLoader ℓ]

def observe (mode : BuildMode) (script : Script) (space : σ) (loader : ℓ) :
    Outcome Summary (ObservedSpace σ) (ObservedLoader ℓ) :=
  mode.run script ⟨space, []⟩ ⟨loader, []⟩

def calls (mode : BuildMode) (script : Script) (space : σ) (loader : ℓ) : List Call :=
  (mode.observe script space loader).space.calls

def visits (mode : BuildMode) (script : Script) (space : σ) (loader : ℓ) : List Visit :=
  (mode.observe script space loader).loader.visits

theorem unobserved_observe (mode : BuildMode) (script : Script) (space : σ) (loader : ℓ) :
    (mode.observe script space loader).unobserved = mode.run script space loader :=
  (mode.run_mapState (f := ObservedSpace.space) (g := ObservedLoader.loader)
    (fun _ _ => rfl) (fun _ _ => rfl) (fun _ _ => rfl) script _ _).symm

theorem calls_eq (mode : BuildMode) (script : Script) (space : σ) (loader : ℓ) :
    mode.calls script space loader =
      (mode.run script (ObservedSpace.mk space []) loader).space.calls := by
  have h := mode.run_mapState (f := id) (g := ObservedLoader.loader) (fun _ _ => rfl)
    (fun _ _ => rfl) (fun _ _ => rfl) script (ObservedSpace.mk space [])
    (ObservedLoader.mk loader [])
  rw [id_eq] at h
  rw [calls, observe, h]
  rfl

theorem run_observedSpace (mode : BuildMode) (script : Script) (space : σ) (loader : ℓ) :
    (mode.run script (ObservedSpace.mk space []) loader).mapState ObservedSpace.space id =
      mode.run script space loader :=
  (mode.run_mapState (f := ObservedSpace.space) (g := id) (fun _ _ => rfl) (fun _ _ => rfl)
    (fun _ _ => rfl) script (ObservedSpace.mk space []) loader).symm

end BuildMode

end MountScript
