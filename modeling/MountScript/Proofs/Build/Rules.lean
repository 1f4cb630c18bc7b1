import MountScript.Build.Replay

/-!
# The rules of replaying

`Replays` says by rules what a replay does: one rule for the end of a script, one for each way in
which an operation can stop the replay, and one for each way in which it can go on. Whatever a
replay keeps is shown by induction on these rules. With any loader they say what is replayed when
there are enough levels (`replays_iff`), and with a bounded one what `replay` computes
(`replay_eq_iff`).
-/

namespace MountScript

section Rules

variable {σ ℓ : Type} [NameSpace σ] [Loader ℓ]

inductive Replays : Nat → Script → σ → ℓ → Outcome Tally σ ℓ → Prop
  | done {index : Nat} {space : σ} {loader : ℓ} :
      Replays index [] space loader ⟨.ok .zero, space, loader⟩
  | arity {index : Nat} {op : Operation} {ops : Script} {space : σ} {loader : ℓ}
      (asks : op.request? = none) :
      Replays index (op :: ops) space loader
        ⟨.error (.arity ⟨index, op.line⟩ op.action op.operands.length), space, loader⟩
  | refused {index : Nat} {op : Operation} {ops : Script} {space after : σ} {loader : ℓ}
      {call : Call} {refusal : Refusal} (asks : op.request? = some (.call call))
      (answer : NameSpace.perform call space = (.error refusal, after)) :
      Replays index (op :: ops) space loader
        ⟨.error (.apply ⟨index, op.line⟩ call.action refusal), after, loader⟩
  | applied {index : Nat} {op : Operation} {ops : Script} {space after : σ} {loader : ℓ}
      {call : Call} {o : Outcome Tally σ ℓ} (asks : op.request? = some (.call call))
      (answer : NameSpace.perform call space = (.ok (), after))
      (rest : Replays (index + 1) ops after loader o) :
      Replays index (op :: ops) space loader (o.map (Tally.mk 1 0).add)
  | barred {index : Nat} {op : Operation} {ops : Script} {space : σ} {loader left : ℓ}
      {path : String} {cause : IncludeError} (asks : op.request? = some (.includeScript path))
      (answer : Loader.enter path loader = (.error cause, left)) :
      Replays index (op :: ops) space loader
        ⟨.error (.inclusion ⟨index, op.line⟩ path cause), space, left⟩
  | failed {index : Nat} {op : Operation} {ops : Script} {space after : σ} {loader entered left : ℓ}
      {path : String} {script : Script} {inner : BuildError}
      (asks : op.request? = some (.includeScript path))
      (answer : Loader.enter path loader = (.ok script, entered))
      (inside : Replays 0 script space entered ⟨.error inner, after, left⟩) :
      Replays index (op :: ops) space loader
        ⟨.error (.nested ⟨index, op.line⟩ path inner), after, Loader.leave path left⟩
  | included {index : Nat} {op : Operation} {ops : Script} {space after : σ}
      {loader entered left : ℓ} {path : String} {script : Script} {tally : Tally}
      {o : Outcome Tally σ ℓ} (asks : op.request? = some (.includeScript path))
      (answer : Loader.enter path loader = (.ok script, entered))
      (inside : Replays 0 script space entered ⟨.ok tally, after, left⟩)
      (rest : Replays (index + 1) ops after (Loader.leave path left) o) :
      Replays index (op :: ops) space loader (o.map (tally.add ⟨1, 1⟩).add)

theorem replays_of_replayEach {run : Script → σ → ℓ → Option (Outcome Tally σ ℓ)}
    (inside : ∀ script space loader o, run script space loader = some o →
      Replays 0 script space loader o)
    {index : Nat} {script : Script} {space : σ} {loader : ℓ} {o : Outcome Tally σ ℓ}
    (h : replayEach (replayOneWith run) index script space loader = some o) :
    Replays index script space loader o := by
  induction script generalizing index space loader o with
  | nil =>
    obtain rfl := Option.some.inj h
    exact .done
  | cons op ops ih =>
    rw [replayEach, replayOneWith] at h
    cases asks : op.request? with
    | none =>
      rw [asks] at h
      obtain rfl := Option.some.inj h
      exact .arity asks
    | some request =>
      cases request with
      | call call =>
        rcases answer : NameSpace.perform call space with ⟨refusal | _, after⟩
        · simp only [asks, applyCall, answer] at h
          obtain rfl := Option.some.inj h
          exact .refused asks answer
        · simp only [asks, applyCall, answer] at h
          obtain ⟨rest, hrest, rfl⟩ := Option.map_eq_some_iff.mp h
          exact .applied asks answer (ih hrest)
      | includeScript path =>
        rcases answer : Loader.enter path loader with ⟨cause | script, entered⟩
        · simp only [asks, answer] at h
          obtain rfl := Option.some.inj h
          exact .barred asks answer
        · rcases hrun : run script space entered with _ | ⟨inner | tally, after, left⟩
          · simp [asks, answer, hrun] at h
          · simp only [asks, answer, hrun, Option.map_some, closeInclude] at h
            obtain rfl := Option.some.inj h
            exact .failed asks answer (inside _ _ _ _ hrun)
          · simp only [asks, answer, hrun, Option.map_some, closeInclude] at h
            obtain ⟨rest, hrest, rfl⟩ := Option.map_eq_some_iff.mp h
            exact .included asks answer (inside _ _ _ _ hrun) (ih hrest)

theorem replays_of_replay? {levels index : Nat} {script : Script} {space : σ} {loader : ℓ}
    {o : Outcome Tally σ ℓ} (h : replay? levels index script space loader = some o) :
    Replays index script space loader o := by
  induction levels generalizing index script space loader o with
  | zero => exact replays_of_replayEach (fun _ _ _ _ h => by simp at h) h
  | succ levels ih => exact replays_of_replayEach (fun _ _ _ _ h => ih h) h

section Levels

variable {levels index : Nat} {op : Operation} {ops : Script} {space : σ} {loader : ℓ}

theorem replay?_of_stopped {e : BuildError} {after : σ} {left : ℓ}
    (step : replayOne? levels index op space loader = some ⟨.error e, after, left⟩) :
    replay? levels index (op :: ops) space loader = some ⟨.error e, after, left⟩ := by
  rw [replay?, replayEach, step]

theorem replay?_of_through {tally : Tally} {after : σ} {left : ℓ} {o : Outcome Tally σ ℓ}
    (step : replayOne? levels index op space loader = some ⟨.ok tally, after, left⟩)
    (rest : replay? levels (index + 1) ops after left = some o) :
    replay? levels index (op :: ops) space loader = some (o.map tally.add) := by
  rw [replay?] at rest ⊢
  rw [replayEach, step]
  dsimp only
  rw [rest]
  rfl

theorem replayOne?_of_call {call : Call} (asks : op.request? = some (.call call)) :
    replayOne? levels index op space loader =
      some (applyCall ⟨index, op.line⟩ call space loader) := by
  cases levels <;> simp [replayOne?, replayOneWith, asks]

theorem replayOne?_of_opened {path : String} {script : Script} {entered : ℓ}
    {o : Outcome Tally σ ℓ} (asks : op.request? = some (.includeScript path))
    (answer : Loader.enter path loader = (.ok script, entered))
    (inside : replay? levels 0 script space entered = some o) :
    replayOne? (levels + 1) index op space loader =
      some (closeInclude ⟨index, op.line⟩ path o) := by
  rw [replay?] at inside
  simp [replayOne?, replayOneWith, asks, answer, inside]

end Levels

theorem Replays.exists_levels {index : Nat} {script : Script} {space : σ} {loader : ℓ}
    {o : Outcome Tally σ ℓ} (h : Replays index script space loader o) :
    ∃ levels, replay? levels index script space loader = some o := by
  induction h with
  | done => exact ⟨0, rfl⟩
  | arity asks => exact ⟨0, replay?_of_stopped (by simp [replayOne?, replayOneWith, asks])⟩
  | refused asks answer =>
    exact ⟨0, replay?_of_stopped (by rw [replayOne?_of_call asks, applyCall, answer])⟩
  | applied asks answer _ ih =>
    obtain ⟨levels, hrest⟩ := ih
    exact ⟨levels, replay?_of_through (by rw [replayOne?_of_call asks, applyCall, answer]) hrest⟩
  | barred asks answer =>
    exact ⟨0, replay?_of_stopped (by simp [replayOne?, replayOneWith, asks, answer])⟩
  | failed asks answer _ ih =>
    obtain ⟨levels, hinside⟩ := ih
    exact ⟨levels + 1, replay?_of_stopped (replayOne?_of_opened asks answer hinside)⟩
  | included asks answer _ _ ihInside ihRest =>
    obtain ⟨a, hinside⟩ := ihInside
    obtain ⟨b, hrest⟩ := ihRest
    have inside := replay?_mono (Nat.le_max_left a b) hinside
    have rest := replay?_mono (Nat.le_succ_of_le (Nat.le_max_right a b)) hrest
    exact ⟨max a b + 1, replay?_of_through (replayOne?_of_opened asks answer inside) rest⟩

theorem replays_iff {index : Nat} {script : Script} {space : σ} {loader : ℓ}
    {o : Outcome Tally σ ℓ} :
    Replays index script space loader o ↔
      ∃ levels, replay? levels index script space loader = some o :=
  ⟨Replays.exists_levels, fun ⟨_, h⟩ => replays_of_replay? h⟩

theorem Replays.unique {index : Nat} {script : Script} {space : σ} {loader : ℓ}
    {first second : Outcome Tally σ ℓ} (h₁ : Replays index script space loader first)
    (h₂ : Replays index script space loader second) : first = second := by
  obtain ⟨a, ha⟩ := h₁.exists_levels
  obtain ⟨b, hb⟩ := h₂.exists_levels
  have hfirst := replay?_mono (Nat.le_max_left a b) ha
  have hsecond := replay?_mono (Nat.le_max_right a b) hb
  exact Option.some.inj (hfirst.symm.trans hsecond)

end Rules

section Bounded

variable {σ ℓ : Type} [NameSpace σ] [BoundedLoader ℓ]

theorem room_replay (index : Nat) (script : Script) (space : σ) (loader : ℓ) :
    BoundedLoader.room (replay index script space loader).loader ≤ BoundedLoader.room loader := by
  obtain ⟨o, ho, hroom⟩ := replay?_isSome index script space loader
  rwa [replay_eq_of_replay? ho]

theorem Replays.replay_eq {index : Nat} {script : Script} {space : σ} {loader : ℓ}
    {o : Outcome Tally σ ℓ} (h : Replays index script space loader o) :
    replay index script space loader = o := by
  obtain ⟨levels, hlevels⟩ := h.exists_levels
  exact replay_eq_of_replay? hlevels

theorem replays_replay (index : Nat) (script : Script) (space : σ) (loader : ℓ) :
    Replays index script space loader (replay index script space loader) :=
  replays_of_replay? (replay?_room index script space loader)

theorem replay_eq_iff {index : Nat} {script : Script} {space : σ} {loader : ℓ}
    {o : Outcome Tally σ ℓ} :
    replay index script space loader = o ↔ Replays index script space loader o :=
  ⟨fun h => h ▸ replays_replay index script space loader, Replays.replay_eq⟩

end Bounded

end MountScript
