import MountScript.Build.Outcome

/-!
# Replaying a script

The operations of a script are applied to a name space one after another, each at most once. The
first failure stops the build, and what was applied before it stays in effect. An included script
is applied in the place of the operation that names it.

A loader turns the operand of an include into a script. It is told when the script is entered and
when it is left, and its answers may depend on what happened before. A bounded loader has room for
so many nested scripts: each one that it opens takes up room, and leaving one gives back at most
that much. With no room left it opens nothing, so a build that asks it comes to an end.

`replay?` takes the number of levels that may still nest and gives `none` when a script is entered
below the last of them. `replay` takes that number from the room of the loader, for which it always
suffices (`replay?_isSome`).
-/

namespace MountScript

class Loader (ℓ : Type) where
  enter : String → ℓ → Except IncludeError Script × ℓ
  leave : String → ℓ → ℓ

class BoundedLoader (ℓ : Type) extends Loader ℓ where
  room : ℓ → Nat
  room_enter_ok : ∀ {path : String} {l : ℓ} {script : Script},
    (enter path l).1 = .ok script → room (enter path l).2 < room l
  room_enter_error : ∀ {path : String} {l : ℓ} {e : IncludeError},
    (enter path l).1 = .error e → room (enter path l).2 ≤ room l
  room_leave : ∀ (path : String) (l : ℓ), room (leave path l) ≤ room l + 1

structure NoLoader where
deriving DecidableEq

instance : BoundedLoader NoLoader where
  enter _ l := (.error .unsupported, l)
  leave _ l := l
  room _ := 0
  room_enter_ok h := by simp at h
  room_enter_error _ := Nat.le_refl 0
  room_leave _ _ := Nat.zero_le 1

section Replay

variable {σ ℓ : Type}

def replayEach (step : Nat → Operation → σ → ℓ → Option (Outcome Tally σ ℓ)) :
    Nat → Script → σ → ℓ → Option (Outcome Tally σ ℓ)
  | _, [], space, loader => some ⟨.ok .zero, space, loader⟩
  | index, op :: ops, space, loader =>
    match step index op space loader with
    | none => none
    | some o =>
      match o.result with
      | .error _ => some o
      | .ok tally => (replayEach step (index + 1) ops o.space o.loader).map (·.map tally.add)

variable [NameSpace σ] [Loader ℓ]

def applyCall (site : Site) (call : Call) (space : σ) (loader : ℓ) : Outcome Tally σ ℓ :=
  match NameSpace.perform call space with
  | (.ok (), space) => ⟨.ok ⟨1, 0⟩, space, loader⟩
  | (.error refusal, space) => ⟨.error (.apply site call.action refusal), space, loader⟩

def closeInclude (site : Site) (path : String) (o : Outcome Tally σ ℓ) : Outcome Tally σ ℓ :=
  let loader := Loader.leave path o.loader
  match o.result with
  | .ok tally => ⟨.ok (tally.add ⟨1, 1⟩), o.space, loader⟩
  | .error inner => ⟨.error (.nested site path inner), o.space, loader⟩

/-- Applies one operation; `run` applies the script that an include enters. -/
def replayOneWith (run : Script → σ → ℓ → Option (Outcome Tally σ ℓ)) (index : Nat)
    (op : Operation) (space : σ) (loader : ℓ) : Option (Outcome Tally σ ℓ) :=
  let site : Site := ⟨index, op.line⟩
  match op.request? with
  | none => some ⟨.error (.arity site op.action op.operands.length), space, loader⟩
  | some (.call call) => some (applyCall site call space loader)
  | some (.includeScript path) =>
    match Loader.enter path loader with
    | (.error e, loader) => some ⟨.error (.inclusion site path e), space, loader⟩
    | (.ok script, loader) => (run script space loader).map (closeInclude site path)

def replayOne? : Nat → Nat → Operation → σ → ℓ → Option (Outcome Tally σ ℓ)
  | 0 => replayOneWith fun _ _ _ => none
  | levels + 1 => replayOneWith (replayEach (replayOne? levels) 0)

def replay? (levels : Nat) : Nat → Script → σ → ℓ → Option (Outcome Tally σ ℓ) :=
  replayEach (replayOne? levels)

omit [NameSpace σ] [Loader ℓ] in
theorem replayEach_mono {f g : Nat → Operation → σ → ℓ → Option (Outcome Tally σ ℓ)}
    (h : ∀ index op space loader o, f index op space loader = some o →
      g index op space loader = some o)
    {index : Nat} {script : Script} {space : σ} {loader : ℓ} {o : Outcome Tally σ ℓ}
    (ho : replayEach f index script space loader = some o) :
    replayEach g index script space loader = some o := by
  induction script generalizing index space loader o with
  | nil => exact ho
  | cons op ops ih =>
    rw [replayEach] at ho ⊢
    cases hf : f index op space loader with
    | none => simp [hf] at ho
    | some first =>
      rw [hf] at ho
      rw [h _ _ _ _ _ hf]
      dsimp only at ho ⊢
      split
      · simp_all
      · next tally ht =>
        rw [ht] at ho
        obtain ⟨rest, hr, rfl⟩ := Option.map_eq_some_iff.mp ho
        rw [ih hr]
        rfl

theorem replayOneWith_mono {f g : Script → σ → ℓ → Option (Outcome Tally σ ℓ)}
    (h : ∀ script space loader o, f script space loader = some o → g script space loader = some o)
    {index : Nat} {op : Operation} {space : σ} {loader : ℓ} {o : Outcome Tally σ ℓ}
    (ho : replayOneWith f index op space loader = some o) :
    replayOneWith g index op space loader = some o := by
  unfold replayOneWith at ho ⊢
  dsimp only at ho ⊢
  split at ho <;> try exact ho
  split at ho
  · exact ho
  · obtain ⟨inner, hi, rfl⟩ := Option.map_eq_some_iff.mp ho
    rw [h _ _ _ _ hi]
    rfl

theorem replayOne?_succ (levels index : Nat) (op : Operation) (space : σ) (loader : ℓ)
    (o : Outcome Tally σ ℓ) (h : replayOne? levels index op space loader = some o) :
    replayOne? (levels + 1) index op space loader = some o := by
  induction levels generalizing index op space loader o with
  | zero => exact replayOneWith_mono (fun _ _ _ _ h => by simp at h) h
  | succ levels ih => exact replayOneWith_mono (fun _ _ _ _ h => replayEach_mono ih h) h

theorem replay?_mono {levels more index : Nat} {script : Script} {space : σ} {loader : ℓ}
    {o : Outcome Tally σ ℓ} (hle : levels ≤ more)
    (h : replay? levels index script space loader = some o) :
    replay? more index script space loader = some o := by
  induction hle with
  | refl => exact h
  | step _ ih => exact replayEach_mono (replayOne?_succ _) ih

omit [NameSpace σ] [Loader ℓ] in
theorem replayEach_keeps {P : ℓ → Prop}
    {step : Nat → Operation → σ → ℓ → Option (Outcome Tally σ ℓ)}
    (h : ∀ index op space loader, P loader →
      ∃ o, step index op space loader = some o ∧ P o.loader)
    (index : Nat) (script : Script) (space : σ) (loader : ℓ) (hl : P loader) :
    ∃ o, replayEach step index script space loader = some o ∧ P o.loader := by
  induction script generalizing index space loader with
  | nil => exact ⟨_, rfl, hl⟩
  | cons op ops ih =>
    obtain ⟨o, ho, hP⟩ := h index op space loader hl
    rw [replayEach, ho]
    dsimp only
    split
    · exact ⟨o, rfl, hP⟩
    · obtain ⟨rest, hrest, hafter⟩ := ih (index + 1) o.space o.loader hP
      rw [hrest]
      exact ⟨_, rfl, hafter⟩

end Replay

section Bounded

variable {σ ℓ : Type} [NameSpace σ] [BoundedLoader ℓ]

open BoundedLoader (room room_enter_ok room_enter_error room_leave)

omit [NameSpace σ] in
theorem replayEach_isSome {n : Nat} {step : Nat → Operation → σ → ℓ → Option (Outcome Tally σ ℓ)}
    (h : ∀ index op space loader, room loader ≤ n →
      ∃ o, step index op space loader = some o ∧ room o.loader ≤ room loader)
    (index : Nat) (script : Script) (space : σ) (loader : ℓ) (hl : room loader ≤ n) :
    ∃ o, replayEach step index script space loader = some o ∧ room o.loader ≤ room loader := by
  have hstep : ∀ index op space left, room left ≤ room loader →
      ∃ o, step index op space left = some o ∧ room o.loader ≤ room loader := by
    intro index op space left hleft
    obtain ⟨o, ho, hroom⟩ := h index op space left (Nat.le_trans hleft hl)
    exact ⟨o, ho, Nat.le_trans hroom hleft⟩
  exact replayEach_keeps hstep index script space loader (Nat.le_refl _)

omit [NameSpace σ] in
theorem room_closeInclude (site : Site) (path : String) (o : Outcome Tally σ ℓ) :
    room (closeInclude site path o).loader ≤ room o.loader + 1 := by
  unfold closeInclude
  split <;> exact room_leave path o.loader

theorem room_applyCall (site : Site) (call : Call) (space : σ) (loader : ℓ) :
    room (applyCall site call space loader).loader = room loader := by
  unfold applyCall
  split <;> rfl

theorem replayOneWith_isSome {run : Script → σ → ℓ → Option (Outcome Tally σ ℓ)} {loader : ℓ}
    (h : ∀ script space after, room after < room loader →
      ∃ o, run script space after = some o ∧ room o.loader ≤ room after)
    (index : Nat) (op : Operation) (space : σ) :
    ∃ o, replayOneWith run index op space loader = some o ∧ room o.loader ≤ room loader := by
  unfold replayOneWith
  dsimp only
  split
  · exact ⟨_, rfl, Nat.le_refl _⟩
  · exact ⟨_, rfl, Nat.le_of_eq (room_applyCall ..)⟩
  · next path _ =>
    split
    · next e after he =>
      have := room_enter_error (congrArg Prod.fst he)
      exact ⟨_, rfl, by simpa [he] using this⟩
    · next script after he =>
      have taken : room after < room loader := by
        simpa [he] using room_enter_ok (congrArg Prod.fst he)
      obtain ⟨o, ho, hro⟩ := h script space after taken
      rw [ho]
      have := room_closeInclude ⟨index, op.line⟩ path o
      exact ⟨_, rfl, by omega⟩

theorem replayOne?_isSome (levels index : Nat) (op : Operation) (space : σ) (loader : ℓ)
    (hl : room loader ≤ levels) :
    ∃ o, replayOne? levels index op space loader = some o ∧ room o.loader ≤ room loader := by
  induction levels generalizing index op space loader with
  | zero => exact replayOneWith_isSome (fun _ _ _ h => by omega) index op space
  | succ levels ih =>
    exact replayOneWith_isSome
      (fun script space after h => replayEach_isSome ih 0 script space after (by omega))
      index op space

theorem replay?_isSome (index : Nat) (script : Script) (space : σ) (loader : ℓ) :
    ∃ o, replay? (room loader) index script space loader = some o ∧
      room o.loader ≤ room loader :=
  replayEach_isSome (replayOne?_isSome (room loader)) index script space loader (Nat.le_refl _)

def replay (index : Nat) (script : Script) (space : σ) (loader : ℓ) : Outcome Tally σ ℓ :=
  (replay? (room loader) index script space loader).get
    (Option.isSome_iff_exists.mpr
      ((replay?_isSome index script space loader).imp fun _ h => h.1))

def replayOne (index : Nat) (op : Operation) (space : σ) (loader : ℓ) : Outcome Tally σ ℓ :=
  let site : Site := ⟨index, op.line⟩
  match op.request? with
  | none => ⟨.error (.arity site op.action op.operands.length), space, loader⟩
  | some (.call call) => applyCall site call space loader
  | some (.includeScript path) =>
    match Loader.enter path loader with
    | (.error e, loader) => ⟨.error (.inclusion site path e), space, loader⟩
    | (.ok script, loader) => closeInclude site path (replay 0 script space loader)

theorem replay?_room (index : Nat) (script : Script) (space : σ) (loader : ℓ) :
    replay? (room loader) index script space loader =
      some (replay index script space loader) := by
  simp [replay]

theorem replay_eq_of_replay? {levels index : Nat} {script : Script} {space : σ} {loader : ℓ}
    {o : Outcome Tally σ ℓ} (h : replay? levels index script space loader = some o) :
    replay index script space loader = o := by
  have own := replay?_room index script space loader
  rcases Nat.le_total levels (room loader) with hle | hle
  · exact Option.some.inj (own.symm.trans (replay?_mono hle h))
  · exact Option.some.inj ((replay?_mono hle own).symm.trans h)

theorem replayOne_eq_of_replayOneWith {run : Script → σ → ℓ → Option (Outcome Tally σ ℓ)}
    (hrun : ∀ script space loader o, run script space loader = some o →
      replay 0 script space loader = o)
    {index : Nat} {op : Operation} {space : σ} {loader : ℓ} {o : Outcome Tally σ ℓ}
    (h : replayOneWith run index op space loader = some o) :
    replayOne index op space loader = o := by
  unfold replayOneWith at h
  unfold replayOne
  dsimp only at h ⊢
  split at h
  · exact Option.some.inj h
  · exact Option.some.inj h
  · split at h
    · exact Option.some.inj h
    · obtain ⟨inner, hi, rfl⟩ := Option.map_eq_some_iff.mp h
      rw [hrun _ _ _ _ hi]

theorem replayOne_eq_of_replayOne? {levels index : Nat} {op : Operation} {space : σ} {loader : ℓ}
    {o : Outcome Tally σ ℓ} (h : replayOne? levels index op space loader = some o) :
    replayOne index op space loader = o := by
  cases levels with
  | zero => exact replayOne_eq_of_replayOneWith (fun _ _ _ _ h => by simp at h) h
  | succ levels => exact replayOne_eq_of_replayOneWith (fun _ _ _ _ h => replay_eq_of_replay? h) h

@[simp] theorem replay_nil (index : Nat) (space : σ) (loader : ℓ) :
    replay index [] space loader = ⟨.ok .zero, space, loader⟩ := rfl

theorem replay_cons (index : Nat) (op : Operation) (ops : Script) (space : σ) (loader : ℓ) :
    replay index (op :: ops) space loader =
      match (replayOne index op space loader).result with
      | .error _ => replayOne index op space loader
      | .ok tally =>
        (replay (index + 1) ops (replayOne index op space loader).space
          (replayOne index op space loader).loader).map tally.add := by
  have own := replay?_room index (op :: ops) space loader
  rw [replay?, replayEach] at own
  cases ho : replayOne? (room loader) index op space loader with
  | none => simp [ho] at own
  | some o =>
    rw [ho] at own
    rw [replayOne_eq_of_replayOne? ho]
    dsimp only at own
    split at own
    · next h => simp_all
    · next tally h =>
      obtain ⟨rest, hr, heq⟩ := Option.map_eq_some_iff.mp own
      rw [replay_eq_of_replay? hr]
      exact heq.symm

def build (script : Script) (space : σ) (loader : ℓ) : Outcome Summary σ ℓ :=
  (replay 0 script space loader).map (·.summary false)

def buildFromScratch (script : Script) (space : σ) (loader : ℓ) : Outcome Summary σ ℓ :=
  match NameSpace.perform .clear space with
  | (.error refusal, space) => ⟨.error (.reset refusal), space, loader⟩
  | (.ok (), space) => (replay 0 script space loader).map (·.summary true)

end Bounded

end MountScript
