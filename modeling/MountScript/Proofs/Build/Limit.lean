import Mathlib.Control.Monad.Basic
import MountScript.Proofs.Build.Nesting

/-!
# Builds come to an end

A loader that refuses to open a script when so many are open as its limit allows makes every build
end, whatever the scripts include: one level of nesting for each script that may be open is enough.
Never are more scripts open, and no error is nested deeper. Nothing else is asked of the loader. A
loader of files is of this kind, so files that include themselves or each other do no harm.
-/

namespace MountScript

open BuildError (levels)

section Limits

variable {ℓ : Type} [Loader ℓ]

/-- The states in which a loader can be when the scripts in `opened` are open, innermost first. -/
inductive Stands (start : ℓ) : List String → ℓ → Prop
  | start : Stands start [] start
  | opened {opened : List String} {loader entered : ℓ} {path : String} {script : Script}
      (before : Stands start opened loader)
      (answer : Loader.enter path loader = (.ok script, entered)) :
      Stands start (path :: opened) entered
  | refused {opened : List String} {loader left : ℓ} {path : String} {cause : IncludeError}
      (before : Stands start opened loader)
      (answer : Loader.enter path loader = (.error cause, left)) : Stands start opened left
  | left {opened : List String} {loader : ℓ} {path : String}
      (before : Stands start (path :: opened) loader) :
      Stands start opened (Loader.leave path loader)

/-- Whatever happens, the loader refuses every script while `limit` scripts are open. -/
def Limits (limit : Nat) (start : ℓ) : Prop :=
  ∀ {opened : List String} {loader : ℓ}, Stands start opened loader → opened.length = limit →
    ∀ path, ∃ cause, (Loader.enter path loader).1 = .error cause

theorem Limits.length_le {limit : Nat} {start loader : ℓ} {opened : List String}
    (h : Limits limit start) (stands : Stands start opened loader) : opened.length ≤ limit := by
  induction stands with
  | start => exact Nat.zero_le _
  | @opened opened loader entered path script before answer ih =>
    have hfull : opened.length ≠ limit := by
      intro hfull
      obtain ⟨cause, refused⟩ := h before hfull path
      rw [answer] at refused
      nomatch refused
    rw [List.length_cons]
    omega
  | refused _ _ ih => exact ih
  | left _ ih => exact Nat.le_of_succ_le ih

end Limits

theorem BoundedLoader.room_add_length_le {ℓ : Type} [BoundedLoader ℓ] {start loader : ℓ}
    {opened : List String} (h : Stands start opened loader) :
    room loader + opened.length ≤ room start := by
  induction h with
  | start => exact Nat.le_refl _
  | @opened opened loader entered path script before answer ih =>
    have hroom : room entered < room loader := by
      simpa [answer] using room_enter_ok (congrArg Prod.fst answer)
    rw [List.length_cons]
    omega
  | @refused opened loader left path cause before answer ih =>
    have hroom : room left ≤ room loader := by
      simpa [answer] using room_enter_error (congrArg Prod.fst answer)
    omega
  | @left opened loader path before ih =>
    have hroom := room_leave path loader
    rw [List.length_cons] at ih
    omega

theorem BoundedLoader.limits {ℓ : Type} [BoundedLoader ℓ] {start : ℓ} {limit : Nat}
    (h : room start ≤ limit) : Limits limit start := by
  intro opened loader stands hfull path
  have hroom := room_add_length_le stands
  cases answer : (Loader.enter path loader).1 with
  | error cause => exact ⟨cause, rfl⟩
  | ok script =>
    have hless := room_enter_ok answer
    omega

section Returns

variable {σ ℓ : Type} [NameSpace σ] [Loader ℓ]

omit [Loader ℓ] in
theorem loader_applyCall (site : Site) (call : Call) (space : σ) (loader : ℓ) :
    (applyCall site call space loader).loader = loader := by
  unfold applyCall
  split <;> rfl

omit [NameSpace σ] in
theorem loader_closeInclude (site : Site) (path : String) (o : Outcome Tally σ ℓ) :
    (closeInclude site path o).loader = Loader.leave path o.loader := by
  unfold closeInclude
  split <;> rfl

theorem replayOneWith_stands {start loader : ℓ} {opened : List String}
    {run : Script → σ → ℓ → Option (Outcome Tally σ ℓ)} (stands : Stands start opened loader)
    (h : ∀ path script space entered, Loader.enter path loader = (.ok script, entered) →
      ∃ o, run script space entered = some o ∧ Stands start (path :: opened) o.loader)
    (index : Nat) (op : Operation) (space : σ) :
    ∃ o, replayOneWith run index op space loader = some o ∧ Stands start opened o.loader := by
  unfold replayOneWith
  dsimp only
  cases op.request? with
  | none => exact ⟨_, rfl, stands⟩
  | some request =>
    cases request with
    | call call =>
      refine ⟨_, rfl, ?_⟩
      rw [loader_applyCall]
      exact stands
    | includeScript path =>
      dsimp only
      split
      · next cause left answer => exact ⟨_, rfl, stands.refused answer⟩
      · next script entered answer =>
        obtain ⟨o, ho, hinside⟩ := h path script space entered answer
        refine ⟨closeInclude ⟨index, op.line⟩ path o, by rw [ho]; rfl, ?_⟩
        rw [loader_closeInclude]
        exact hinside.left

theorem replayOne?_stands {limit : Nat} {start : ℓ} (h : Limits limit start) (levels : Nat)
    {opened : List String} (henough : limit ≤ opened.length + levels) (index : Nat)
    (op : Operation) (space : σ) (loader : ℓ) (stands : Stands start opened loader) :
    ∃ o, replayOne? levels index op space loader = some o ∧ Stands start opened o.loader := by
  induction levels generalizing opened index op space loader with
  | zero =>
    have hfull : opened.length = limit := Nat.le_antisymm (h.length_le stands) henough
    refine replayOneWith_stands stands (fun path script _ entered answer => ?_) index op space
    obtain ⟨cause, refused⟩ := h stands hfull path
    rw [answer] at refused
    nomatch refused
  | succ levels ih =>
    refine replayOneWith_stands stands (fun path script space entered answer => ?_) index op space
    have hinside : limit ≤ (path :: opened).length + levels := by
      rw [List.length_cons]
      omega
    exact replayEach_keeps (ih hinside) 0 script space entered (stands.opened answer)

theorem replay?_stands {limit : Nat} {start : ℓ} (h : Limits limit start) (script : Script)
    (space : σ) :
    ∃ o, replay? limit 0 script space start = some o ∧ Stands start [] o.loader :=
  replayEach_keeps (replayOne?_stands h limit (by simp)) 0 script space start .start

omit [NameSpace σ] [Loader ℓ] in
theorem replayEach_error {P : BuildError → Prop}
    {step : Nat → Operation → σ → ℓ → Option (Outcome Tally σ ℓ)}
    (h : ∀ index op space loader o e, step index op space loader = some o →
      o.result = .error e → P e)
    {index : Nat} {script : Script} {space : σ} {loader : ℓ} {o : Outcome Tally σ ℓ}
    {e : BuildError} (ho : replayEach step index script space loader = some o)
    (he : o.result = .error e) : P e := by
  induction script generalizing index space loader o with
  | nil =>
    obtain rfl := Option.some.inj ho
    nomatch he
  | cons op ops ih =>
    rw [replayEach] at ho
    cases hstep : step index op space loader with
    | none => simp [hstep] at ho
    | some first =>
      rw [hstep] at ho
      dsimp only at ho
      split at ho
      · obtain rfl := Option.some.inj ho
        exact h index op space loader first e hstep he
      · obtain ⟨rest, hrest, rfl⟩ := Option.map_eq_some_iff.mp ho
        rw [Outcome.result_map] at he
        cases hresult : rest.result with
        | ok tally => simp [hresult, Except.map] at he
        | error e' =>
          obtain rfl : e' = e := by simpa [hresult, Except.map] using he
          exact ih hrest hresult

theorem length_levels_of_replayOneWith {run : Script → σ → ℓ → Option (Outcome Tally σ ℓ)} {n : Nat}
    (h : ∀ script space loader o e, run script space loader = some o → o.result = .error e →
      e.levels.length ≤ n)
    {index : Nat} {op : Operation} {space : σ} {loader : ℓ} {o : Outcome Tally σ ℓ}
    {e : BuildError} (ho : replayOneWith run index op space loader = some o)
    (he : o.result = .error e) : e.levels.length ≤ n + 1 := by
  unfold replayOneWith at ho
  dsimp only at ho
  split at ho
  · obtain rfl := Option.some.inj ho
    obtain rfl := Except.error.inj he
    simp [levels]
  · obtain rfl := Option.some.inj ho
    unfold applyCall at he
    split at he
    · nomatch he
    · obtain rfl := Except.error.inj he
      simp [levels]
  · split at ho
    · obtain rfl := Option.some.inj ho
      obtain rfl := Except.error.inj he
      simp [levels]
    · obtain ⟨inner, hinner, rfl⟩ := Option.map_eq_some_iff.mp ho
      unfold closeInclude at he
      dsimp only at he
      split at he
      · nomatch he
      · next e' hresult =>
        obtain rfl := Except.error.inj he
        exact Nat.succ_le_succ (h _ _ _ _ _ hinner hresult)

theorem length_levels_of_replayOne? {n index : Nat} {op : Operation} {space : σ} {loader : ℓ}
    {o : Outcome Tally σ ℓ} {e : BuildError} (ho : replayOne? n index op space loader = some o)
    (he : o.result = .error e) : e.levels.length ≤ n + 1 := by
  induction n generalizing index op space loader o e with
  | zero => exact length_levels_of_replayOneWith (fun _ _ _ _ _ h => by simp at h) ho he
  | succ n ih =>
    exact length_levels_of_replayOneWith
      (fun _ _ _ _ _ => replayEach_error fun _ _ _ _ _ _ => ih) ho he

end Returns

section Watched

variable {ℓ : Type} [Loader ℓ]

theorem Stands.unobserved {start w : ObservedLoader ℓ} {opened : List String}
    (h : Stands start opened w) : Stands start.loader opened w.loader := by
  induction h with
  | start => exact .start
  | opened _ answer ih => exact ih.opened (enter_observed_iff.mp answer).1
  | refused _ answer ih => exact ih.refused (enter_observed_iff.mp answer).1
  | left _ ih => exact ih.left

theorem Limits.observed {limit : Nat} {start : ObservedLoader ℓ} (h : Limits limit start.loader) :
    Limits limit start :=
  fun stands hfull path => h stands.unobserved hfull path

structure OpenWithin (limit : Nat) (visits : List Visit) (opened : List String) : Prop where
  atEnd : openAfter [] visits = some opened
  always : ∀ before, before <+: visits →
    ∃ within, openAfter [] before = some within ∧ within.length ≤ limit

theorem OpenWithin.concat {limit : Nat} {visits : List Visit} {opened next : List String}
    {visit : Visit} (h : OpenWithin limit visits opened)
    (atEnd : openAfter opened [visit] = some next) (hle : next.length ≤ limit) :
    OpenWithin limit (visits ++ [visit]) next := by
  have hnext : openAfter [] (visits ++ [visit]) = some next := by
    rw [openAfter_append_of_eq h.atEnd, atEnd]
  refine ⟨hnext, fun before hbefore => ?_⟩
  rcases List.prefix_concat_iff.mp hbefore with hall | hbefore
  · exact ⟨next, hall ▸ hnext, hle⟩
  · exact h.always before hbefore

theorem Stands.openWithin {limit : Nat} {start : ℓ} {w : ObservedLoader ℓ} {opened : List String}
    (h : Limits limit start) (stands : Stands (ObservedLoader.mk start []) opened w) :
    OpenWithin limit w.visits opened := by
  have hle : ∀ {opened w}, Stands (ObservedLoader.mk start []) opened w → opened.length ≤ limit :=
    fun stands => h.length_le stands.unobserved
  induction stands with
  | start =>
    refine ⟨rfl, fun before hbefore => ?_⟩
    obtain rfl := List.prefix_nil.mp hbefore
    exact ⟨[], rfl, Nat.zero_le _⟩
  | opened before answer ih =>
    rw [(enter_observed_iff.mp answer).2]
    exact ih.concat rfl (hle (before.opened answer))
  | refused before answer ih =>
    rw [(enter_observed_iff.mp answer).2]
    exact ih.concat rfl (hle before)
  | left before ih => exact ih.concat (by simp [openAfter]) (hle before.left)

namespace BuildMode

variable {σ : Type} [NameSpace σ]

theorem returns_of_limits {limit : Nat} {loader : ℓ} (h : Limits limit loader) (mode : BuildMode)
    (script : Script) (space : σ) :
    ∃ (o : Outcome Summary σ ℓ) (visits : List Visit),
      mode.run? limit script space loader = some o ∧
      mode.run? limit script space (ObservedLoader.mk loader []) =
        some ⟨o.result, o.space, ⟨o.loader, visits⟩⟩ ∧
      OpenWithin limit visits [] ∧ ∀ e, o.result = .error e → e.levels.length ≤ limit + 1 := by
  rcases mode.starts_or_refused space with ⟨start, starts⟩ | ⟨refusal, after, refused⟩
  · have hwatched : Limits limit (ObservedLoader.mk loader []) := Limits.observed h
    obtain ⟨⟨result, after, w⟩, hw, stands⟩ := replay?_stands hwatched script start
    have hplain : replay? limit 0 script start loader = some ⟨result, after, w.loader⟩ := by
      obtain ⟨o, ho, -⟩ := replay?_stands h script start
      have unwatched := (replays_of_replay? hw).mapState (f := id) (g := ObservedLoader.loader)
        (fun _ _ => rfl) (fun _ _ => rfl) (fun _ _ => rfl)
      rw [ho, (replays_of_replay? ho).unique unwatched]
      rfl
    refine ⟨⟨result.map (Tally.summary · (mode = fromScratch)), after, w.loader⟩, w.visits,
      by rw [run?_of_starts starts, hplain]; rfl, by rw [run?_of_starts starts, hw]; rfl,
      stands.openWithin h, fun e he => ?_⟩
    cases result with
    | ok tally => simp [Except.map] at he
    | error inner =>
      obtain rfl := Except.error.inj he
      exact replayEach_error (fun _ _ _ _ _ _ => length_levels_of_replayOne?) hplain rfl
  · refine ⟨_, [], run?_of_refused refused .., run?_of_refused refused ..,
      Stands.start.openWithin h, fun e he => ?_⟩
    obtain rfl := Except.error.inj he
    exact Nat.le_add_left 1 limit

/-- With a loader that refuses every script while `limit` scripts are open, each build ends, and no
more levels of nesting are needed than that. Never are more scripts open, and an error has no more
nested levels. A loader of files has such a limit, whatever is in the files. -/
theorem run?_within_limit {limit : Nat} {loader : ℓ} (h : Limits limit loader) (mode : BuildMode)
    (script : Script) (space : σ) :
    (∃ (o : Outcome Summary σ ℓ) (visits : List Visit),
      (∀ levels, limit ≤ levels → mode.run? levels script space loader = some o ∧
        mode.run? levels script space (ObservedLoader.mk loader []) =
          some ⟨o.result, o.space, ⟨o.loader, visits⟩⟩) ∧
      OpenWithin limit visits [] ∧ ∀ e, o.result = .error e → e.levels.length ≤ limit + 1) ∧
    ∀ files : FileLoader, Limits files.maxDepth files ∧
      mode.run? files.maxDepth script space files = some (mode.run script space files) := by
  refine ⟨?_, fun files => ?_⟩
  · obtain ⟨o, visits, ho, hw, within, nested⟩ := returns_of_limits h mode script space
    exact ⟨o, visits, fun levels hle => ⟨run?_mono hle ho, run?_mono hle hw⟩, within, nested⟩
  · have hroom : BoundedLoader.room files ≤ files.maxDepth := Nat.sub_le _ _
    exact ⟨BoundedLoader.limits hroom, run?_mono hroom (run?_room mode script space files)⟩

theorem run?_within_limit_selfInclude :
    let loader := Catalogue.start [("a", .text ". a")] 2
    let script : Script := [⟨.changeDir, .replace, ["/"], 1⟩, ⟨.includeScript, .replace, ["a"], 2⟩]
    let e : BuildError := .nested ⟨1, 2⟩ "a" (.nested ⟨0, 1⟩ "a"
      (.inclusion ⟨0, 1⟩ "a" (.depthExceeded 2)))
    Limits 2 loader ∧
      ∃ (o : Outcome Summary MountTable Catalogue) (visits : List Visit),
        (∀ levels, 2 ≤ levels → fromScratch.run? levels script MountTable.empty loader = some o ∧
          fromScratch.run? levels script MountTable.empty (ObservedLoader.mk loader []) =
            some ⟨o.result, o.space, ⟨o.loader, visits⟩⟩) ∧
        OpenWithin 2 visits [] ∧ o.result = .error e ∧ e.levels.length ≤ 2 + 1 := by
  intro loader script e
  have limits : Limits 2 loader := BoundedLoader.limits (Nat.le_refl 2)
  obtain ⟨⟨o, visits, runs, within, nested⟩, -⟩ :=
    run?_within_limit limits fromScratch script MountTable.empty
  have failed : ((fromScratch.run? 2 script MountTable.empty loader).map Outcome.result) =
      some (.error e) := by decide +kernel
  have hresult : o.result = .error e := by
    rw [(runs 2 (Nat.le_refl 2)).1] at failed
    exact Option.some.inj failed
  exact ⟨limits, o, visits, runs, within, hresult, nested e hresult⟩

end BuildMode

end Watched

end MountScript
