import MountScript.Proofs.Build.Observation
import MountScript.Proofs.Space.Invariant
import MountScript.Space.Recorder

/-!
# Trial runs

A recorder that refuses nothing shows which calls a build makes. On any other name space the build
makes the same calls in the same order, up to and with the first that is refused, and it reports
that refusal. If none is refused, the build ends as its trial did.
-/

namespace MountScript

namespace NameSpace

variable {σ : Type} [NameSpace σ]

def Accepts (space : σ) : List Call → Prop
  | [] => True
  | call :: calls => (perform call space).1 = .ok () ∧ Accepts (perform call space).2 calls

/-- Of `calls`, those in `done` are accepted and `call`, which comes next, is refused. -/
structure FirstRefused (space : σ) (calls done : List Call) (call : Call) (refusal : Refusal) :
    Prop where
  begins : done ++ [call] <+: calls
  accepted : Accepts space done
  refused : (perform call (performAll space done)).1 = .error refusal

theorem accepts_append {space : σ} {first second : List Call} :
    Accepts space (first ++ second) ↔
      Accepts space first ∧ Accepts (performAll space first) second := by
  induction first generalizing space with
  | nil => simp [Accepts]
  | cons call calls ih => simp [Accepts, ih, and_assoc]

variable {space : σ} {calls done : List Call} {call : Call} {refusal : Refusal}

theorem FirstRefused.take_eq (h : FirstRefused space calls done call refusal) :
    calls.take (done.length + 1) = done ++ [call] := by
  obtain ⟨rest, rfl⟩ := h.begins
  exact List.take_left' (by simp)

theorem FirstRefused.getElem?_eq (h : FirstRefused space calls done call refusal) :
    calls[done.length]? = some call := by
  obtain ⟨rest, rfl⟩ := h.begins
  simp

theorem FirstRefused.append_right (h : FirstRefused space calls done call refusal)
    (more : List Call) : FirstRefused space (calls ++ more) done call refusal :=
  ⟨h.begins.trans (List.prefix_append calls more), h.accepted, h.refused⟩

theorem FirstRefused.append_left {before : List Call} (hb : Accepts space before)
    (h : FirstRefused (performAll space before) calls done call refusal) :
    FirstRefused space (before ++ calls) (before ++ done) call refusal where
  begins := by
    rw [List.append_assoc]
    exact (List.prefix_append_right_inj before).mpr h.begins
  accepted := accepts_append.mpr ⟨hb, h.accepted⟩
  refused := by
    rw [performAll_append]
    exact h.refused

end NameSpace

open NameSpace (performAll Accepts FirstRefused performAll_append accepts_append)

namespace Recorder

def injected (count : Nat) (call : Call) : Refusal :=
  .other ("injected failure on call " ++ toString count ++ " (" ++ call.action.keyword ++ ")")

theorem perform_eq (r : Recorder) (call : Call) :
    NameSpace.perform call r =
      (if r.failAt = some r.calls.length then .error (injected r.calls.length call) else .ok (),
        ⟨r.calls ++ [call], r.failAt⟩) := by
  simp only [NameSpace.perform, record]
  split <;> rfl

theorem perform_trial (held : List Call) (call : Call) :
    NameSpace.perform call (Recorder.mk held none) = (.ok (), ⟨held ++ [call], none⟩) := by
  simp [perform_eq]

theorem eq_of_perform {r after : Recorder} {call : Call} {answer : Except Refusal Unit}
    (h : NameSpace.perform call r = (answer, after)) : after = ⟨r.calls ++ [call], r.failAt⟩ := by
  rw [perform_eq] at h
  exact (congrArg Prod.snd h).symm

theorem performAll_eq (r : Recorder) (calls : List Call) :
    performAll r calls = ⟨r.calls ++ calls, r.failAt⟩ := by
  induction calls generalizing r with
  | nil => simp
  | cons call calls ih => simp [ih, perform_eq]

theorem accepts_start_iff {n : Nat} {calls : List Call} :
    Accepts (start (some n)) calls ↔ calls.length ≤ n := by
  induction calls using List.reverseRecOn with
  | nil => simp [Accepts]
  | append_singleton calls call ih =>
    have hlast : Accepts (performAll (start (some n)) calls) [call] ↔ n ≠ calls.length := by
      simp [performAll_eq, Accepts, perform_eq, start]
    rw [accepts_append, ih, hlast, List.length_append, List.length_singleton]
    omega

end Recorder

section Follows

variable {α σ ℓ : Type} [NameSpace σ]

inductive Follows (space : σ) (made : List Call) (t : Outcome α Recorder ℓ)
    (o : Outcome α σ ℓ) : Prop
  | through (accepted : Accepts space made)
      (same : o = ⟨t.result, performAll space made, t.loader⟩)
  | cut {done : List Call} {call : Call} {refusal : Refusal} {site : Site} {e : BuildError}
      (first : FirstRefused space made done call refusal) (failed : o.result = .error e)
      (innermost : e.innermost = .apply site call.action refusal)
      (state : o.space = performAll space (done ++ [call]))

variable {space : σ} {made : List Call} {t : Outcome α Recorder ℓ} {o : Outcome α σ ℓ}

theorem Follows.map {β : Type} (f : α → β) (h : Follows space made t o) :
    Follows space made (t.map f) (o.map f) := by
  cases h with
  | through accepted same => exact .through accepted (by rw [same]; rfl)
  | cut first failed innermost state =>
    exact .cut first (by rw [Outcome.map, failed]; rfl) innermost state

theorem Follows.after {before : List Call} (hb : Accepts space before)
    (h : Follows (performAll space before) made t o) : Follows space (before ++ made) t o := by
  cases h with
  | through accepted same =>
    exact .through (accepts_append.mpr ⟨hb, accepted⟩) (by rw [performAll_append, same])
  | cut first failed innermost state =>
    refine .cut (first.append_left hb) failed innermost ?_
    rw [List.append_assoc, performAll_append, state]

end Follows

section Replay

variable {σ ℓ : Type} [NameSpace σ] [BoundedLoader ℓ]

omit [NameSpace σ] in
theorem Replays.recorded {index : Nat} {script : Script} {r : Recorder} {loader : ℓ}
    {o : Outcome Tally Recorder ℓ} (h : Replays index script r loader o) :
    ∃ made, o.space = ⟨r.calls ++ made, r.failAt⟩ := by
  induction h with
  | done | arity | barred => exact ⟨[], by simp⟩
  | refused _ answer => exact ⟨_, Recorder.eq_of_perform answer⟩
  | applied _ answer _ ih =>
    obtain rfl := Recorder.eq_of_perform answer
    obtain ⟨made, hmade⟩ := ih
    exact ⟨[_] ++ made, by simpa using hmade⟩
  | failed _ _ _ ih => exact ih
  | included _ _ _ _ inside rest =>
    obtain ⟨made, rfl⟩ := inside
    obtain ⟨more, hmore⟩ := rest
    exact ⟨made ++ more, by simpa using hmore⟩

omit [NameSpace σ] in
theorem exists_trial_of_inside {index : Nat} {op : Operation} {ops : Script} {held made : List Call}
    {loader entered : ℓ} {path : String} {script : Script} {t : Outcome Tally Recorder ℓ}
    (asks : op.request? = some (.includeScript path))
    (answer : Loader.enter path loader = (.ok script, entered))
    (inside : Replays 0 script (Recorder.mk held none) entered t)
    (hspace : t.space = ⟨held ++ made, none⟩) :
    ∃ more whole, Replays index (op :: ops) (Recorder.mk held none) loader whole ∧
      whole.space = ⟨held ++ (made ++ more), none⟩ := by
  rcases t with ⟨inner | tally, after, left⟩
  · exact ⟨[], _, .failed asks answer inside, by simpa using hspace⟩
  · have rest := replays_replay (index + 1) ops after (Loader.leave path left)
    obtain ⟨more, hmore⟩ := rest.recorded
    obtain rfl : after = ⟨held ++ made, none⟩ := hspace
    exact ⟨more, _, .included asks answer inside rest, by simpa using hmore⟩

theorem Replays.follows {index : Nat} {script : Script} {space : σ} {loader : ℓ}
    {o : Outcome Tally σ ℓ} (h : Replays index script space loader o) (held : List Call) :
    ∃ made t, Replays index script ⟨held, none⟩ loader t ∧ t.space = ⟨held ++ made, none⟩ ∧
      Follows space made t o := by
  -- The trial goes on where the build stops, so in the cases of a refusal it is run to its end first.
  induction h generalizing held with
  | done => exact ⟨[], _, .done, by simp, .through trivial rfl⟩
  | arity asks => exact ⟨[], _, .arity asks, by simp, .through trivial rfl⟩
  | @refused index op ops space after loader call refusal asks answer =>
    have rest := replays_replay (index + 1) ops (Recorder.mk (held ++ [call]) none) loader
    obtain ⟨more, hmore⟩ := rest.recorded
    have first : FirstRefused space (call :: more) [] call refusal :=
      ⟨⟨more, rfl⟩, trivial, by simp [answer]⟩
    exact ⟨call :: more, _, .applied asks (Recorder.perform_trial held call) rest,
      by simpa using hmore, .cut first rfl rfl (by simp [answer])⟩
  | @applied index op ops space after loader call o asks answer _ ih =>
    obtain ⟨made, t, rest, hspace, hfollows⟩ := ih (held ++ [call])
    have hcall : Accepts space [call] := by simp [Accepts, answer]
    have hafter : after = performAll space [call] := by simp [answer]
    exact ⟨[call] ++ made, _, .applied asks (Recorder.perform_trial held call) rest,
      by simpa using hspace, ((hafter ▸ hfollows).after hcall).map _⟩
  | barred asks answer => exact ⟨[], _, .barred asks answer, by simp, .through trivial rfl⟩
  | @failed index op ops space after loader entered left path script inner asks answer _ ih =>
    obtain ⟨made, t, inside, hspace, hfollows⟩ := ih held
    cases hfollows with
    | through accepted same =>
      obtain ⟨hresult, rfl, rfl⟩ := Outcome.mk.inj same
      obtain ⟨result, kept, left⟩ := t
      obtain rfl : .error inner = result := hresult
      exact ⟨made, _, .failed asks answer inside, hspace, .through accepted rfl⟩
    | cut first failed innermost state =>
      obtain ⟨more, whole, hwhole, hmore⟩ := exists_trial_of_inside asks answer inside hspace
      obtain rfl := Except.error.inj failed
      exact ⟨made ++ more, whole, hwhole, hmore, .cut (first.append_right more) rfl innermost state⟩
  | @included index op ops space after loader entered left path script tally o asks answer _ _
      ihInside ihRest =>
    obtain ⟨made, t, inside, hspace, hfollows⟩ := ihInside held
    cases hfollows with
    | through accepted same =>
      obtain ⟨hresult, rfl, rfl⟩ := Outcome.mk.inj same
      obtain ⟨result, kept, left⟩ := t
      obtain rfl : .ok tally = result := hresult
      obtain rfl : kept = ⟨held ++ made, none⟩ := hspace
      obtain ⟨more, t, rest, hmore, hfollows⟩ := ihRest (held ++ made)
      exact ⟨made ++ more, _, .included asks answer inside rest, by simpa using hmore,
        (hfollows.after accepted).map _⟩
    | cut _ failed _ _ => simp at failed

end Replay

section Observed

variable {σ : Type} [NameSpace σ]

theorem performAll_observed (w : ObservedSpace σ) (calls : List Call) :
    performAll w calls = ⟨performAll w.space calls, w.calls ++ calls⟩ := by
  induction calls generalizing w with
  | nil => simp
  | cons call calls ih => simp [ih, NameSpace.perform]

theorem accepts_observed_iff {w : ObservedSpace σ} {calls : List Call} :
    Accepts w calls ↔ Accepts w.space calls := by
  induction calls generalizing w with
  | nil => rfl
  | cons call calls ih => simp only [Accepts, ih, NameSpace.perform]

theorem firstRefused_observed_iff {w : ObservedSpace σ} {calls done : List Call} {call : Call}
    {refusal : Refusal} :
    FirstRefused w calls done call refusal ↔ FirstRefused w.space calls done call refusal := by
  have hrefused : (NameSpace.perform call (performAll w done)).1 =
      (NameSpace.perform call (performAll w.space done)).1 := by
    rw [performAll_observed]
    rfl
  exact ⟨fun h => ⟨h.begins, accepts_observed_iff.mp h.accepted, hrefused ▸ h.refused⟩,
    fun h => ⟨h.begins, accepts_observed_iff.mpr h.accepted, hrefused ▸ h.refused⟩⟩

end Observed

namespace BuildMode

/-- The error of a build that was refused `call` after `count` other calls. Clearing the name space
is the first call of a build from scratch, and no operation of the script. -/
def Blames (mode : BuildMode) (count : Nat) (call : Call) (refusal : Refusal) (e : BuildError) :
    Prop :=
  if mode = .fromScratch ∧ count = 0 then e = .reset refusal
  else ∃ site, e.innermost = .apply site call.action refusal

variable {σ ℓ : Type} [NameSpace σ] [BoundedLoader ℓ]

theorem blames_of_innermost {mode : BuildMode} {count : Nat} {site : Site} {call : Call}
    {refusal : Refusal} {e : BuildError} (h : mode = .fromScratch → count ≠ 0)
    (innermost : e.innermost = .apply site call.action refusal) :
    mode.Blames count call refusal e ∧ e.action? = some call.action := by
  constructor
  · rw [Blames, if_neg fun both => h both.1 both.2]
    exact ⟨site, innermost⟩
  · rw [← e.action?_innermost, innermost]
    rfl

theorem summary_follows (reset : Bool) (script : Script) (space : σ) (loader : ℓ)
    (held : List Call) :
    let t := (replay 0 script (Recorder.mk held none) loader).map (Tally.summary · reset)
    ∃ made, t.space.calls = held ++ made ∧
      Follows space made t ((replay 0 script space loader).map (Tally.summary · reset)) := by
  obtain ⟨made, t, ht, hspace, hfollows⟩ := (replays_replay 0 script space loader).follows held
  rw [ht.replay_eq]
  exact ⟨made, by simp [hspace], hfollows.map _⟩

theorem run_follows (mode : BuildMode) (script : Script) (space : σ) (loader : ℓ) :
    let trial := mode.run script (Recorder.start none) loader
    let o := mode.run script space loader
    (Accepts space trial.space.calls ∧
        o = ⟨trial.result, performAll space trial.space.calls, trial.loader⟩) ∨
      ∃ done call refusal e, FirstRefused space trial.space.calls done call refusal ∧
        o.space = performAll space (done ++ [call]) ∧ o.result = .error e ∧
        mode.Blames done.length call refusal e ∧ e.action? = some call.action := by
  intro trial o
  cases mode with
  | asFound =>
    obtain ⟨made, hmade, hfollows⟩ := summary_follows false script space loader []
    obtain rfl : trial.space.calls = made := hmade
    cases hfollows with
    | through accepted same => exact .inl ⟨accepted, same⟩
    | cut first failed innermost state =>
      exact .inr ⟨_, _, _, _, first, state, failed, blames_of_innermost (by simp) innermost⟩
  | fromScratch =>
    rcases hclear : NameSpace.perform .clear space with ⟨refusal | _, after⟩
    · obtain ⟨made, hmade, -⟩ := summary_follows true script space loader [.clear]
      have ho : o = ⟨.error (.reset refusal), after, loader⟩ :=
        run_of_refused ⟨rfl, hclear⟩ script loader
      have first : FirstRefused space trial.space.calls [] .clear refusal :=
        ⟨⟨made, hmade.symm⟩, trivial, by simp [hclear]⟩
      exact .inr ⟨[], _, _, .reset refusal, first, by simp [ho, hclear], by rw [ho],
        by simp [Blames], rfl⟩
    · obtain ⟨made, hmade, hfollows⟩ := summary_follows true script after loader [.clear]
      have ho : o = (replay 0 script after loader).map (Tally.summary · true) := by
        simp [o, run, buildFromScratch, hclear]
      have hcalls : trial.space.calls = [.clear] ++ made := hmade
      have accepts : Accepts space [.clear] := by simp [Accepts, hclear]
      have hafter : after = performAll space [.clear] := by simp [hclear]
      rw [hcalls, ho]
      rw [hafter] at hfollows ⊢
      cases hfollows with
      | through accepted same =>
        refine .inl ⟨accepts_append.mpr ⟨accepts, accepted⟩, ?_⟩
        rw [performAll_append]
        exact same
      | cut first failed innermost state =>
        refine .inr ⟨_, _, _, _, first.append_left accepts, ?_, failed,
          blames_of_innermost (by simp) innermost⟩
        rw [List.append_assoc, performAll_append, state]

theorem observe_follows (mode : BuildMode) (script : Script) (space : σ) (loader : ℓ) :
    let trial := mode.run script (Recorder.start none) loader
    let o := mode.run script space loader
    (Accepts space trial.space.calls ∧ mode.calls script space loader = trial.space.calls ∧
        o = ⟨trial.result, performAll space trial.space.calls, trial.loader⟩) ∨
      ∃ done call refusal e, FirstRefused space trial.space.calls done call refusal ∧
        mode.calls script space loader = done ++ [call] ∧
        o.space = performAll space (done ++ [call]) ∧ o.result = .error e ∧
        mode.Blames done.length call refusal e ∧ e.action? = some call.action := by
  have hplain := mode.run_observedSpace script space loader
  dsimp only
  rw [← hplain, calls_eq]
  rcases mode.run_follows script (ObservedSpace.mk space []) loader with
    ⟨accepted, same⟩ | ⟨done, call, refusal, e, first, state, failed, blames⟩
  · rw [performAll_observed] at same
    exact .inl ⟨accepts_observed_iff.mp accepted, by rw [same]; rfl, by rw [same]; rfl⟩
  · rw [performAll_observed] at state
    exact .inr ⟨done, call, refusal, e, firstRefused_observed_iff.mp first, by rw [state]; rfl,
      by rw [Outcome.mapState, state], failed, blames⟩

theorem result_of_accepts {mode : BuildMode} {script : Script} {space : σ} {loader : ℓ}
    (h : Accepts space (mode.calls script space loader)) :
    (mode.run script space loader).result =
      (mode.run script (Recorder.start none) loader).result := by
  rcases mode.observe_follows script space loader with
    ⟨-, -, same⟩ | ⟨done, call, refusal, e, first, hcalls, -, -, -, -⟩
  · rw [same]
  · rw [hcalls, accepts_append] at h
    have hcall := h.2.1
    rw [first.refused] at hcall
    nomatch hcall

omit [NameSpace σ] in
theorem exists_trial (mode : BuildMode) (script : Script) (loader : ℓ) :
    ∃ (held : List Call) (reset : Bool), mode.run script (Recorder.start none) loader =
      (replay 0 script (Recorder.mk held none) loader).map (Tally.summary · reset) := by
  cases mode with
  | asFound => exact ⟨[], false, rfl⟩
  | fromScratch => exact ⟨[.clear], true, rfl⟩

theorem recorder_refuses {n : Nat} {calls done : List Call} {call : Call} {refusal : Refusal}
    (h : FirstRefused (Recorder.start (some n)) calls done call refusal) :
    done.length = n ∧ refusal = Recorder.injected n call := by
  have hrefused := h.refused
  rw [Recorder.performAll_eq, Recorder.perform_eq] at hrefused
  by_cases hn : n = done.length
  · subst hn
    simpa [Recorder.start, eq_comm] using hrefused
  · simp [Recorder.start, hn] at hrefused

/-- A trial shows the calls that a build makes on any name space until one is refused. A build of
which no call is refused ends as its trial; else it stops at the first refusal and reports it. With
a recorder that is set to refuse a call of the trial, it stops at that call. -/
theorem calls_until_refused (mode : BuildMode) (script : Script) (space : σ) (loader : ℓ) :
    let trial := mode.run script (Recorder.start none) loader
    let o := mode.run script space loader
    ((Accepts space trial.space.calls ∧ mode.calls script space loader = trial.space.calls ∧
        o = ⟨trial.result, performAll space trial.space.calls, trial.loader⟩) ∨
      ∃ done call refusal e, FirstRefused space trial.space.calls done call refusal ∧
        mode.calls script space loader = done ++ [call] ∧
        o.space = performAll space (done ++ [call]) ∧ o.result = .error e ∧
        mode.Blames done.length call refusal e ∧ e.action? = some call.action) ∧
    ∀ n : Fin trial.space.calls.length,
      let call := trial.space.calls[n]
      let faulty := mode.run script (Recorder.start (some n)) loader
      faulty.space.calls = trial.space.calls.take (n + 1) ∧
        ∃ e, faulty.result = .error e ∧ mode.Blames n call (Recorder.injected n call) e ∧
          e.action? = some call.action := by
  refine ⟨mode.observe_follows script space loader, fun n => ?_⟩
  rcases mode.run_follows script (Recorder.start (some n)) loader with
    ⟨accepted, -⟩ | ⟨done, call, refusal, e, first, state, failed, blames, action⟩
  · exact absurd n.isLt (Nat.not_lt.mpr (Recorder.accepts_start_iff.mp accepted))
  · obtain ⟨hn, rfl⟩ := recorder_refuses first
    have hcall : (mode.run script (Recorder.start none) loader).space.calls[n] = call := by
      have hget := first.getElem?_eq
      rw [hn] at hget
      exact (List.getElem?_eq_some_iff.mp hget).2
    dsimp only
    rw [hcall, ← hn, first.take_eq, hn, state, Recorder.performAll_eq]
    exact ⟨rfl, e, failed, hn ▸ blames, action⟩

end BuildMode

end MountScript
