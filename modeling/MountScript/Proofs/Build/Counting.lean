import Mathlib.Algebra.GroupWithZero.Nat
import MountScript.Proofs.Build.Nesting
import MountScript.Proofs.Build.Trial

/-!
# What a summary counts

A build that succeeds has applied each operation of its script and of every script that it entered,
once for each time. An include counts as an operation and as a script included, all others made one
call. So the calls can be told from the summary, and so can what was asked of the loader.
-/

namespace MountScript

def CountsCalls {σ : Type} [NameSpace σ] (count : σ → Nat) : Prop :=
  ∀ (call : Call) (space after : σ), NameSpace.perform call space = (.ok (), after) →
    count after = count space + 1

theorem Recorder.countsCalls : CountsCalls fun r : Recorder => r.calls.length := by
  intro call r after answer
  simp [eq_of_perform answer]

section Observed

variable {σ : Type} [NameSpace σ]

theorem ObservedSpace.countsCalls : CountsCalls fun w : ObservedSpace σ => w.calls.length := by
  intro call w after answer
  simp [(perform_observed_iff.mp answer).2]

theorem CountsCalls.observed {count : σ → Nat} (h : CountsCalls count) :
    CountsCalls fun w : ObservedSpace σ => count w.space :=
  fun call w after answer => h call w.space after.space (perform_observed_iff.mp answer).1

end Observed

namespace Visit

def entries : Visit → Nat
  | opened .. => 1
  | refused .. | left .. => 0

def leaves : Visit → Nat
  | left .. => 1
  | opened .. | refused .. => 0

def operations : Visit → Nat
  | opened _ script => script.length
  | refused .. | left .. => 0

def total (f : Visit → Nat) (visits : List Visit) : Nat := (visits.map f).sum

@[simp] theorem total_nil (f : Visit → Nat) : total f [] = 0 := rfl

@[simp] theorem total_cons (f : Visit → Nat) (visit : Visit) (visits : List Visit) :
    total f (visit :: visits) = f visit + total f visits := rfl

@[simp] theorem total_append (f : Visit → Nat) (first second : List Visit) :
    total f (first ++ second) = total f first + total f second := by
  simp [total]

end Visit

open Visit (total entries leaves operations)

structure Tally.Accounts (tally : Tally) (ops calls : Nat) (visits : List Visit) : Prop where
  calls : calls + tally.included = tally.applied
  entries : Visit.total entries visits = tally.included
  leaves : Visit.total leaves visits = tally.included
  operations : tally.applied = ops + Visit.total operations visits

namespace Tally.Accounts

variable {tally inside rest : Tally} {ops calls more : Nat} {visits after : List Visit}

theorem zero : Tally.zero.Accounts 0 0 [] := ⟨rfl, rfl, rfl, rfl⟩

theorem call (h : tally.Accounts ops calls visits) :
    ((Tally.mk 1 0).add tally).Accounts (ops + 1) (calls + 1) visits := by
  obtain ⟨hcalls, hentries, hleaves, hoperations⟩ := h
  constructor <;> simp only [Tally.add] <;> omega

theorem included (path : String) {script : Script} (h₁ : inside.Accounts script.length calls visits)
    (h₂ : rest.Accounts ops more after) :
    ((inside.add ⟨1, 1⟩).add rest).Accounts (ops + 1) (calls + more)
      (.opened path script :: (visits ++ [.left path]) ++ after) := by
  obtain ⟨hcalls, hentries, hleaves, hoperations⟩ := h₁
  obtain ⟨hcalls', hentries', hleaves', hoperations'⟩ := h₂
  constructor <;>
    simp only [Tally.add, List.cons_append, Visit.total_cons, Visit.total_append, Visit.total_nil,
      Visit.entries, Visit.leaves, Visit.operations] <;> omega

end Tally.Accounts

section Replay

variable {σ ℓ : Type} [NameSpace σ] [BoundedLoader ℓ] {count : σ → Nat}

theorem Replays.accounts (counts : CountsCalls count) {index : Nat} {script : Script} {space : σ}
    {loader : ObservedLoader ℓ} {o : Outcome Tally σ (ObservedLoader ℓ)}
    (h : Replays index script space loader o) {tally : Tally} (ok : o.result = .ok tally) :
    ∃ calls visits, count o.space = count space + calls ∧
      o.loader.visits = loader.visits ++ visits ∧ tally.Accounts script.length calls visits := by
  induction h generalizing tally with
  | done =>
    obtain rfl := Except.ok.inj ok
    exact ⟨0, [], rfl, by simp, .zero⟩
  | arity | refused | barred | failed => nomatch ok
  | applied _ answer _ ih =>
    obtain ⟨more, hmore, rfl⟩ := Outcome.result_map_eq_ok_iff.mp ok
    obtain ⟨calls, visits, hcount, hvisits, accounts⟩ := ih hmore
    have hcall := counts _ _ _ answer
    refine ⟨calls + 1, visits, ?_, hvisits, accounts.call⟩
    rw [Outcome.space_map, hcount, hcall]
    omega
  | @included _ _ _ _ _ _ _ _ path script _ _ _ answer _ _ ihInside ihRest =>
    obtain ⟨more, hmore, rfl⟩ := Outcome.result_map_eq_ok_iff.mp ok
    obtain ⟨calls, visits, hcount, hvisits, inside⟩ := ihInside rfl
    obtain ⟨calls', visits', hcount', hvisits', rest⟩ := ihRest hmore
    refine ⟨calls + calls', _, ?_, ?_, inside.included path rest⟩
    · rw [Outcome.space_map, hcount', hcount]
      omega
    · rw [Outcome.loader_map, hvisits', visits_leave answer hvisits, List.append_assoc]

end Replay

namespace BuildMode

variable {σ ℓ : Type} [NameSpace σ] [BoundedLoader ℓ]

theorem Starts.count_eq {count : σ → Nat} (counts : CountsCalls count) {mode : BuildMode}
    {space start : σ} (h : mode.Starts space start) :
    count start = count space + if mode = fromScratch then 1 else 0 := by
  cases mode with
  | asFound => exact congrArg count h
  | fromScratch => exact counts _ _ _ h

theorem run_accounts {count : σ → Nat} (counts : CountsCalls count) {mode : BuildMode}
    {script : Script} {space : σ} {loader : ObservedLoader ℓ} {summary : Summary}
    (h : (mode.run script space loader).result = .ok summary) :
    ∃ (tally : Tally) (calls : Nat) (visits : List Visit),
      summary = tally.summary (mode = .fromScratch) ∧
      count (mode.run script space loader).space =
        count space + calls + (if summary.reset then 1 else 0) ∧
      (mode.run script space loader).loader.visits = loader.visits ++ visits ∧
      tally.Accounts script.length calls visits := by
  rcases mode.starts_or_refused space with ⟨start, starts⟩ | ⟨cause, after, refused⟩
  · rw [run_of_starts starts] at h ⊢
    obtain ⟨tally, htally, rfl⟩ := Outcome.result_map_eq_ok_iff.mp h
    obtain ⟨calls, visits, hcount, hvisits, accounts⟩ :=
      (replays_replay 0 script start loader).accounts counts htally
    refine ⟨tally, calls, visits, rfl, ?_, hvisits, accounts⟩
    rw [Outcome.space_map, hcount, starts.count_eq counts]
    simp only [Tally.summary, decide_eq_true_eq]
    omega
  · rw [run_of_refused refused] at h
    nomatch h

/-- A build that succeeds made one call for each operation that it counts and that is no include,
and one more if it cleared the name space first, which it did if and only if it was to begin from
scratch. It counts as many included scripts as it entered, and it left as many; the operations that
it counts are those of its script and of all that it entered. A name space that counts its calls,
such as a recorder, comes to the same number. -/
theorem summary_counts {mode : BuildMode} {script : Script} {space : σ} {loader : ℓ}
    {summary : Summary} (h : (mode.run script space loader).result = .ok summary) :
    let made := summary.applied - summary.included + if summary.reset then 1 else 0
    let visits := mode.visits script space loader
    summary.included ≤ summary.applied ∧
      (mode.calls script space loader).length = made ∧
      (∀ count : σ → Nat, CountsCalls count →
        count (mode.run script space loader).space = count space + made) ∧
      (CountsCalls fun r : Recorder => r.calls.length) ∧
      total entries visits = summary.included ∧ total leaves visits = summary.included ∧
      summary.applied = script.length + total operations visits ∧
      (summary.reset = true ↔ mode = .fromScratch) := by
  intro made visits
  have watched := mode.unobserved_observe script space loader
  have hwatched : (mode.observe script space loader).result = .ok summary :=
    (congrArg Outcome.result watched).trans h
  have counted : ∀ count : ObservedSpace σ → Nat, CountsCalls count →
      ∃ (tally : Tally) (calls : Nat), summary = tally.summary (mode = .fromScratch) ∧
        count (mode.observe script space loader).space =
          count ⟨space, []⟩ + calls + (if summary.reset then 1 else 0) ∧
        tally.Accounts script.length calls visits := by
    intro count counts
    obtain ⟨tally, calls, found, hsummary, hcount, hvisits, accounts⟩ :=
      run_accounts counts hwatched
    obtain rfl : visits = found := hvisits
    exact ⟨tally, calls, hsummary, hcount, accounts⟩
  have number : ∀ count : ObservedSpace σ → Nat, CountsCalls count →
      count (mode.observe script space loader).space = count ⟨space, []⟩ + made := by
    intro count counts
    obtain ⟨tally, calls, rfl, hcount, accounts⟩ := counted count counts
    have hcalls := accounts.calls
    simp only [hcount, made, Tally.summary]
    omega
  obtain ⟨tally, calls, hsummary, -, accounts⟩ := counted _ ObservedSpace.countsCalls
  have hcalls := accounts.calls
  refine ⟨?_, ?_, fun count counts => ?_, Recorder.countsCalls, ?_, ?_, ?_, ?_⟩
  · rw [hsummary]
    exact Nat.le.intro ((Nat.add_comm _ _).trans hcalls)
  · exact (number _ ObservedSpace.countsCalls).trans (Nat.zero_add _)
  · rw [← watched]
    exact number _ counts.observed
  · rw [hsummary]
    exact accounts.entries
  · rw [hsummary]
    exact accounts.leaves
  · rw [hsummary]
    exact accounts.operations
  · simp [hsummary, Tally.summary]

theorem summary_counts_repeated :
    let script : Script := [⟨.includeScript, .replace, ["a"], 1⟩, ⟨.reset, .replace, [], 2⟩,
      ⟨.includeScript, .replace, ["b"], 3⟩]
    let loader := Catalogue.start [("a", .text "clear\n. b"), ("b", .text "cd /\ncd /n")] 2
    let r := Recorder.start (some 7)
    let visits := fromScratch.visits script r loader
    (fromScratch.run script r loader).result = .ok ⟨9, 3, true⟩ ∧
      (fromScratch.calls script r loader).length = 7 ∧
      (fromScratch.run script r loader).space.calls.length = 7 ∧
      total entries visits = 3 ∧ total leaves visits = 3 ∧ 9 = 3 + total operations visits := by
  intro script loader r visits
  have succeeded : (fromScratch.run script r loader).result = .ok ⟨9, 3, true⟩ := by decide +kernel
  -- Without its entries the loader answers nothing, so what follows runs no build.
  clear_value loader
  obtain ⟨-, hcalls, hcount, counts, hentries, hleaves, hoperations, -⟩ := summary_counts succeeded
  exact ⟨succeeded, hcalls, hcount _ counts, hentries, hleaves, hoperations⟩

end BuildMode
end MountScript
