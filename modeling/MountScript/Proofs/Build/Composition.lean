import MountScript.Build.Replay

/-!
# Building one script after another

A build of two scripts in a row is the build of the first and, only if that succeeds, the build of
the second on what the first left. Nothing is undone and nothing is tried after a failure. The
counts add up, and an error of the second script counts its outermost index on from the first.
-/

namespace MountScript

def Site.shift (count : Nat) (site : Site) : Site := { site with index := site.index + count }

/-- Counts the index in the outermost script on; the levels below it stay as they are. -/
def BuildError.shift (count : Nat) : BuildError → BuildError
  | parse cause => parse cause
  | reset cause => reset cause
  | arity site action found => arity (site.shift count) action found
  | apply site action cause => apply (site.shift count) action cause
  | inclusion site path cause => inclusion (site.shift count) path cause
  | nested site path inner => nested (site.shift count) path inner

theorem Tally.add_assoc (a b c : Tally) : (a.add b).add c = a.add (b.add c) := by
  simp [add, Nat.add_assoc]

theorem Tally.add_comp (a b : Tally) : a.add ∘ b.add = (a.add b).add := by
  funext c
  exact (Tally.add_assoc a b c).symm

theorem Tally.zero_add : Tally.zero.add = id := by
  funext a
  simp [add, zero]

namespace Outcome

variable {α β γ σ ℓ : Type}

theorem map_map (o : Outcome α σ ℓ) (f : α → β) (g : β → γ) :
    (o.map f).map g = o.map (g ∘ f) := by
  rcases o with ⟨_ | _, _, _⟩ <;> rfl

theorem map_id (o : Outcome α σ ℓ) : o.map id = o := by
  rcases o with ⟨_ | _, _, _⟩ <;> rfl

theorem mapError_map (o : Outcome α σ ℓ) (f : α → β) (g : BuildError → BuildError) :
    (o.map f).mapError g = (o.mapError g).map f := by
  rcases o with ⟨_ | _, _, _⟩ <;> rfl

end Outcome

section

variable {σ ℓ : Type} [NameSpace σ]

theorem applyCall_shift (count index line : Nat) (call : Call) (space : σ) (loader : ℓ) :
    applyCall ⟨index + count, line⟩ call space loader =
      (applyCall ⟨index, line⟩ call space loader).mapError (·.shift count) := by
  unfold applyCall
  split <;> rfl

omit [NameSpace σ] in
theorem closeInclude_shift [Loader ℓ] (count index line : Nat) (path : String)
    (o : Outcome Tally σ ℓ) :
    closeInclude ⟨index + count, line⟩ path o =
      (closeInclude ⟨index, line⟩ path o).mapError (·.shift count) := by
  unfold closeInclude
  cases o.result <;> rfl

variable [BoundedLoader ℓ]

theorem replayOne_shift (count index : Nat) (op : Operation) (space : σ) (loader : ℓ) :
    replayOne (index + count) op space loader =
      (replayOne index op space loader).mapError (·.shift count) := by
  unfold replayOne
  dsimp only
  cases op.request? with
  | none => rfl
  | some request =>
    cases request with
    | call call => exact applyCall_shift count index op.line call space loader
    | includeScript path =>
      dsimp only
      split
      · rfl
      · exact closeInclude_shift count index op.line path _

theorem replay_shift (count index : Nat) (script : Script) (space : σ) (loader : ℓ) :
    replay (index + count) script space loader =
      (replay index script space loader).mapError (·.shift count) := by
  induction script generalizing index space loader with
  | nil => rfl
  | cons op ops ih =>
    rw [replay_cons, replay_cons, replayOne_shift, Nat.add_right_comm]
    rcases replayOne index op space loader with ⟨e | tally, after, left⟩
    · rfl
    · change (replay (index + 1 + count) ops after left).map tally.add =
        ((replay (index + 1) ops after left).map tally.add).mapError (·.shift count)
      rw [ih (index + 1) after left, Outcome.mapError_map]

theorem replay_append (index : Nat) (first second : Script) (space : σ) (loader : ℓ) :
    replay index (first ++ second) space loader =
      match replay index first space loader with
      | ⟨.error e, after, left⟩ => ⟨.error e, after, left⟩
      | ⟨.ok tally, after, left⟩ =>
        (replay (index + first.length) second after left).map tally.add := by
  induction first generalizing index space loader with
  | nil =>
    rw [replay_nil]
    dsimp only
    rw [Tally.zero_add, Outcome.map_id]
    rfl
  | cons op ops ih =>
    rw [List.cons_append, replay_cons, replay_cons]
    rcases replayOne index op space loader with ⟨e | tally, after, left⟩
    · rfl
    · have hlength : index + 1 + ops.length = index + (op :: ops).length := by
        simp only [List.length_cons]
        omega
      dsimp only
      rw [ih (index + 1) after left, hlength]
      rcases replay (index + 1) ops after left with ⟨e | more, last, rest⟩
      · rfl
      · dsimp only [Outcome.map, Except.map]
        rw [← Tally.add_comp]
        exact Outcome.map_map _ _ _

/-- A build of two scripts in a row is the first build, and after a success the second one on what
it left. -/
theorem build_append (first second : Script) (space : σ) (loader : ℓ) :
    build (first ++ second) space loader =
      match build first space loader with
      | ⟨.error e, after, left⟩ => ⟨.error e, after, left⟩
      | ⟨.ok a, after, left⟩ =>
        match build second after left with
        | ⟨.error e, last, rest⟩ => ⟨.error (e.shift first.length), last, rest⟩
        | ⟨.ok b, last, rest⟩ =>
          ⟨.ok ⟨a.applied + b.applied, a.included + b.included, false⟩, last, rest⟩ := by
  rw [build, build, replay_append]
  rcases replay 0 first space loader with ⟨e | tally, after, left⟩
  · rfl
  · dsimp only [Outcome.map, Except.map]
    rw [build, replay_shift]
    rcases replay 0 second after left with ⟨e | more, last, rest⟩ <;> rfl

end

end MountScript
