import MountScript.Proofs.Build.Provenance
import MountScript.Proofs.File.Includes
import MountScript.Proofs.File.OpenFiles

/-!
# The top-level file and the files it includes

A build from files parses its top-level file before it does anything else, so a file that is no
script leaves the name space alone, and that is the only way for a build to end with the error of a
parser. A file that is included is read when the build comes to the include that names it: what was
applied before stays, and the error is that of the include.
-/

namespace MountScript

section Replay

variable {σ ℓ : Type} [NameSpace σ] [Loader ℓ]

theorem Replays.parse_not_mem_levels {index : Nat} {script : Script} {space : σ} {loader : ℓ}
    {o : Outcome Tally σ ℓ} (h : Replays index script space loader o) {e : BuildError}
    (failed : o.result = .error e) (cause : ParseError) : .parse cause ∉ e.levels := by
  induction h generalizing e with
  | done => nomatch failed
  | arity | refused | barred =>
    obtain rfl := Except.error.inj failed
    simp [BuildError.levels]
  | applied _ _ _ ih => exact ih (Outcome.result_map_eq_error_iff.mp failed)
  | failed _ _ _ ih =>
    obtain rfl := Except.error.inj failed
    simp [BuildError.levels, ih rfl]
  | included _ _ _ _ _ ih => exact ih (Outcome.result_map_eq_error_iff.mp failed)

theorem StopsAt.exists_stack_eq {script : Script} {space last : σ} {loader left : FileLoader}
    {levels : List (Site × String)} {site : Site} {op : Operation}
    (h : StopsAt script space loader levels site op last left) :
    ∃ opened, left = { loader with stack := opened } := by
  induction h with
  | here _ _ done =>
    obtain rfl := (replay_eq_iff.mp done).fileLoader_eq
    exact ⟨_, rfl⟩
  | inside _ _ _ _ done answer _ ih =>
    obtain rfl := (replay_eq_iff.mp done).fileLoader_eq
    obtain ⟨opened, rfl⟩ := ih
    obtain ⟨file, -, rfl⟩ := FileLoader.exists_opens_of_enter answer
    exact ⟨opened, rfl⟩

end Replay

namespace BuildMode

section Run

variable {σ ℓ : Type} [NameSpace σ] [BoundedLoader ℓ]

theorem parse_not_mem_levels {mode : BuildMode} {script : Script} {space : σ} {loader : ℓ}
    {e : BuildError} (failed : (mode.run script space loader).result = .error e)
    (cause : ParseError) : .parse cause ∉ e.levels := by
  rcases mode.starts_or_refused space with ⟨start, h⟩ | ⟨refusal, after, h⟩
  · rw [run_of_starts h] at failed
    exact (replays_replay 0 script start loader).parse_not_mem_levels
      (Outcome.result_map_eq_error_iff.mp failed) cause
  · rw [run_of_refused h] at failed
    obtain rfl := Except.error.inj failed
    simp [BuildError.levels]

theorem head?_calls_fromScratch (script : Script) (space : σ) (loader : ℓ) :
    (fromScratch.run script (ObservedSpace.mk space []) loader).space.calls.head? =
      some .clear := by
  rcases fromScratch.starts_or_refused (ObservedSpace.mk space []) with
    ⟨start, h⟩ | ⟨refusal, after, h⟩
  · have answer : NameSpace.perform .clear (ObservedSpace.mk space []) = (.ok (), start) := h
    obtain ⟨made, hmade⟩ := (replays_replay 0 script start loader).calls_extend
    rw [run_of_starts h, Outcome.space_map, ← hmade, (perform_observed_iff.mp answer).2]
    rfl
  · rw [run_of_refused h, (perform_observed_iff.mp h.2).2]
    rfl

theorem run_eq_nest_iff {mode : BuildMode} {script : Script} {space after : σ} {loader : ℓ}
    {levels : List (Site × String)} {site : Site} {fault : BuildError}
    (place : fault.site? = some site)
    (plain : ∀ site path inner, fault ≠ .nested site path inner) :
    ((mode.run script space loader).result = .error (.nest levels fault) ∧
        (mode.run script space loader).space = after) ↔
      ∃ start op last left, mode.Starts space start ∧
        StopsAt script start loader levels site op last left ∧
        Faults site op last left fault after := by
  constructor
  · rintro ⟨failed, rfl⟩
    rcases mode.starts_or_refused space with ⟨start, h⟩ | ⟨refusal, after, h⟩
    · rw [run_of_starts h] at failed ⊢
      have hrun := Outcome.eq_of_result (Outcome.result_map_eq_error_iff.mp failed)
      obtain ⟨levels', site', op, last, left, fault', stops, same, faults⟩ := exists_stopsAt hrun
      have plain' : ∀ site path inner, fault' ≠ .nested site path inner := by
        intro _ _ _
        cases faults <;> nofun
      obtain ⟨rfl, rfl⟩ := BuildError.nest_injective plain plain' same
      obtain rfl : site' = site := Option.some.inj (faults.action_site.2.symm.trans place)
      exact ⟨start, op, last, left, h, stops, faults⟩
    · rw [run_of_refused h] at failed
      have same := Except.error.inj failed
      cases levels with
      | nil =>
        obtain rfl : BuildError.reset refusal = fault := same
        nomatch place
      | cons level levels => nomatch same
  · rintro ⟨start, op, last, left, h, stops, faults⟩
    obtain ⟨kept, hrun⟩ := stops.replay_eq faults
    rw [run_of_starts h, hrun]
    exact ⟨rfl, rfl⟩

end Run

variable {σ : Type} [NameSpace σ]

theorem run_eq_inclusion_iff {mode : BuildMode} {script : Script} {space after : σ}
    {loader : FileLoader} {levels : List (Site × String)} {site : Site} {operand : String}
    {cause : IncludeError} :
    ((mode.run script space loader).result = .error (.nest levels (.inclusion site operand cause)) ∧
        (mode.run script space loader).space = after) ↔
      ∃ start op opened, mode.Starts space start ∧
        StopsAt script start loader levels site op after { loader with stack := opened } ∧
        op.action = .includeScript ∧ op.operands = [operand] ∧
        FileLoader.Refuses { loader with stack := opened } operand cause := by
  rw [run_eq_nest_iff rfl (by nofun)]
  constructor
  · rintro ⟨start, op, last, left, starts, stops, faults⟩
    obtain ⟨opened, rfl⟩ := stops.exists_stack_eq
    cases faults with
    | inclusion action operands answer =>
      have refuses := FileLoader.enter_eq_error_iff.mp (congrArg Prod.fst answer)
      exact ⟨start, op, opened, starts, stops, action, operands, refuses⟩
  · rintro ⟨start, op, opened, starts, stops, action, operands, refuses⟩
    have answer := FileLoader.enter_of_refuses refuses
    exact ⟨start, op, after, _, starts, stops, .inclusion action operands answer⟩

theorem runFile_of_parse {files : FileSystem} {s : Settings} {file : Option String}
    {script : Script} (parsed : files.parseFile (file.getD s.namespaceFile) = .ok script)
    (mode : BuildMode) (space : σ) :
    let o := mode.run script space
      ((FileLoader.ofSettings files s).withRoot (file.getD s.namespaceFile))
    mode.runFile files s file space = (o.result, o.space) := by
  rw [runFile_eq, buildFile, parsed]

theorem runFile_of_parse_error {files : FileSystem} {s : Settings} {file : Option String}
    {cause : ParseError} (malformed : files.parseFile (file.getD s.namespaceFile) = .error cause)
    (mode : BuildMode) (space : σ) :
    mode.runFile files s file space = (.error (.parse cause), space) := by
  rw [runFile_eq, buildFile, malformed]

theorem runFile_observed (mode : BuildMode) (files : FileSystem) (s : Settings)
    (file : Option String) (space : σ) :
    let watched := mode.runFile files s file (ObservedSpace.mk space [])
    mode.runFile files s file space = (watched.1, watched.2.space) := by
  cases parsed : files.parseFile (file.getD s.namespaceFile) with
  | error cause => simp only [runFile_of_parse_error parsed]
  | ok script =>
    simp only [runFile_of_parse parsed, ← run_observedSpace mode script space]
    rfl

/-- A build from a file ends with the error of a parser exactly if the file is no script. Then no
call has been made. Else a build from scratch first clears the name space, and no level of an error
is that of a parser. It ends with an include that is refused, for instance because its file cannot
be read or is no script, exactly if it comes to that include when all operations before it, and
nothing else, were applied. -/
theorem runFile_parses_first (mode : BuildMode) (files : FileSystem) (s : Settings)
    (file : Option String) (space : σ) :
    let path := file.getD s.namespaceFile
    let result := (mode.runFile files s file space).1
    let watched := mode.runFile files s file (ObservedSpace.mk space [])
    mode.runFile files s file space = (watched.1, watched.2.space) ∧
      (∀ cause, result = .error (.parse cause) ↔ files.parseFile path = .error cause) ∧
      match files.parseFile path with
      | .error cause => watched = (.error (.parse cause), ObservedSpace.mk space [])
      | .ok script =>
        let loader := (FileLoader.ofSettings files s).withRoot path
        (mode = .fromScratch → watched.2.calls.head? = some .clear) ∧
          (∀ e, result = .error e → ∀ cause, .parse cause ∉ e.levels) ∧
          ∀ levels site operand cause after,
            watched = (.error (.nest levels (.inclusion site operand cause)), after) ↔
              ∃ start op opened, mode.Starts (ObservedSpace.mk space []) start ∧
                StopsAt script start loader levels site op after { loader with stack := opened } ∧
                op.action = .includeScript ∧ op.operands = [operand] ∧
                FileLoader.Refuses { loader with stack := opened } operand cause := by
  intro path result watched
  refine ⟨mode.runFile_observed files s file space, ?_⟩
  cases parsed : files.parseFile path with
  | error malformed =>
    have hresult : result = .error (.parse malformed) :=
      congrArg Prod.fst (runFile_of_parse_error parsed mode space)
    exact ⟨fun cause => by simp [hresult], runFile_of_parse_error parsed mode _⟩
  | ok script =>
    have hresult : result = _ := congrArg Prod.fst (runFile_of_parse parsed mode space)
    have hwatched : watched = _ := runFile_of_parse parsed mode _
    have apart : ∀ e, result = .error e → ∀ cause, .parse cause ∉ e.levels := fun e failed =>
      parse_not_mem_levels (hresult.symm.trans failed)
    refine ⟨fun cause => ⟨fun failed => ?_, nofun⟩, fun scratch => ?_, apart, ?_⟩
    · exact absurd List.mem_cons_self (apart _ failed cause)
    · subst scratch
      rw [hwatched]
      exact head?_calls_fromScratch script space _
    · intro levels site operand cause after
      rw [hwatched, Prod.mk.injEq]
      exact run_eq_inclusion_iff

/-- Two scripts and a file that is none. It is irreducible so that only the kernel runs a build of
them. -/
@[irreducible] def halfWritten : FileSystem :=
  let texts : List (String × String) := [("/ns/top", "bind x y\n. sub\nclear\n"),
    ("/ns/sub", "# none yet\ncd /n\n. odd\n"), ("/ns/odd", "cd /\nfrob x\n")]
  { canonical path := if (texts.lookup path).isSome then .ok path else .error .notFound
    reads path := (texts.lookup path).elim (.error .notFound) fun text =>
      .ok [.bytes text.toUTF8.data.toList] }

theorem runFile_parses_first_included :
    let s : Settings := ⟨"/ns/top", 2, some "/ns"⟩
    let script : Script := [⟨.splice, .replace, ["x", "y"], 1⟩,
      ⟨.includeScript, .replace, ["sub"], 2⟩, ⟨.reset, .replace, [], 3⟩]
    let loader := (FileLoader.ofSettings halfWritten s).withRoot "/ns/top"
    let space := ObservedSpace.mk (Recorder.start none) []
    let watched := fromScratch.runFile halfWritten s none space
    let cause : IncludeError := .parse "/ns/odd" (.unknownAction 2 "frob")
    let e : BuildError := .nest [(⟨1, 2⟩, "sub")] (.inclusion ⟨1, 3⟩ "odd" cause)
    halfWritten.parseFile "/ns/top" = .ok script ∧ watched = (.error e, watched.2) ∧
      watched.2.calls = [.clear, .bind "x" "y" .replace, .changeDir "/n"] ∧
      watched.2.calls.head? = some .clear ∧ (∀ cause, .parse cause ∉ e.levels) ∧
      ∃ start op opened, fromScratch.Starts space start ∧
        StopsAt script start loader [(⟨1, 2⟩, "sub")] ⟨1, 3⟩ op watched.2
          { loader with stack := opened } ∧
        op.action = .includeScript ∧ op.operands = ["odd"] ∧
        FileLoader.Refuses { loader with stack := opened } "odd" cause := by
  intro s script loader space watched cause e
  have parsed : halfWritten.parseFile "/ns/top" = .ok script := by decide +kernel
  have failed : watched.1 = .error e := by decide +kernel
  have hcalls : watched.2.calls = [.clear, .bind "x" "y" .replace, .changeDir "/n"] := by
    decide +kernel
  obtain ⟨same, -, runs⟩ :=
    runFile_parses_first fromScratch halfWritten s none (Recorder.start none)
  rw [show halfWritten.parseFile ((none : Option String).getD s.namespaceFile) = .ok script from
    parsed] at runs
  obtain ⟨first, apart, stops⟩ := runs
  have ends : watched = (.error e, watched.2) := Prod.ext failed rfl
  exact ⟨parsed, ends, hcalls, first rfl, apart e ((congrArg Prod.fst same).trans failed),
    (stops _ _ _ _ _).mp ends⟩

end BuildMode

end MountScript
