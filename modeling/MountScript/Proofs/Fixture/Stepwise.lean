import Mathlib.Algebra.GroupWithZero.Nat
import Mathlib.Data.Set.List
import MountScript.Fixture.Scenario
import MountScript.Proofs.Build.Composition
import MountScript.Proofs.Build.Nesting
import MountScript.Proofs.Fixture.Sections

/-!
# Running a fixture step by step

Lines that are read and applied in full do the same whatever their numbers are, and lines in a row
do what their parts do one after another. So the steps of a fixture, run one after another, do what
the whole fixture does as one script.
-/

namespace MountScript

theorem exists_map_ok_iff {ε α : Type} {results : List (Except ε α)} :
    (∃ values : List α, values.map .ok = results) ↔ ∀ result ∈ results, result.isOk := by
  have isOk_iff (result : Except ε α) :
      result ∈ Set.range (Except.ok : α → Except ε α) ↔ result.isOk := by
    cases result <;> simp [Except.isOk, Except.toBool]
  simp only [← isOk_iff]
  exact Set.ext_iff.mp (Set.range_list_map _) results

section Applies

variable {σ ℓ : Type} [NameSpace σ] [BoundedLoader ℓ]

theorem Replays.of_requests {index place : Nat} {script other : Script} {space : σ} {loader : ℓ}
    {o : Outcome Tally σ ℓ} {tally : Tally} (h : Replays index script space loader o)
    (applied : o.result = .ok tally)
    (same : other.map Operation.request? = script.map Operation.request?) :
    Replays place other space loader o := by
  induction h generalizing place other tally with
  | done =>
    obtain rfl : other = [] := by simpa using same
    exact .done
  | arity | refused | barred | failed => cases applied
  | applied asks answer _ ih =>
    obtain ⟨op, ops, rfl, hop, hops⟩ := List.map_eq_cons_iff.mp same
    obtain ⟨tally, hrest, -⟩ := map_eq_ok_iff.mp applied
    exact .applied (hop.trans asks) answer (ih hrest hops)
  | included asks answer inside _ _ ih =>
    obtain ⟨op, ops, rfl, hop, hops⟩ := List.map_eq_cons_iff.mp same
    obtain ⟨tally, hrest, -⟩ := map_eq_ok_iff.mp applied
    exact .included (hop.trans asks) answer inside (ih hrest hops)

def Applies (texts : List String) (space : σ) (loader : ℓ) (tally : Tally) (after : σ) (left : ℓ) :
    Prop :=
  ∃ line index script, parseLines line texts = .ok script ∧
    replay index script space loader = ⟨.ok tally, after, left⟩

theorem requests_shift (count : Nat) (script : Script) :
    (script.map (Operation.shift count)).map Operation.request? =
      script.map Operation.request? := by
  rw [List.map_map]
  rfl

variable {texts first second : List String} {space after : σ} {loader left : ℓ} {tally : Tally}

theorem exists_renumbered {line : Nat} {script : Script} (h : parseLines line texts = .ok script)
    (other : Nat) :
    ∃ renumbered, parseLines other texts = .ok renumbered ∧
      renumbered.map Operation.request? = script.map Operation.request? := by
  rw [← Nat.zero_add line] at h
  obtain ⟨base, hbase, rfl⟩ := parseLines_shift_eq_ok_iff.mp h
  refine ⟨base.map (Operation.shift other), ?_, ?_⟩
  · rw [← Nat.zero_add other]
    exact parseLines_shift_eq_ok_iff.mpr ⟨base, hbase, by rw [Nat.zero_add]⟩
  · rw [requests_shift, requests_shift]

theorem applies_iff (line index : Nat) :
    Applies texts space loader tally after left ↔
      ∃ script, parseLines line texts = .ok script ∧
        replay index script space loader = ⟨.ok tally, after, left⟩ := by
  constructor
  · rintro ⟨start, place, script, hscript, hreplay⟩
    obtain ⟨renumbered, hrenumbered, same⟩ := exists_renumbered hscript line
    have happlied : Replays index renumbered space loader ⟨.ok tally, after, left⟩ :=
      (replay_eq_iff.mp hreplay).of_requests rfl same
    exact ⟨renumbered, hrenumbered, happlied.replay_eq⟩
  · rintro ⟨script, hscript, hreplay⟩
    exact ⟨line, index, script, hscript, hreplay⟩

theorem applies_append :
    Applies (first ++ second) space loader tally after left ↔
      ∃ a between entered b, Applies first space loader a between entered ∧
        Applies second between entered b after left ∧ a.add b = tally := by
  constructor
  · rintro ⟨line, index, script, hscript, hreplay⟩
    rw [parseLines_append] at hscript
    obtain ⟨before, hbefore, hrest⟩ := bind_eq_ok_iff.mp hscript
    obtain ⟨behind, hbehind, hsplit⟩ := bind_eq_ok_iff.mp hrest
    obtain rfl : before ++ behind = script := by simpa [pure, Except.pure] using hsplit
    rw [replay_append] at hreplay
    rcases hfirst : replay index before space loader with ⟨e | a, between, entered⟩
    · rw [hfirst] at hreplay
      cases hreplay
    · rw [hfirst] at hreplay
      dsimp only at hreplay
      rcases hsecond : replay (index + before.length) behind between entered with
        ⟨e | b, last, rest⟩
      · rw [hsecond] at hreplay
        cases hreplay
      · rw [hsecond] at hreplay
        cases hreplay
        exact ⟨a, between, entered, b, ⟨line, index, before, hbefore, hfirst⟩,
          ⟨line + first.length, index + before.length, behind, hbehind, hsecond⟩, rfl⟩
  · rintro ⟨a, between, entered, b, hfirst, hsecond, rfl⟩
    obtain ⟨before, hbefore, ha⟩ := (applies_iff 0 0).mp hfirst
    obtain ⟨behind, hbehind, hb⟩ := (applies_iff (0 + first.length) (0 + before.length)).mp hsecond
    refine ⟨0, 0, before ++ behind, ?_, ?_⟩
    · rw [parseLines_append, hbefore, hbehind]
      rfl
    · rw [replay_append, ha]
      dsimp only
      rw [hb]
      rfl

theorem applies_of_ignored (h : ∀ text ∈ texts, (classify text).isIgnored = true) :
    Applies texts space loader tally after left ↔
      tally = .zero ∧ after = space ∧ left = loader := by
  constructor
  · rintro ⟨line, index, script, hscript, hreplay⟩
    rw [parseLines_of_ignored h] at hscript
    cases hscript
    cases hreplay
    exact ⟨rfl, rfl, rfl⟩
  · rintro ⟨rfl, rfl, rfl⟩
    exact ⟨0, 0, [], parseLines_of_ignored h 0, rfl⟩

theorem applies_ignored_append (h : ∀ text ∈ first, (classify text).isIgnored = true) :
    Applies (first ++ second) space loader tally after left ↔
      Applies second space loader tally after left := by
  rw [applies_append]
  constructor
  · rintro ⟨a, between, entered, b, hfirst, hsecond, rfl⟩
    obtain ⟨rfl, rfl, rfl⟩ := (applies_of_ignored h).mp hfirst
    rwa [Tally.zero_add]
  · intro hsecond
    have hfirst : Applies first space loader .zero space loader :=
      (applies_of_ignored h).mpr ⟨rfl, rfl, rfl⟩
    exact ⟨.zero, space, loader, tally, hfirst, hsecond, by rw [Tally.zero_add, id]⟩

theorem Applies.files_eq {files entered : FileLoader}
    (h : Applies texts space files tally after entered) : entered = files := by
  obtain ⟨line, index, script, -, hreplay⟩ := h
  exact (replay_eq_iff.mp hreplay).fileLoader_eq

end Applies

def Summary.tally (summary : Summary) : Tally := ⟨summary.applied, summary.included⟩

def Tally.total (summaries : List Summary) : Tally :=
  ⟨(summaries.map Summary.applied).sum, (summaries.map Summary.included).sum⟩

theorem Tally.total_cons (summary : Summary) (summaries : List Summary) :
    total (summary :: summaries) = summary.tally.add (total summaries) := rfl

namespace Scenario

open Steps (Section IsMarker)

def runSteps (files : FileSystem) (s : Settings) :
    Steps → MountTable → List (Except String Summary) × MountTable
  | [], t => ([], t)
  | step :: steps, t =>
    let (result, after) := runStep files s step.text t
    let (results, last) := runSteps files s steps after
    (result :: results, last)

variable (files : FileSystem) (s : Settings)

theorem runStep_eq_ok_iff {text : String} {t after : MountTable} {summary : Summary} :
    runStep files s text t = (.ok summary, after) ↔
      ∃ script, Script.parse text = .ok script ∧
        (build script t (FileLoader.ofSettings files s)).result = .ok summary ∧
        (build script t (FileLoader.ofSettings files s)).space = after := by
  rw [runStep]
  cases Script.parse text with
  | error e => simp
  | ok script =>
    rcases hbuild : build script t (FileLoader.ofSettings files s) with ⟨e | found, last, left⟩ <;>
      simp [hbuild, Except.mapError]

theorem exists_runStep_iff {text : String} {body : List String}
    (h : Script.parse text = parseLines 1 body) {t after : MountTable} {tally : Tally} :
    (∃ summary, runStep files s text t = (.ok summary, after) ∧ summary.tally = tally) ↔
      Applies body t (FileLoader.ofSettings files s) tally after
        (FileLoader.ofSettings files s) := by
  constructor
  · rintro ⟨summary, hstep, rfl⟩
    obtain ⟨script, hscript, hresult, rfl⟩ := (runStep_eq_ok_iff files s).mp hstep
    have hloader := BuildMode.asFound.files_run script t (FileLoader.ofSettings files s)
    obtain ⟨tally, htally, rfl⟩ := map_eq_ok_iff.mp hresult
    have hreplay : replay 0 script t (FileLoader.ofSettings files s) =
        ⟨.ok tally, (build script t (FileLoader.ofSettings files s)).space,
          FileLoader.ofSettings files s⟩ := by
      rw [Outcome.mk.injEq]
      exact ⟨htally, rfl, hloader⟩
    exact ⟨1, 0, script, h ▸ hscript, hreplay⟩
  · intro happlies
    obtain ⟨script, hscript, hreplay⟩ := (applies_iff 1 0).mp happlies
    refine ⟨tally.summary false, ?_, rfl⟩
    rw [← h] at hscript
    exact (runStep_eq_ok_iff files s).mpr ⟨script, hscript, by rw [build, hreplay]; rfl,
      by rw [build, hreplay]; rfl⟩

theorem runSteps_cons_eq_ok_iff {step : Step} {steps : Steps} {t last : MountTable}
    {summaries : List Summary} :
    runSteps files s (step :: steps) t = (summaries.map .ok, last) ↔
      ∃ summary between rest, runStep files s step.text t = (.ok summary, between) ∧
        runSteps files s steps between = (rest.map .ok, last) ∧ summary :: rest = summaries := by
  rw [runSteps]
  constructor
  · intro h
    obtain ⟨hresults, hlast⟩ := Prod.mk.inj h
    obtain ⟨summary, rest, rfl, hsummary, hrest⟩ := List.map_eq_cons_iff.mp hresults.symm
    exact ⟨summary, (runStep files s step.text t).2, rest, Prod.ext hsummary.symm rfl,
      Prod.ext hrest.symm hlast, rfl⟩
  · rintro ⟨summary, between, rest, hstep, hsteps, rfl⟩
    rw [hstep]
    dsimp only
    rw [hsteps]
    rfl

theorem runSteps_eq_ok_iff {parts : List Section} (marked : ∀ part ∈ parts, IsMarker part.head)
    (read : ∀ part ∈ parts, Script.parse part.step.text = parseLines 1 part.body)
    {t last : MountTable} {tally : Tally} :
    (∃ summaries, runSteps files s (parts.map Section.step) t = (summaries.map .ok, last) ∧
        .total summaries = tally) ↔
      Applies (parts.flatMap Section.lines) t (FileLoader.ofSettings files s) tally last
        (FileLoader.ofSettings files s) := by
  induction parts generalizing t tally with
  | nil =>
    have hnone : ∀ text ∈ ([] : List String), (classify text).isIgnored = true := by simp
    rw [List.flatMap_nil, applies_of_ignored hnone, List.map_nil, runSteps]
    constructor
    · rintro ⟨summaries, hrun, rfl⟩
      obtain ⟨hsummaries, rfl⟩ := Prod.mk.inj hrun
      obtain rfl : [] = summaries := by simpa using hsummaries
      exact ⟨rfl, rfl, rfl⟩
    · rintro ⟨rfl, rfl, -⟩
      exact ⟨[], rfl, rfl⟩
  | cons part parts ih =>
    obtain ⟨hpart, hparts⟩ := List.forall_mem_cons.mp marked
    obtain ⟨hread, hreads⟩ := List.forall_mem_cons.mp read
    -- The marker is read as a comment, so a section does what its body does.
    have hhead : ∀ text ∈ [part.head], (classify text).isIgnored = true := by
      simpa using Steps.ignored_of_isMarker hpart
    have hlines : (part :: parts).flatMap Section.lines =
        [part.head] ++ (part.body ++ parts.flatMap Section.lines) := rfl
    rw [hlines, applies_ignored_append hhead, applies_append, List.map_cons]
    constructor
    · rintro ⟨summaries, hrun, rfl⟩
      obtain ⟨summary, between, rest, hstep, hsteps, rfl⟩ :=
        (runSteps_cons_eq_ok_iff files s).mp hrun
      have hbody := (exists_runStep_iff files s hread).mp ⟨summary, hstep, rfl⟩
      have hrest := (ih hparts hreads).mp ⟨rest, hsteps, rfl⟩
      exact ⟨summary.tally, between, _, .total rest, hbody, hrest,
        (Tally.total_cons summary rest).symm⟩
    · rintro ⟨a, between, entered, b, hbody, hrest, rfl⟩
      obtain rfl := hbody.files_eq
      obtain ⟨summary, hstep, rfl⟩ := (exists_runStep_iff files s hread).mpr hbody
      obtain ⟨rest, hsteps, rfl⟩ := (ih hparts hreads).mpr hrest
      exact ⟨summary :: rest,
        (runSteps_cons_eq_ok_iff files s).mpr ⟨summary, between, rest, hstep, hsteps, rfl⟩,
        Tally.total_cons summary rest⟩

theorem exists_runStep_iff_runSteps {source : String} {steps : Steps}
    (parsed : Steps.parse source = .ok steps)
    (ignored : ∀ text ∈ Steps.preamble (Text.lines source), (classify text).isIgnored = true)
    {t last : MountTable} {tally : Tally} :
    (∃ summary, runStep files s source t = (.ok summary, last) ∧ summary.tally = tally) ↔
      ∃ summaries, runSteps files s steps t = (summaries.map .ok, last) ∧
        .total summaries = tally := by
  obtain ⟨-, hsteps, -⟩ := Steps.parse_eq_ok_iff.mp parsed
  rw [exists_runStep_iff files s rfl, ← Steps.preamble_append_sections (Text.lines source),
    applies_ignored_append ignored, hsteps]
  exact (runSteps_eq_ok_iff files s (fun _ => Steps.isMarker_head)
    (fun _ => Steps.parse_section)).symm

/-- The steps of a fixture all succeed exactly when the fixture is a script that builds. The build
then leaves the table of the last step and counts what the steps count together. -/
theorem runSteps_eq_build {source : String} {steps : Steps}
    (parsed : Steps.parse source = .ok steps)
    (ignored : ∀ text ∈ Steps.preamble (Text.lines source), (classify text).isIgnored = true) :
    let ran := runSteps files s steps .empty
    let whole (script : Script) := build script MountTable.empty (FileLoader.ofSettings files s)
    ((∀ result ∈ ran.1, result.isOk) ↔
        ∃ script, Script.parse source = .ok script ∧ (whole script).result.isOk) ∧
      ∀ script summary, Script.parse source = .ok script → (whole script).result = .ok summary →
        ran.2 = (whole script).space ∧
          ∃ summaries : List Summary, ran.1 = summaries.map .ok ∧
            summary.applied = (summaries.map Summary.applied).sum ∧
            summary.included = (summaries.map Summary.included).sum := by
  intro ran whole
  have hwhole {script : Script} {summary : Summary} (hscript : Script.parse source = .ok script)
      (hresult : (whole script).result = .ok summary) :
      ∃ summaries, ran = (summaries.map .ok, (whole script).space) ∧
        .total summaries = summary.tally := by
    have hstep := (runStep_eq_ok_iff files s).mpr ⟨script, hscript, hresult, rfl⟩
    exact (exists_runStep_iff_runSteps files s parsed ignored).mp ⟨summary, hstep, rfl⟩
  constructor
  · rw [← exists_map_ok_iff]
    constructor
    · rintro ⟨summaries, hresults⟩
      have hran : ran = (summaries.map .ok, ran.2) := Prod.ext hresults.symm rfl
      obtain ⟨summary, hstep, -⟩ :=
        (exists_runStep_iff_runSteps files s parsed ignored).mpr ⟨summaries, hran, rfl⟩
      obtain ⟨script, hscript, hresult, -⟩ := (runStep_eq_ok_iff files s).mp hstep
      exact ⟨script, hscript, by rw [hresult]; rfl⟩
    · rintro ⟨script, hscript, hok⟩
      cases hresult : (whole script).result with
      | error e =>
        rw [hresult] at hok
        cases hok
      | ok summary =>
        obtain ⟨summaries, hran, -⟩ := hwhole hscript hresult
        exact ⟨summaries, by rw [hran]⟩
  · intro script summary hscript hresult
    obtain ⟨summaries, hran, htotal⟩ := hwhole hscript hresult
    obtain ⟨happlied, hincluded⟩ := Tally.mk.inj htotal.symm
    exact ⟨by rw [hran], summaries, by rw [hran], happlied, hincluded⟩

theorem runSteps_eq_build_returns :
    let source := "# two steps\r\n\r\n  of one\r\n#-- root\r\nbind /386/bin /bin\r\n. rc\r\n" ++
      "#--home\ncd /usr/glenda\nbind -b bin/rc /bin\r"
    let steps : Steps := [⟨"root", "bind /386/bin /bin\n. rc\n"⟩,
      ⟨"home", "cd /usr/glenda\nbind -b bin/rc /bin\r\n"⟩]
    let files : FileSystem := ⟨.ok, fun _ => .ok [.bytes "bind -a /rc/bin /bin".toUTF8.data.toList]⟩
    let script : Script := [⟨.splice, .replace, ["/386/bin", "/bin"], 5⟩,
      ⟨.includeScript, .replace, ["rc"], 6⟩, ⟨.changeDir, .replace, ["/usr/glenda"], 8⟩,
      ⟨.splice, .ofLetters ['b'], ["bin/rc", "/bin"], 9⟩]
    let ran := runSteps files Settings.standard steps .empty
    let whole := build script MountTable.empty (FileLoader.ofSettings files Settings.standard)
    Steps.parse source = .ok steps ∧
      (∀ text ∈ Steps.preamble (Text.lines source), (classify text).isIgnored = true) ∧
      Script.parse source = .ok script ∧ whole.result = .ok ⟨5, 1, false⟩ ∧
      (∀ result ∈ ran.1, result.isOk) ∧ ran.2 = whole.space := by
  intro source steps files script ran whole
  have parsed : Steps.parse source = .ok steps := by decide +kernel
  have ignored : ∀ text ∈ Steps.preamble (Text.lines source), (classify text).isIgnored = true := by
    decide +kernel
  have hscript : Script.parse source = .ok script := by decide +kernel
  have hresult : whole.result = .ok ⟨5, 1, false⟩ := by decide +kernel
  obtain ⟨hok, hwhole⟩ := runSteps_eq_build files Settings.standard parsed ignored
  have hran := hok.mpr ⟨script, hscript, congrArg Except.isOk hresult⟩
  exact ⟨parsed, ignored, hscript, hresult, hran, (hwhole script _ hscript hresult).1⟩

end Scenario

end MountScript
