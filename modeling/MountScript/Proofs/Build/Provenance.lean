import Mathlib.Control.Monad.Basic
import MountScript.Proofs.Build.Composition
import MountScript.Proofs.Build.Nesting

/-!
# Where an error comes from

The error of a build leads to the operation that failed. Each of its nested levels names an include
in the script that was open there, and the script that the loader gave for it is the one that the
next level is about. At the last level stands an operation with a wrong number of operands, a call
that was refused, or an include that the loader refused. All operations before it, in each of the
open scripts, were applied.
-/

namespace MountScript

def BuildError.nest (levels : List (Site × String)) (inner : BuildError) : BuildError :=
  levels.foldr (fun level e => nested level.1 level.2 e) inner

section Stops

variable {σ ℓ : Type} [NameSpace σ] [BoundedLoader ℓ]

/-- A replay comes to `op`, which is the next operation of the innermost open script, when the name
space is `last` and the loader is `left`. The levels are the includes that lead there. -/
inductive StopsAt : Script → σ → ℓ → List (Site × String) → Site → Operation → σ → ℓ → Prop
  | here {script : Script} {space last : σ} {loader left : ℓ} {site : Site} {op : Operation}
      {tally : Tally} (found : script[site.index]? = some op) (line : op.line = site.line)
      (done : replay 0 (script.take site.index) space loader = ⟨.ok tally, last, left⟩) :
      StopsAt script space loader [] site op last left
  | inside {script next : Script} {space mid last : σ} {loader between entered left : ℓ}
      {level site : Site} {path : String} {levels : List (Site × String)} {named op : Operation}
      {tally : Tally} (found : script[level.index]? = some named) (line : named.line = level.line)
      (action : named.action = .includeScript) (operands : named.operands = [path])
      (done : replay 0 (script.take level.index) space loader = ⟨.ok tally, mid, between⟩)
      (answer : Loader.enter path between = (.ok next, entered))
      (stops : StopsAt next mid entered levels site op last left) :
      StopsAt script space loader ((level, path) :: levels) site op last left

/-- What is wrong with an operation that fails by itself, and the name space after it. -/
inductive Faults (site : Site) (op : Operation) (space : σ) (loader : ℓ) : BuildError → σ → Prop
  | arity (count : ¬op.action.arity.admits op.operands.length) :
      Faults site op space loader (.arity site op.action op.operands.length) space
  | apply {call : Call} {refusal : Refusal} {after : σ} (asks : op.request? = some (.call call))
      (answer : NameSpace.perform call space = (.error refusal, after)) :
      Faults site op space loader (.apply site op.action refusal) after
  | inclusion {path : String} {cause : IncludeError} {left : ℓ}
      (action : op.action = .includeScript) (operands : op.operands = [path])
      (answer : Loader.enter path loader = (.error cause, left)) :
      Faults site op space loader (.inclusion site path cause) space

theorem replay_split {index : Nat} {script : Script} {space after : σ} {loader left : ℓ}
    {e : BuildError} (h : replay index script space loader = ⟨.error e, after, left⟩) :
    ∃ before op rest tally mid between, script = before ++ op :: rest ∧
      replay index before space loader = ⟨.ok tally, mid, between⟩ ∧
      replayOne (index + before.length) op mid between = ⟨.error e, after, left⟩ := by
  induction script generalizing index space loader with
  | nil => simp at h
  | cons op ops ih =>
    rw [replay_cons] at h
    rcases hop : replayOne index op space loader with ⟨_ | tally, mid, between⟩
    · rw [hop] at h
      exact ⟨[], op, ops, .zero, space, loader, rfl, rfl, hop.trans h⟩
    · rw [hop] at h
      rcases hrest : replay (index + 1) ops mid between with ⟨inner | _, _, _⟩
      · dsimp only at h
        rw [hrest] at h
        obtain ⟨before, next, rest, more, last, kept, rfl, hbefore, hnext⟩ :=
          ih (hrest.trans h)
        refine ⟨op :: before, next, rest, tally.add more, last, kept, rfl, ?_, ?_⟩
        · rw [replay_cons, hop]
          dsimp only
          rw [hbefore]
          rfl
        · rw [List.length_cons, Nat.add_comm before.length, ← Nat.add_assoc]
          exact hnext
      · dsimp only at h
        rw [hrest] at h
        simp [Outcome.map, Except.map] at h

theorem replayOne_stops {index : Nat} {op : Operation} {space after : σ} {loader left : ℓ}
    {e : BuildError} (h : replayOne index op space loader = ⟨.error e, after, left⟩) :
    Faults ⟨index, op.line⟩ op space loader e after ∨
      ∃ path script entered inner kept, op.action = .includeScript ∧ op.operands = [path] ∧
        Loader.enter path loader = (.ok script, entered) ∧
        replay 0 script space entered = ⟨.error inner, after, kept⟩ ∧
        e = .nested ⟨index, op.line⟩ path inner := by
  rw [replayOne] at h
  cases asks : op.request? with
  | none =>
    rw [asks] at h
    obtain ⟨rfl, rfl, -⟩ : _ ∧ _ ∧ _ := by simpa using h
    exact .inl (.arity (Operation.request?_eq_none_iff.mp asks))
  | some request =>
    rw [asks] at h
    cases request with
    | call call =>
      rcases answer : NameSpace.perform call space with ⟨refusal | _, kept⟩
      · simp only [applyCall, answer] at h
        obtain ⟨rfl, rfl, -⟩ : _ ∧ _ ∧ _ := by simpa using h
        rw [Operation.action_of_request? asks]
        exact .inl (.apply asks answer)
      · simp [applyCall, answer] at h
    | includeScript path =>
      obtain ⟨action, operands⟩ := Operation.request?_eq_includeScript_iff.mp asks
      rcases answer : Loader.enter path loader with ⟨cause | script, entered⟩
      · simp only [answer] at h
        obtain ⟨rfl, rfl, -⟩ : _ ∧ _ ∧ _ := by simpa using h
        exact .inl (.inclusion action operands answer)
      · simp only [answer] at h
        rcases hinside : replay 0 script space entered with ⟨inner | _, kept, last⟩
        · rw [hinside] at h
          obtain ⟨rfl, rfl, -⟩ : _ ∧ _ ∧ _ := by simpa [closeInclude] using h
          exact .inr ⟨path, script, entered, inner, last, action, operands, answer, hinside, rfl⟩
        · rw [hinside] at h
          simp [closeInclude] at h

theorem replay_stops {e : BuildError} {script : Script} {space after : σ} {loader left : ℓ}
    (h : replay 0 script space loader = ⟨.error e, after, left⟩) :
    ∃ site op tally mid between, script[site.index]? = some op ∧ op.line = site.line ∧
      replay 0 (script.take site.index) space loader = ⟨.ok tally, mid, between⟩ ∧
      (Faults site op mid between e after ∨
        ∃ path next entered inner kept, op.action = .includeScript ∧ op.operands = [path] ∧
          Loader.enter path between = (.ok next, entered) ∧
          replay 0 next mid entered = ⟨.error inner, after, kept⟩ ∧
          e = .nested site path inner) := by
  obtain ⟨before, op, rest, tally, mid, between, rfl, done, stops⟩ := replay_split h
  rw [Nat.zero_add] at stops
  exact ⟨⟨before.length, op.line⟩, op, tally, mid, between, by simp, rfl, by simpa using done,
    replayOne_stops stops⟩

theorem exists_stopsAt {e : BuildError} {script : Script} {space after : σ} {loader left : ℓ}
    (h : replay 0 script space loader = ⟨.error e, after, left⟩) :
    ∃ levels site op last kept fault, StopsAt script space loader levels site op last kept ∧
      e = .nest levels fault ∧ Faults site op last kept fault after := by
  -- The scripts on the way down are not parts of each other; the levels of the error are.
  induction e generalizing script space loader left with
  | nested level path inner ih =>
    obtain ⟨site, named, tally, mid, between, found, line, done, faults | inside⟩ := replay_stops h
    · nomatch faults
    · obtain ⟨path, next, entered, inner, kept, action, operands, answer, hinside, he⟩ := inside
      obtain ⟨rfl, rfl, rfl⟩ := BuildError.nested.inj he
      obtain ⟨levels, last, op, final, kept, fault, stops, rfl, faults⟩ := ih hinside
      exact ⟨_ :: levels, last, op, final, kept, fault,
        .inside found line action operands done answer stops, rfl, faults⟩
  | _ =>
    obtain ⟨site, op, tally, mid, between, found, line, done, faults | inside⟩ := replay_stops h
    · exact ⟨[], site, op, mid, between, _, .here found line done, rfl, faults⟩
    · obtain ⟨_, _, _, _, _, _, _, _, _, he⟩ := inside
      nomatch he

theorem replay_of_take {script : Script} {index : Nat} {op : Operation} {space mid after : σ}
    {loader between left : ℓ} {tally : Tally} {e : BuildError} (found : script[index]? = some op)
    (done : replay 0 (script.take index) space loader = ⟨.ok tally, mid, between⟩)
    (stops : replayOne index op mid between = ⟨.error e, after, left⟩) :
    replay 0 script space loader = ⟨.error e, after, left⟩ := by
  obtain ⟨hlt, hop⟩ := List.getElem?_eq_some_iff.mp found
  have hsplit : script = script.take index ++ op :: script.drop (index + 1) := by
    rw [← hop, List.getElem_cons_drop, List.take_append_drop]
  have hlength : 0 + (script.take index).length = index := by
    rw [List.length_take]
    omega
  rw [hsplit, replay_append, done]
  dsimp only
  rw [hlength, replay_cons, stops]
  rfl

theorem Faults.replayOne_eq {site : Site} {op : Operation} {space after : σ} {loader : ℓ}
    {fault : BuildError} (h : Faults site op space loader fault after) (line : op.line = site.line) :
    ∃ left, replayOne site.index op space loader = ⟨.error fault, after, left⟩ := by
  obtain ⟨index, _⟩ := site
  obtain rfl : op.line = _ := line
  cases h with
  | arity count => exact ⟨loader, by simp [replayOne, Operation.request?_eq_none_iff.mpr count]⟩
  | apply asks answer =>
    exact ⟨loader, by simp [replayOne, asks, applyCall, answer, Operation.action_of_request? asks]⟩
  | @inclusion path cause left action operands answer =>
    have asks := Operation.request?_eq_includeScript_iff.mpr ⟨action, operands⟩
    exact ⟨left, by simp [replayOne, asks, answer]⟩

theorem StopsAt.replay_eq {script : Script} {space last after : σ} {loader left : ℓ}
    {levels : List (Site × String)} {site : Site} {op : Operation} {fault : BuildError}
    (h : StopsAt script space loader levels site op last left)
    (faults : Faults site op last left fault after) :
    ∃ kept, replay 0 script space loader = ⟨.error (.nest levels fault), after, kept⟩ := by
  induction h with
  | here found line done =>
    obtain ⟨kept, stops⟩ := faults.replayOne_eq line
    exact ⟨kept, replay_of_take found done stops⟩
  | @inside script next space mid last loader between entered left level site path levels named op
      tally found line action operands done answer _ ih =>
    obtain ⟨kept, inner⟩ := ih faults
    have asks := Operation.request?_eq_includeScript_iff.mpr ⟨action, operands⟩
    have stops : replayOne level.index named mid between =
        ⟨.error (.nested level path (.nest levels fault)), after, Loader.leave path kept⟩ := by
      simp [replayOne, asks, answer, closeInclude, inner, line]
    exact ⟨_, replay_of_take found done stops⟩

theorem StopsAt.length_levels_le {script : Script} {space last : σ} {loader left : ℓ}
    {levels : List (Site × String)} {site : Site} {op : Operation}
    (h : StopsAt script space loader levels site op last left) :
    levels.length ≤ BoundedLoader.room loader := by
  induction h with
  | here => exact Nat.zero_le _
  | @inside script next space mid last loader between entered left level _ path _ _ _ tally _ _ _ _
      done answer _ ih =>
    have hbefore := room_replay 0 (script.take level.index) space loader
    rw [done] at hbefore
    have hentered : BoundedLoader.room entered < BoundedLoader.room between := by
      simpa [answer] using BoundedLoader.room_enter_ok (congrArg Prod.fst answer)
    rw [List.length_cons]
    exact Nat.le_trans (Nat.succ_le_of_lt (Nat.lt_of_le_of_lt ih hentered)) hbefore

theorem StopsAt.openAfter_visits {script : Script} {space last : σ} {loader left : ObservedLoader ℓ}
    {levels : List (Site × String)} {site : Site} {op : Operation}
    (h : StopsAt script space loader levels site op last left) {opened : List String}
    (hopened : openAfter [] loader.visits = some opened) :
    openAfter [] left.visits = some ((levels.map Prod.snd).reverse ++ opened) := by
  induction h generalizing opened with
  | @here script space _ loader _ site _ _ _ _ done =>
    have hdone := openAfter_replay 0 (script.take site.index) space hopened
    rw [done] at hdone
    exact hdone
  | @inside script next space mid last loader between entered left level _ path _ _ _ tally _ _ _ _
      done answer _ ih =>
    have hdone := openAfter_replay 0 (script.take level.index) space hopened
    rw [done] at hdone
    have hentered : openAfter [] entered.visits = some (path :: opened) := by
      rw [(enter_observed_iff.mp answer).2, openAfter_append_of_eq hdone]
      rfl
    simpa using ih hentered

end Stops

namespace BuildError

theorem innermost_nest (levels : List (Site × String)) (inner : BuildError) :
    (nest levels inner).innermost = inner.innermost := by
  induction levels with
  | nil => rfl
  | cons level levels ih => exact ih

theorem action?_nest (levels : List (Site × String)) (inner : BuildError) :
    (nest levels inner).action? = inner.action? := by
  induction levels with
  | nil => rfl
  | cons level levels ih => exact ih

theorem site?_nest {levels : List (Site × String)} {inner : BuildError} {site : Site}
    (h : inner.site? = some site) :
    (nest levels inner).site? = (levels.map Prod.fst ++ [site]).head? := by
  cases levels with
  | nil => exact h
  | cons level levels => rfl

theorem nest_injective {first second : List (Site × String)} {e f : BuildError}
    (he : ∀ site path inner, e ≠ nested site path inner)
    (hf : ∀ site path inner, f ≠ nested site path inner) (h : nest first e = nest second f) :
    first = second ∧ e = f := by
  induction first generalizing second with
  | nil =>
    cases second with
    | nil => exact ⟨rfl, h⟩
    | cons level second => exact absurd h (he _ _ _)
  | cons level first ih =>
    cases second with
    | nil => exact absurd h.symm (hf _ _ _)
    | cons other second =>
      obtain ⟨hsite, hpath, hinner⟩ := nested.inj h
      obtain ⟨rfl, rfl⟩ := ih hinner
      exact ⟨by rw [Prod.ext hsite hpath], rfl⟩

end BuildError

section Build

variable {σ ℓ : Type} [NameSpace σ] [BoundedLoader ℓ]

theorem Faults.action_site {site : Site} {op : Operation} {space after : σ} {loader : ℓ}
    {fault : BuildError} (h : Faults site op space loader fault after) :
    fault.action? = some op.action ∧ fault.site? = some site := by
  cases h with
  | arity | apply => exact ⟨rfl, rfl⟩
  | inclusion action => exact ⟨by rw [action]; rfl, rfl⟩

theorem Faults.innermost_eq {σ : Type} [NameSpace σ] {site : Site} {op : Operation}
    {space after : σ} {loader : ℓ} {fault : BuildError} (h : Faults site op space loader fault after) :
    fault.innermost = fault := by
  cases h <;> rfl

theorem Faults.calls_eq {site : Site} {op : Operation} {space after : ObservedSpace σ} {loader : ℓ}
    {fault : BuildError} (h : Faults site op space loader fault after) :
    after.calls = space.calls ++ op.call?.toList := by
  cases h with
  | arity count => simp [Operation.call?, Operation.request?_eq_none_iff.mpr count]
  | apply asks answer =>
    rw [(perform_observed_iff.mp answer).2]
    simp [Operation.call?, asks]
  | inclusion action operands =>
    have asks := Operation.request?_eq_includeScript_iff.mpr ⟨action, operands⟩
    simp [Operation.call?, asks]

theorem replay_of_build {script : Script} {space : σ} {loader : ℓ} {e : BuildError}
    (h : (build script space loader).result = .error e) :
    ∃ left, replay 0 script space loader = ⟨.error e, (build script space loader).space, left⟩ := by
  rw [build, Outcome.result_map_eq_error_iff] at h
  exact ⟨_, Outcome.eq_of_result h⟩

/-- The error of a build that failed is nested as deep as scripts were open when it failed. Its
levels lead to the operation that failed; the innermost one says what is wrong with that operation,
and the name space with all the calls made is as that operation left it. -/
theorem build_error_provenance {script : Script} {space : σ} {loader : ℓ} {e : BuildError}
    (h : (build script space loader).result = .error e) :
    ∃ levels site op last left fault outer,
      StopsAt script (ObservedSpace.mk space []) (ObservedLoader.mk loader []) levels site op last
        left ∧
      e = .nest levels fault ∧
      Faults site op last left fault (BuildMode.asFound.observe script space loader).space ∧
      BuildMode.asFound.calls script space loader = last.calls ++ op.call?.toList ∧
      e.action? = some op.action ∧
      (levels.map Prod.fst ++ [site]).head? = some outer ∧ e.index? = some outer.index ∧
      e.line? = some outer.line ∧
      openAfter [] left.visits = some (levels.map Prod.snd).reverse ∧
      levels.length ≤ BoundedLoader.room loader := by
  -- All is said of the watched build, whose log tells which calls had been made before.
  have hobserved : (build script (ObservedSpace.mk space []) (ObservedLoader.mk loader [])).result =
      .error e :=
    (congrArg Outcome.result (BuildMode.asFound.unobserved_observe script space loader)).trans h
  obtain ⟨kept, hrun⟩ := replay_of_build hobserved
  obtain ⟨levels, site, op, last, left, fault, stops, rfl, faults⟩ := exists_stopsAt hrun
  obtain ⟨haction, hsite⟩ := faults.action_site
  obtain ⟨outer, houter⟩ : ∃ outer, (levels.map Prod.fst ++ [site]).head? = some outer := by
    cases levels <;> simp
  have hplace := (BuildError.site?_nest hsite).trans houter
  have hopen : openAfter [] left.visits = some ((levels.map Prod.snd).reverse ++ []) :=
    stops.openAfter_visits rfl
  exact ⟨levels, site, op, last, left, fault, outer, stops, rfl, faults,
    faults.calls_eq, (BuildError.action?_nest levels fault).trans haction, houter,
    BuildError.index?_of_site? hplace, BuildError.line?_of_site? hplace, by simpa using hopen,
    stops.length_levels_le⟩

end Build

theorem build_error_provenance_deep :
    let script : Script := [⟨.changeDir, .replace, ["/n"], 1⟩, ⟨.includeScript, .replace, ["a"], 4⟩]
    let loader := Catalogue.start
      [("a", .text "# base\nbind x y\n. b"), ("b", .text "mount #s")] 8
    let e : BuildError := .nested ⟨1, 4⟩ "a" (.nested ⟨1, 3⟩ "b" (.arity ⟨0, 1⟩ .mount 1))
    (build script MountTable.empty loader).result = .error e ∧
      ∃ levels site op last left fault outer,
        StopsAt script (ObservedSpace.mk MountTable.empty []) (ObservedLoader.mk loader []) levels
          site op last left ∧
        e = .nest levels fault ∧
        Faults site op last left fault
          (BuildMode.asFound.observe script MountTable.empty loader).space ∧
        BuildMode.asFound.calls script MountTable.empty loader = last.calls ++ op.call?.toList ∧
        e.action? = some op.action ∧
        (levels.map Prod.fst ++ [site]).head? = some outer ∧ e.index? = some outer.index ∧
        e.line? = some outer.line ∧
        openAfter [] left.visits = some (levels.map Prod.snd).reverse ∧
        levels.length ≤ BoundedLoader.room loader := by
  intro script loader e
  have failed : (build script MountTable.empty loader).result = .error e := by decide +kernel
  exact ⟨failed, build_error_provenance failed⟩

end MountScript
