import MountScript.Proofs.Build.Nesting
import MountScript.Proofs.Build.Trial
import MountScript.Proofs.File.IncludeGraph
import MountScript.Proofs.File.OpenFiles

/-!
# Which includes are accepted

A loader of files only knows which files are open. What it accepts is nevertheless told by the graph
of all includes: a build from files is refused an include exactly if a chain of includes that starts
at the top-level file comes back to a file or is too long.
-/

namespace MountScript

namespace IncludeGraph

section Chains

variable (g : IncludeGraph)

inductive Breaks : IncludeError → List (Option String) → Prop
  | cycle {file : String} {chain : List (Option String)} (again : some file ∈ g.root :: chain) :
      Breaks (.cycle file) (chain ++ [some file])
  | depth {chain : List (Option String)} (long : g.settings.maxIncludeDepth < chain.length) :
      Breaks (.depthExceeded g.settings.maxIncludeDepth) chain

structure Fits (chain : List (Option String)) : Prop where
  nodup : (g.root :: chain).Nodup
  within : chain.length ≤ g.settings.maxIncludeDepth

def Refused (e : BuildError) : Prop :=
  ∃ site path cause chain, e.innermost = .inclusion site path cause ∧ g.IncludeChain chain ∧
    g.Breaks cause chain

variable {g}

theorem fits_iff : (∀ chain, g.IncludeChain chain → g.Fits chain) ↔ g.Acyclic ∧ g.WithinLimit := by
  rw [Acyclic, Reaches, acyclic_iff_nodup]
  constructor
  · intro fits
    exact ⟨fun chain h => (fits chain h).nodup, fun chain h => (fits chain h).within⟩
  · intro accepted chain h
    obtain ⟨nodup, within⟩ := accepted
    exact ⟨nodup chain h, within chain h⟩

theorem Breaks.not_fits {cause : IncludeError} {chain : List (Option String)}
    (h : g.Breaks cause chain) : ¬g.Fits chain := by
  intro fits
  cases h with
  | cycle again =>
    have hnodup := fits.nodup
    rw [← List.cons_append] at hnodup
    exact List.disjoint_of_nodup_append hnodup again (List.mem_singleton_self _)
  | depth long => exact absurd fits.within (Nat.not_le.mpr long)

variable (g) in
def loader (stack : List String) : FileLoader :=
  ⟨g.files, g.settings.baseDir, g.settings.maxIncludeDepth, g.root, stack⟩

variable (g) in
def current : List String → Option String
  | [] => g.root
  | file :: _ => some file

def chainOf (stack : List String) : List (Option String) := (stack.map some).reverse

@[simp] theorem chainOf_cons (file : String) (stack : List String) :
    chainOf (file :: stack) = chainOf stack ++ [some file] := by
  simp [chainOf]

@[simp] theorem length_chainOf (stack : List String) : (chainOf stack).length = stack.length := by
  simp [chainOf]

theorem mem_chainOf {file : String} {stack : List String} :
    some file ∈ chainOf stack ↔ file ∈ stack := by
  simp [chainOf]

theorem getLast?_chainOf (stack : List String) :
    (g.root :: chainOf stack).getLast? = some (g.current stack) := by
  cases stack with
  | nil => rfl
  | cons file stack =>
    rw [chainOf_cons, ← List.cons_append]
    exact List.getLast?_concat

theorem script?_root : g.script? g.root = (g.files.parseFile g.path).toOption := if_pos rfl

variable {stack : List String} {ops script : Script} {file operand : String}

theorem parseFile_of_script? (hscript : g.script? (some file) = some script)
    (hroot : g.root ≠ some file) : g.files.parseFile file = .ok script := by
  rwa [script?, if_neg (Ne.symm hroot), Option.bind_some, toOption_eq_some_iff] at hscript

theorem holds_iff : (g.loader stack).Holds file ↔ some file ∈ g.root :: chainOf stack := by
  rw [List.mem_cons, mem_chainOf, eq_comm]
  rfl

theorem breaks_of_enter_error (htarget : g.target operand = .ok file)
    (hscript : g.script? (some file) = some script) {cause : IncludeError} {left : FileLoader}
    (h : Loader.enter operand (g.loader stack) = (.error cause, left)) :
    g.Breaks cause (chainOf (file :: stack)) := by
  have readable (free : ¬(g.loader stack).Holds file) :
      ∃ events, g.files.reads file = .ok events ∧ Script.parseStream events = .ok script :=
    FileSystem.parseFile_eq_ok_iff.mp (parseFile_of_script? hscript fun top => free (.inl top))
  rw [chainOf_cons]
  cases FileLoader.enter_eq_error_iff.mp (congrArg Prod.fst h) with
  | unknown lost => nomatch lost.symm.trans htarget
  | cycle found held =>
    obtain rfl := Except.ok.inj (found.symm.trans htarget)
    exact .cycle (holds_iff.mp held)
  | full _ _ full =>
    refine .depth ?_
    rw [List.length_append, length_chainOf]
    exact Nat.lt_succ_of_le full
  | unreadable found free _ lost =>
    obtain rfl := Except.ok.inj (found.symm.trans htarget)
    obtain ⟨events, opened, -⟩ := readable free
    nomatch lost.symm.trans opened
  | malformed found free _ opened bad =>
    obtain rfl := Except.ok.inj (found.symm.trans htarget)
    obtain ⟨events, again, parsed⟩ := readable free
    obtain rfl := Except.ok.inj (opened.symm.trans again)
    nomatch bad.symm.trans parsed

theorem opened_of_enter_ok (htarget : g.target operand = .ok file)
    (hscript : g.script? (some file) = some script) {found : Script} {entered : FileLoader}
    (fits : g.Fits (chainOf stack))
    (h : Loader.enter operand (g.loader stack) = (.ok found, entered)) :
    found = script ∧ entered = g.loader (file :: stack) ∧ g.Fits (chainOf (file :: stack)) := by
  obtain ⟨other, opens, rfl⟩ := FileLoader.exists_opens_of_enter h
  obtain rfl := Except.ok.inj (opens.found.symm.trans htarget)
  have parsed := parseFile_of_script? hscript fun top => opens.free (.inl top)
  have hfresh := mt holds_iff.mpr opens.free
  refine ⟨Except.ok.inj (opens.parsed.symm.trans parsed), rfl, ?_, ?_⟩
  · rw [chainOf_cons, ← List.cons_append]
    exact fits.nodup.append (List.nodup_singleton _) (by simpa using hfresh)
  · rw [length_chainOf]
    exact opens.room

variable (g) in
structure Stage (stack : List String) (ops : Script) : Prop where
  chain : g.IncludeChain (chainOf stack)
  fits : g.Fits (chainOf stack)
  script : ∃ script, g.script? (g.current stack) = some script ∧ ops ⊆ script

variable (g) in
def FitsFrom (stack : List String) : Prop :=
  ∀ chain, g.IncludeChain chain → chainOf stack <+: chain → g.Fits chain

namespace Stage

variable {op : Operation}

theorem start (h : g.script? g.root = some script) : g.Stage [] script where
  chain := .singleton _
  fits := ⟨List.nodup_singleton _, Nat.zero_le _⟩
  script := ⟨script, h, List.Subset.refl _⟩

theorem tail (h : g.Stage stack (op :: ops)) : g.Stage stack ops where
  chain := h.chain
  fits := h.fits
  script := by
    obtain ⟨script, hscript, hops⟩ := h.script
    exact ⟨script, hscript, fun _ hop => hops (List.mem_cons_of_mem _ hop)⟩

theorem reaches (h : g.Stage stack ops) : g.Reaches (g.current stack) := by
  refine List.relationReflTransGen_of_exists_isChain_cons _ h.chain ?_
  have hlast := getLast?_chainOf (g := g) stack
  rwa [List.getLast?_eq_some_getLast (List.cons_ne_nil _ _), Option.some_inj] at hlast

theorem includes (h : g.Stage stack ops) (named : g.Named ops file) :
    g.Includes (g.current stack) (some file) := by
  obtain ⟨script, hscript, hops⟩ := h.script
  obtain ⟨op, hop, named⟩ := named
  exact ⟨script, file, hscript, ⟨op, hops hop, named⟩, rfl⟩

theorem includeChain (h : g.Stage stack ops) (named : g.Named ops file) :
    g.IncludeChain (chainOf (file :: stack)) := by
  rw [IncludeChain, chainOf_cons, ← List.cons_append]
  exact isChain_append_cons h.chain (getLast?_chainOf stack) (.singleton _) (h.includes named)

theorem exists_target (complete : g.Complete) (h : g.Stage stack (op :: ops))
    (asks : op.request? = some (.includeScript operand)) :
    ∃ file script, g.target operand = .ok file ∧ g.IncludeChain (chainOf (file :: stack)) ∧
      g.script? (some file) = some script := by
  obtain ⟨outer, houter, hops⟩ := h.script
  obtain ⟨action, operands⟩ := Operation.request?_eq_includeScript_iff.mp asks
  have hop : op ∈ outer := hops List.mem_cons_self
  obtain ⟨file, htarget⟩ :=
    complete.found _ outer h.reaches houter op hop operand action operands
  have named : g.Named (op :: ops) file :=
    ⟨op, List.mem_cons_self, operand, action, operands, htarget⟩
  obtain ⟨script, hscript⟩ := complete.parses _ (h.reaches.tail (h.includes named))
  exact ⟨file, script, htarget, h.includeChain named, hscript⟩

theorem enter (complete : g.Complete) (h : g.Stage stack (op :: ops))
    (asks : op.request? = some (.includeScript operand)) {entered : FileLoader}
    (answer : Loader.enter operand (g.loader stack) = (.ok script, entered)) :
    ∃ file, g.target operand = .ok file ∧ entered = g.loader (file :: stack) ∧
      g.script? (some file) = some script ∧ g.Stage (file :: stack) script := by
  obtain ⟨file, found, htarget, hchain, hscript⟩ := h.exists_target complete asks
  obtain ⟨rfl, hentered, fits⟩ := opened_of_enter_ok htarget hscript h.fits answer
  exact ⟨file, htarget, hentered, hscript, hchain, fits, script, hscript, List.Subset.refl _⟩

theorem fitsFrom (h : g.Stage stack script) (hscript : g.script? (g.current stack) = some script)
    (inside : ∀ file, g.Named script file → g.FitsFrom (file :: stack)) : g.FitsFrom stack := by
  intro chain hchain hbegins
  obtain ⟨rest, rfl⟩ := hbegins
  cases rest with
  | nil =>
    rw [List.append_nil]
    exact h.fits
  | cons next rest =>
    have hincludes : g.Includes (g.current stack) next := by
      rw [IncludeChain, ← List.cons_append] at hchain
      exact (List.isChain_append.mp hchain).2.2 _ (getLast?_chainOf stack) next rfl
    obtain ⟨found, file, hfound, named, rfl⟩ := hincludes
    obtain rfl := Option.some.inj (hscript.symm.trans hfound)
    exact inside file named _ hchain ⟨rest, by simp⟩

end Stage

theorem named_cons {op : Operation} (h : g.Named (op :: ops) file) :
    (∃ operand, op.request? = some (.includeScript operand) ∧ g.target operand = .ok file) ∨
      g.Named ops file := by
  obtain ⟨named, hop, operand, action, operands, htarget⟩ := h
  rcases List.mem_cons.mp hop with rfl | hop
  · exact .inl ⟨operand, Operation.request?_eq_includeScript_iff.mpr ⟨action, operands⟩, htarget⟩
  · exact .inr ⟨named, hop, operand, action, operands, htarget⟩

variable (g) in
def Verdict {α : Type} (stack : List String) (ops : Script) : Except BuildError α → Prop
  | .ok _ => ∀ file, g.Named ops file → g.FitsFrom (file :: stack)
  | .error e => g.Refused e

theorem Verdict.map {α β : Type} {result : Except BuildError α} {more : Script} (f : α → β)
    (h : g.Verdict stack ops result)
    (named : ∀ file, g.Named more file → g.Named ops file ∨ g.FitsFrom (file :: stack)) :
    g.Verdict stack more (result.map f) := by
  cases result with
  | error e => exact h
  | ok a => exact fun file hfile => (named file hfile).elim (h file) id

theorem Verdict.refused {α : Type} {result : Except BuildError α} {e : BuildError}
    (h : g.Verdict stack ops result) (he : result = .error e) : g.Refused e := by
  rw [he] at h
  exact h

theorem Verdict.isOk_iff {α : Type} {result : Except BuildError α}
    (h : g.Verdict [] script result) (hscript : g.script? g.root = some script) :
    result.isOk ↔ g.Acyclic ∧ g.WithinLimit := by
  rw [← fits_iff]
  cases result with
  | ok a =>
    have fits := (Stage.start hscript).fitsFrom hscript h
    exact iff_of_true rfl fun chain hchain => fits chain hchain List.nil_prefix
  | error e =>
    obtain ⟨_, _, _, chain, _, hchain, breaks⟩ := h
    exact iff_of_false nofun fun fits => breaks.not_fits (fits chain hchain)

theorem verdict_of_replays (complete : g.Complete) {index : Nat} {r : Recorder}
    {l : FileLoader} {o : Outcome Tally Recorder FileLoader}
    (h : Replays index ops r l o) (hloader : l = g.loader stack)
    (willing : r.failAt = none) (stage : g.Stage stack ops) : g.Verdict stack ops o.result := by
  -- A script that is included is replayed with one more file open, so the stack is not fixed.
  induction h generalizing stack with
  | done => exact fun file named => by simp [Named] at named
  | arity asks =>
    obtain ⟨script, hscript, hops⟩ := stage.script
    have hadmits := complete.arity _ script stage.reaches hscript _ (hops List.mem_cons_self)
    exact absurd hadmits (Operation.request?_eq_none_iff.mp asks)
  | refused _ answer => simp [Recorder.perform_eq, willing] at answer
  | applied asks answer _ ih =>
    obtain rfl := Recorder.eq_of_perform answer
    refine (ih hloader willing stage.tail).map _ fun file named => ?_
    rcases named_cons named with ⟨operand, asks', -⟩ | named
    · simp [asks] at asks'
    · exact .inl named
  | barred asks answer =>
    subst hloader
    obtain ⟨file, script, htarget, hchain, hscript⟩ := stage.exists_target complete asks
    exact ⟨_, _, _, _, rfl, hchain, breaks_of_enter_error htarget hscript answer⟩
  | failed asks answer _ ih =>
    subst hloader
    obtain ⟨file, -, hentered, -, inner⟩ := stage.enter complete asks answer
    exact ih hentered willing inner
  | @included _ op ops _ after _ entered left path _ _ _ asks answer inside _ ihInside ihRest =>
    subst hloader
    obtain ⟨file, htarget, hentered, hscript, inner⟩ := stage.enter complete asks answer
    have hfits : g.FitsFrom (file :: stack) :=
      inner.fitsFrom hscript (ihInside hentered willing inner)
    -- The loader comes back as it was, so the rest is replayed on the same stage.
    obtain rfl : left = entered := inside.fileLoader_eq
    have willing' : after.failAt = none := by
      obtain ⟨made, hafter⟩ := inside.recorded
      exact (congrArg Recorder.failAt hafter).trans willing
    refine (ihRest (FileLoader.leave_of_enter_ok answer) willing' stage.tail).map _
      fun other named => ?_
    rcases named_cons named with ⟨operand, asks', htarget'⟩ | named
    · obtain rfl : path = operand := by simpa using asks.symm.trans asks'
      obtain rfl : file = other := Except.ok.inj (htarget.symm.trans htarget')
      exact .inr hfits
    · exact .inl named

end Chains

end IncludeGraph

def BuildMode.runFile {σ : Type} [NameSpace σ] (mode : BuildMode) :
    FileSystem → Settings → Option String → σ → Except BuildError Summary × σ :=
  match mode with
  | asFound => addToSpace
  | fromScratch => newSpace

theorem BuildMode.runFile_eq {σ : Type} [NameSpace σ] (mode : BuildMode) (files : FileSystem)
    (s : Settings) (file : Option String) (space : σ) :
    mode.runFile files s file space = buildFile mode.run files s file space := by
  cases mode <;> rfl

namespace IncludeGraph

section Build

variable {σ : Type} [NameSpace σ]

def build (g : IncludeGraph) (mode : BuildMode) (space : σ) : Except BuildError Summary × σ :=
  mode.runFile g.files g.settings g.file space

def calls (g : IncludeGraph) (mode : BuildMode) (space : σ) : List Call :=
  (g.build mode (ObservedSpace.mk space [])).2.calls

theorem build_eq {g : IncludeGraph} {script : Script} (h : g.script? g.root = some script)
    (mode : BuildMode) (space : σ) :
    let o := mode.run script space (g.loader [])
    g.build mode space = (o.result, o.space) := by
  intro o
  have hparse : g.files.parseFile (g.file.getD g.settings.namespaceFile) = .ok script :=
    toOption_eq_some_iff.mp (script?_root.symm.trans h)
  rw [build, BuildMode.runFile_eq, buildFile, hparse]
  rfl

theorem build_follows {g : IncludeGraph} (complete : g.Complete)
    {mode : BuildMode} {space : σ} (accepts : NameSpace.Accepts space (g.calls mode space)) :
    ((g.build mode space).1.isOk ↔ g.Acyclic ∧ g.WithinLimit) ∧
      ∀ e, (g.build mode space).1 = .error e → g.Refused e := by
  obtain ⟨script, hscript⟩ := complete.parses _ .refl
  obtain ⟨held, reset, htrial⟩ := mode.exists_trial script (g.loader [])
  have hreplays := replays_replay 0 script (Recorder.mk held none) (g.loader [])
  have verdict := verdict_of_replays complete hreplays rfl rfl (.start hscript)
  have hresult : (g.build mode space).1 =
      (replay 0 script (Recorder.mk held none) (g.loader [])).result.map
        (Tally.summary · reset) := by
    rw [calls, build_eq hscript, ← BuildMode.calls_eq] at accepts
    rw [build_eq hscript, BuildMode.result_of_accepts accepts, htrial]
    rfl
  have whole : g.Verdict [] script (g.build mode space).1 := by
    rw [hresult]
    exact verdict.map _ fun file named => .inl named
  exact ⟨whole.isOk_iff hscript, fun e he => whole.refused he⟩

/-- If nothing is wrong with the files and the name space refuses no call, a build succeeds exactly
if the includes have no cycle and no chain of them is too long. It fails at an include that closes a
cycle or goes too deep. To repeat an include, or to name its file otherwise, adds nothing to the
graph, and what adds nothing is accepted too. -/
theorem build_isOk_iff {g : IncludeGraph} (complete : g.Complete) (mode : BuildMode) (space : σ)
    (accepts : NameSpace.Accepts space (g.calls mode space)) :
    ((g.build mode space).1.isOk ↔ g.Acyclic ∧ g.WithinLimit) ∧
      (∀ e, (g.build mode space).1 = .error e → g.Refused e) ∧
      ∀ other : IncludeGraph, other.Complete → NameSpace.Accepts space (other.calls mode space) →
        other.root = g.root → g.settings.maxIncludeDepth ≤ other.settings.maxIncludeDepth →
        (∀ a b, other.Includes a b → g.Includes a b) →
        (g.build mode space).1.isOk → (other.build mode space).1.isOk := by
  obtain ⟨hok, refused⟩ := build_follows complete accepts
  refine ⟨hok, refused, fun other complete' accepts' root limit includes h => ?_⟩
  exact (build_follows complete' accepts').1.mpr (accepted_mono root limit includes (hok.mp h))

/-- Files at most two includes deep, two of which are included again and under other names. It is
irreducible so that only the kernel runs a build of them. -/
@[irreducible] def diamond : IncludeGraph :=
  let names : List (String × String) := [("/ns/top", "/ns/top"), ("/ns/left", "/ns/left"),
    ("/ns/./left", "/ns/left"), ("/ns/right", "/ns/right"), ("/ns/last", "/ns/last"),
    ("/ns/link", "/ns/last")]
  let texts : List (String × String) := [("/ns/top", ". left\n. ./left\n. right\n. last\n"),
    ("/ns/left", ". last\n. link\n"), ("/ns/right", ". link\n"), ("/ns/last", "cd /\n")]
  { files :=
      { canonical path := (names.lookup path).elim (.error .notFound) .ok
        reads path := (texts.lookup path).elim (.error .notFound) fun text =>
          .ok [.bytes text.toUTF8.data.toList] }
    settings := ⟨"/ns/top", 2, some "/ns"⟩
    file := none }

theorem build_isOk_iff_diamond :
    let space := Recorder.start (some 7)
    diamond.Complete ∧ NameSpace.Accepts space (diamond.calls .fromScratch space) ∧
      (diamond.build .fromScratch space).1 = .ok ⟨15, 9, true⟩ ∧
      diamond.Acyclic ∧ diamond.WithinLimit := by
  intro space
  have complete : diamond.Complete := complete_of_closed
    [some "/ns/top", some "/ns/left", some "/ns/right", some "/ns/last"] (by decide +kernel)
  have hcount : (diamond.calls .fromScratch space).length ≤ 7 := by decide +kernel
  have hresult : (diamond.build .fromScratch space).1 = .ok ⟨15, 9, true⟩ := by decide +kernel
  have accepts := (Recorder.accepts_start_iff (n := 7)).mpr hcount
  obtain ⟨hok, -, -⟩ := build_isOk_iff complete .fromScratch space accepts
  exact ⟨complete, accepts, hresult, hok.mp (by rw [hresult]; rfl)⟩

end Build

end IncludeGraph

end MountScript
