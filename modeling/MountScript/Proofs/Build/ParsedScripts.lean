import MountScript.Proofs.Build.Limit
import MountScript.Proofs.Build.Scratch
import MountScript.Proofs.File.OpenFiles
import MountScript.Proofs.Script.Chunks
import MountScript.Proofs.Script.RoundTrip
import MountScript.Proofs.Space.Refusals

/-!
# Refusals that parsed scripts can meet

An operand that was parsed holds something. So a build of parsed scripts on a mount table is never
refused a call for want of a name. What can be refused is an unmounting of what is not mounted, and
a change of directory into a device.
-/

namespace MountScript

def Script.IsParsed (s : Script) : Prop :=
  (∃ text, Script.parse text = .ok s) ∨ ∃ events, Script.parseStream events = .ok s

theorem printable_of_readLine {line : Nat} {ended : Bool} {bytes : List UInt8}
    {found : Option Operation} (h : readLine line ended bytes = .ok found) :
    Script.Printable found.toList := by
  rw [readLine] at h
  split at h
  · cases h
  · cases found with
    | none => exact List.forall_mem_nil _
    | some op => simpa [Script.Printable] using printable_of_parseLine h

namespace Parser

variable {p q : Parser}

theorem printable_of_feedBytes (hp : p.finish.Printable) {ended : Bool} {bytes : List UInt8}
    (h : p.feedBytes ended bytes = .ok q) : q.finish.Printable := by
  rw [feedBytes_eq] at h
  obtain ⟨found, hread, rfl⟩ := map_eq_ok_iff.mp h
  rw [finish_after]
  exact List.forall_mem_append.mpr ⟨hp, printable_of_readLine hread⟩

theorem printable_of_feedEnded (hp : p.finish.Printable) {segments : List (List UInt8)}
    (h : p.feedEnded segments = .ok q) : q.finish.Printable := by
  induction segments generalizing p with
  | nil =>
    obtain rfl : p = q := Except.ok.inj h
    exact hp
  | cons segment segments ih =>
    rw [feedEnded, List.foldlM_cons] at h
    obtain ⟨middle, hfirst, hrest⟩ := bind_eq_ok_iff.mp h
    exact ih (printable_of_feedBytes hp hfirst) hrest

theorem printable_of_feedReads (hp : p.finish.Printable) {pending : List UInt8}
    {events : List ReadEvent} (h : p.feedReads pending events = .ok q) : q.finish.Printable := by
  induction events generalizing p pending with
  | nil =>
    rw [feedReads] at h
    split_ifs at h
    · exact Except.ok.inj h ▸ hp
    · exact printable_of_feedBytes hp h
  | cons event events ih =>
    cases event with
    | interrupted => exact ih hp h
    | failed cause => cases h
    | bytes chunk =>
      rw [feedReads] at h
      split_ifs at h
      · exact Except.ok.inj h ▸ hp
      · obtain ⟨middle, hline, hrest⟩ := bind_eq_ok_iff.mp h
        exact ih (printable_of_feedBytes hp hline) hrest
      · obtain ⟨middle, hlines, hrest⟩ := bind_eq_ok_iff.mp h
        exact ih (printable_of_feedEnded hp hlines) hrest

end Parser

theorem Script.IsParsed.printable {s : Script} (h : s.IsParsed) : s.Printable := by
  rcases h with ⟨text, h⟩ | ⟨events, h⟩
  · exact printable_of_parse h
  · obtain ⟨p, hread, rfl⟩ := map_eq_ok_iff.mp h
    have hstart : Script.Printable Parser.start.finish := List.forall_mem_nil _
    exact Parser.printable_of_feedReads hstart hread

section Opens

variable {ℓ : Type} [Loader ℓ]

/-- Whatever happens, every script that the loader opens is a parsed one. -/
def OpensParsed (start : ℓ) : Prop :=
  ∀ {opened : List String} {loader entered : ℓ} {path : String} {script : Script},
    Stands start opened loader → Loader.enter path loader = (.ok script, entered) →
      script.IsParsed

theorem Replays.stands {σ : Type} [NameSpace σ] {start loader : ℓ} {opened : List String}
    {index : Nat} {script : Script} {space : σ} {o : Outcome Tally σ ℓ}
    (h : Replays index script space loader o) (stands : Stands start opened loader) :
    Stands start opened o.loader := by
  induction h generalizing opened with
  | done | arity | refused => exact stands
  | applied _ _ _ ih => exact ih stands
  | barred _ answer => exact stands.refused answer
  | failed _ answer _ ih => exact (ih (stands.opened answer)).left
  | included _ answer _ _ inside rest => exact rest (inside (stands.opened answer)).left

end Opens

theorem NoLoader.opensParsed : OpensParsed NoLoader.mk := by
  intro opened l entered path script _ answer
  cases answer

theorem FileLoader.opensParsed (files : FileLoader) : OpensParsed files := by
  intro opened l entered path script _ answer
  obtain ⟨file, opens, -⟩ := exists_opens_of_enter answer
  obtain ⟨events, -, parsed⟩ := FileSystem.parseFile_eq_ok_iff.mp opens.parsed
  exact .inr ⟨events, parsed⟩

theorem Catalogue.opensParsed (c : Catalogue) : OpensParsed c := by
  intro opened l entered path script _ answer
  simp only [Loader.enter, enter] at answer
  split at answer
  · simp at answer
  · next found hlook =>
    obtain ⟨hfound, -⟩ := Prod.mk.inj answer
    obtain rfl : found = script := Except.ok.inj hfound
    simp only [look] at hlook
    split at hlook
    · cases hlook
    · cases hlook
    · cases hlook
    · next text _ =>
      split_ifs at hlook
      cases hparse : Script.parse text with
      | error e => simp [hparse, Except.mapError] at hlook
      | ok parsed =>
        obtain rfl : parsed = found := by simpa [hparse, Except.mapError] using hlook
        exact .inl ⟨text, hparse⟩

section Stops

variable {ℓ : Type} [BoundedLoader ℓ]

theorem StopsAt.printable {σ : Type} [NameSpace σ] {start loader left : ℓ} {opened : List String}
    {script : Script} {space last : σ} {levels : List (Site × String)} {site : Site}
    {op : Operation} (h : StopsAt script space loader levels site op last left)
    (opens : OpensParsed start) (stands : Stands start opened loader) (hs : script.Printable) :
    op.Printable := by
  induction h generalizing opened with
  | here found => exact hs _ (List.mem_of_getElem? found)
  | @inside script _ space _ _ loader _ _ _ level _ _ _ _ _ _ _ _ _ _ done answer _ ih =>
    have between := (replays_replay 0 (script.take level.index) space loader).stands stands
    rw [done] at between
    exact ih (between.opened answer) (opens between answer).printable

end Stops

def Call.subject? : Call → Option String
  | .mount server .. => some server
  | .importTree host .. => some host
  | .changeDir dir => some dir
  | .bind .. | .unmount .. | .clear => none

theorem subject_mem_operands {op : Operation} {call : Call} {name : String}
    (asks : op.request? = some (.call call)) (h : call.subject? = some name) :
    name ∈ op.operands := by
  rw [Operation.request?] at asks
  split at asks <;> simp at asks <;> subst asks <;> simp_all [Call.subject?]

theorem operands_of_request?_changeDir {op : Operation} {dir : String}
    (asks : op.request? = some (.call (.changeDir dir))) : op.operands = [dir] := by
  rw [Operation.request?] at asks
  split at asks <;> simp_all

inductive NamedRefusal (op : Operation) : Refusal → Prop
  | unmount {path : String} (action : op.action = .unmount) : NamedRefusal op (.notMounted path)
  | enterDevice {dir : String} (action : op.action = .changeDir) (operands : op.operands = [dir])
      (device : Path.isDevice dir = true) :
      NamedRefusal op (.invalidSpec (dir ++ ": cannot cd into a device"))

theorem NamedRefusal.ne_blank {op : Operation} {cause : Refusal} (h : NamedRefusal op cause)
    (what : String) : cause ≠ .invalidSpec ("empty " ++ what) := by
  cases h with
  | unmount => nofun
  | @enterDevice dir _ _ device =>
    intro he
    have hhead : dir.toList.head? = some '#' := by simpa [Path.isDevice] using device
    obtain ⟨rest, hdir⟩ := List.head?_eq_some_iff.mp hhead
    have hsame := congrArg String.toList (Refusal.invalidSpec.inj he)
    simp [hdir] at hsame

theorem MountTable.Refuses.named {t : MountTable} {op : Operation} {call : Call} {cause : Refusal}
    (h : t.Refuses call cause) (hop : op.Printable) (asks : op.request? = some (.call call)) :
    NamedRefusal op cause := by
  have haction := Operation.action_of_request? asks
  have hnamed : call.subject? ≠ some "" := fun hs =>
    absurd rfl (hop "" (subject_mem_operands asks hs)).1
  cases h with
  | noServer | noHost | noDirectory => exact absurd rfl hnamed
  | device device =>
    have hname : ∀ dir : String, dir ++ ": cannot " ++ Action.changeDir.keyword ++ " into a device" =
        dir ++ ": cannot cd into a device" := fun dir => by
      rw [String.append_assoc, String.append_assoc]
      rfl
    rw [hname]
    exact .enterDevice haction.symm (operands_of_request?_changeDir asks) device
  | notMounted | notAnswered => exact .unmount haction.symm

theorem MountTable.refuses_of_perform {t after : MountTable} {call : Call} {cause : Refusal}
    (h : NameSpace.perform call t = (.error cause, after)) : t.Refuses call cause :=
  (perform_eq_error_iff.mp h).1

section Build

variable {ℓ : Type} [BoundedLoader ℓ]

theorem BuildMode.exists_stopsAt_of_run {mode : BuildMode} {script : Script} {t : MountTable}
    {loader : ℓ} {e : BuildError} (h : (mode.run script t loader).result = .error e) :
    ∃ levels site op last left fault after,
      StopsAt script (mode.start t) loader levels site op last left ∧ e = .nest levels fault ∧
        Faults site op last left fault after := by
  rw [run_eq_replay, Outcome.result_map_eq_error_iff] at h
  obtain ⟨levels, site, op, last, kept, fault, stops, he, faults⟩ :=
    exists_stopsAt (Outcome.eq_of_result h)
  exact ⟨levels, site, op, last, kept, fault, _, stops, he, faults⟩

/-- If a build of parsed scripts on a mount table fails, the table did not refuse to be cleared; and
if it refused another call, the operation that made it is an unmounting and nothing was mounted, or
it would have entered a device. It has no refusal for want of a server, a host or a directory. Files
hold no other scripts than parsed ones. -/
theorem refusal_of_parsed {script : Script} {loader : ℓ} (parsed : script.IsParsed)
    (opens : OpensParsed loader) (mode : BuildMode) (t : MountTable) :
    (∀ e, (mode.run script t loader).result = .error e →
      (∀ cause, e.innermost ≠ .reset cause) ∧
        ∀ site action cause, e.innermost = .apply site action cause →
          ∃ levels op last left, StopsAt script (mode.start t) loader levels site op last left ∧
            e = .nest levels (.apply site action cause) ∧ action = op.action ∧
            NamedRefusal op cause ∧
            ∀ what ∈ ["server name", "host", "directory"],
              cause ≠ .invalidSpec ("empty " ++ what)) ∧
      OpensParsed NoLoader.mk ∧ ∀ files : FileLoader, OpensParsed files := by
  refine ⟨fun e he => ?_, NoLoader.opensParsed, FileLoader.opensParsed⟩
  obtain ⟨levels, place, op, last, left, fault, after, stops, rfl, faults⟩ :=
    BuildMode.exists_stopsAt_of_run he
  have hop := stops.printable opens .start parsed.printable
  rw [BuildError.innermost_nest, faults.innermost_eq]
  cases faults with
  | arity | inclusion => exact ⟨nofun, nofun⟩
  | @apply call refusal _ asks answer =>
    refine ⟨nofun, fun site action cause hfault => ?_⟩
    obtain ⟨rfl, rfl, rfl⟩ := BuildError.apply.inj hfault
    have named := (MountTable.refuses_of_perform answer).named hop asks
    exact ⟨levels, op, last, left, stops, rfl, rfl, named, fun what _ => named.ne_blank what⟩

end Build

theorem refusal_of_parsed_device :
    let script : Script :=
      [⟨.splice, .replace, ["x", "y"], 1⟩, ⟨.includeScript, .replace, ["a"], 3⟩]
    let loader := Catalogue.start [("a", .text "unmount y\ncd #c/cons")] 1
    let t := NameSpace.performAll MountTable.empty [.changeDir "/n"]
    let cause : Refusal := .invalidSpec "#c/cons: cannot cd into a device"
    let e : BuildError := .nested ⟨1, 3⟩ "a" (.apply ⟨1, 2⟩ .changeDir cause)
    script.IsParsed ∧ OpensParsed loader ∧
      (BuildMode.fromScratch.run script t loader).result = .error e ∧
      ∃ levels op last left,
        StopsAt script MountTable.empty loader levels ⟨1, 2⟩ op last left ∧
          e = .nest levels (.apply ⟨1, 2⟩ .changeDir cause) ∧ .changeDir = op.action ∧
          NamedRefusal op cause ∧
          ∀ what ∈ ["server name", "host", "directory"],
            cause ≠ .invalidSpec ("empty " ++ what) := by
  intro script loader t cause e
  have parsed : script.IsParsed := .inl ⟨"bind x y\n# then\n. a", by decide +kernel⟩
  have failed : (BuildMode.fromScratch.run script t loader).result = .error e := by decide +kernel
  have opens : OpensParsed loader := Catalogue.opensParsed loader
  exact ⟨parsed, opens, failed,
    ((refusal_of_parsed parsed opens .fromScratch t).1 e failed).2 ⟨1, 2⟩ .changeDir cause rfl⟩

end MountScript
