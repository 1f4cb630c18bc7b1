import MountScript.Proofs.Fixture.Sections

/-!
# The scripts of the steps

A fixture has steps exactly if its markers give names and no name twice, and the steps bear these
names in their order. A step is read as the lines after its marker are read in the fixture, with the
lines counted from the marker on. So after the first marker a fixture holds the operations of its
steps, one step after another.
-/

namespace MountScript

open Text (lines)

/-- Scripts one after another, the lines of each counted on from its own start. -/
def Script.joinFrom (starts : List Nat) (scripts : List Script) : Script :=
  (List.zipWith (fun start script => script.map (Operation.shift start)) starts scripts).flatten

namespace Steps

def markerNames (texts : List String) : List String := texts.filterMap markerName?

def markersFrom (line : Nat) : List String → List Nat
  | [] => []
  | text :: texts =>
    if IsMarker text then line :: markersFrom (line + 1) texts else markersFrom (line + 1) texts

/-- Line `m` is a marker that gives this name, and `body` are the lines from there to the next marker
or to the end. -/
def MarkedAt (texts : List String) (m : Nat) (name : String) (body : List String) : Prop :=
  ∃ front head rest, texts = front ++ head :: (body ++ rest) ∧ front.length + 1 = m ∧
    markerName? head = some name ∧ (∀ line ∈ body, ¬IsMarker line) ∧
    ∀ line ∈ rest.head?, IsMarker line

section Names

theorem map_name_sections (texts : List String) :
    (sections texts).map (fun s => s.step.name) = markerNames texts := by
  induction texts with
  | nil => rfl
  | cons text texts ih =>
    rw [sections, markerNames, List.filterMap_cons]
    cases hname : markerName? text with
    | none => rw [if_neg (by simp [IsMarker, hname]), ih, markerNames]
    | some name =>
      have marked : IsMarker text := Option.isSome_of_eq_some hname
      rw [if_pos marked, List.map_cons, ih, markerNames]
      simp [Section.step, hname]

theorem names_of_parse {source : String} {steps : Steps} (h : parse source = .ok steps) :
    steps.names = markerNames (lines source) := by
  obtain ⟨-, rfl, -⟩ := parse_eq_ok_iff.mp h
  rw [names, List.map_map, ← map_name_sections]
  rfl

theorem exists_parse_iff {source : String} :
    (∃ steps, parse source = .ok steps) ↔
      "" ∉ markerNames (lines source) ∧ (markerNames (lines source)).Nodup := by
  have named : (∀ s ∈ sections (lines source), s.step.name ≠ "") ↔
      "" ∉ markerNames (lines source) := by
    rw [← map_name_sections, List.mem_map]
    exact ⟨fun h ⟨s, hs, hempty⟩ => h s hs hempty, fun h s hs hempty => h ⟨s, hs, hempty⟩⟩
  rw [← named]
  constructor
  · rintro ⟨steps, h⟩
    obtain ⟨hnamed, -, hnodup⟩ := parse_eq_ok_iff.mp h
    exact ⟨hnamed, names_of_parse h ▸ hnodup⟩
  · rintro ⟨hnamed, hnodup⟩
    refine ⟨_, parse_eq_ok_iff.mpr ⟨hnamed, rfl, ?_⟩⟩
    rwa [names, List.map_map, Function.comp_def, map_name_sections]

theorem isSome_get?_iff {steps : Steps} {name : String} :
    (steps.get? name).isSome ↔ name ∈ steps.names := by
  simp [get?, names]

theorem get?_of_mem {steps : Steps} (h : steps.names.Nodup) {step : Step} (hstep : step ∈ steps) :
    steps.get? step.name = some step.text := by
  induction steps with
  | nil => simp at hstep
  | cons first steps ih =>
    obtain ⟨hfirst, hsteps⟩ := List.nodup_cons.mp h
    rcases List.mem_cons.mp hstep with rfl | hstep
    · simp [get?]
    · have hne : first.name ≠ step.name := fun heq =>
        hfirst (heq ▸ List.mem_map_of_mem hstep)
      rw [← ih hsteps hstep, get?, get?, List.find?_cons_of_neg (by simpa using hne)]

end Names

section Scripts

theorem preamble_append {body rest : List String} (plain : ∀ line ∈ body, ¬IsMarker line)
    (ends : ∀ line ∈ rest.head?, IsMarker line) : preamble (body ++ rest) = body := by
  have hrest : preamble rest = [] := by
    cases rest with
    | nil => rfl
    | cons line rest => rw [preamble_cons, if_pos (ends line rfl)]
  rw [preamble, List.takeWhile_append_of_pos (by simpa using plain), ← preamble, hrest,
    List.append_nil]

theorem mem_sections_append {front texts : List String} {s : Section} (h : s ∈ sections texts) :
    s ∈ sections (front ++ texts) := by
  induction front with
  | nil => exact h
  | cons line front ih =>
    rw [List.cons_append, sections]
    split_ifs
    · exact List.mem_cons_of_mem _ ih
    · exact ih

theorem MarkedAt.exists_section {texts body : List String} {m : Nat} {name : String}
    (h : MarkedAt texts m name body) :
    ∃ s ∈ sections texts, s.step.name = name ∧ s.body = body := by
  obtain ⟨front, head, rest, rfl, -, hname, plain, ends⟩ := h
  refine ⟨⟨head, body⟩, mem_sections_append ?_, by simp [Section.step, hname], rfl⟩
  have marked : IsMarker head := Option.isSome_of_eq_some hname
  rw [sections, if_pos marked, preamble_append plain ends]
  exact List.mem_cons_self

theorem parse_of_markedAt {source name : String} {steps : Steps} {m : Nat} {body : List String}
    (h : parse source = .ok steps) (marked : MarkedAt (lines source) m name body) :
    ∃ text, steps.get? name = some text ∧
      parseLines (m + 1) body =
        ((Script.parse text).map (List.map (Operation.shift m))).mapError (ParseError.shift m) := by
  obtain ⟨s, hs, rfl, rfl⟩ := marked.exists_section
  obtain ⟨-, rfl, hnodup⟩ := parse_eq_ok_iff.mp h
  refine ⟨s.step.text, get?_of_mem hnodup (List.mem_map_of_mem hs), ?_⟩
  rw [parse_section hs, Nat.add_comm m, parseLines_shift]

variable {line : Nat} {texts : List String} {script : Script}

theorem le_of_mem_markersFrom {m : Nat} (h : m ∈ markersFrom line texts) :
    line + (preamble texts).length ≤ m := by
  induction texts generalizing line with
  | nil => simp [markersFrom] at h
  | cons text texts ih =>
    rw [markersFrom] at h
    rw [preamble_cons]
    split_ifs at h ⊢ with marked
    · rcases List.mem_cons.mp h with rfl | h
      · exact Nat.le_refl _
      · have hrest := ih h
        simp only [List.length_nil]
        omega
    · have hrest := ih h
      simp only [List.length_cons]
      omega

theorem exists_joinFrom (h : parseLines line texts = .ok script) :
    ∃ before scripts, parseLines line (preamble texts) = .ok before ∧
      (sections texts).map (fun s => parseLines 1 s.body) = scripts.map .ok ∧
      script = before ++ Script.joinFrom (markersFrom line texts) scripts := by
  induction texts generalizing line script with
  | nil =>
    obtain rfl : [] = script := by simpa [parseLines] using h
    exact ⟨[], [], rfl, rfl, rfl⟩
  | cons text texts ih =>
    obtain ⟨found, rest, hfound, hrest, rfl⟩ := parseLines_cons_eq_ok_iff.mp h
    obtain ⟨before, scripts, hbefore, hscripts, rfl⟩ := ih hrest
    rw [preamble_cons, sections, markersFrom]
    split_ifs with marked
    · -- The lines up to the next marker belong to the section that begins here.
      obtain rfl : none = found := by
        simpa [parseLine_of_ignored (ignored_of_isMarker marked)] using hfound
      rw [Nat.add_comm line] at hbefore
      obtain ⟨own, hown, rfl⟩ := parseLines_shift_eq_ok_iff.mp hbefore
      exact ⟨[], own :: scripts, rfl, by simp [hown, hscripts], by simp [Script.joinFrom]⟩
    · exact ⟨found.toList ++ before, scripts,
        parseLines_cons_eq_ok_iff.mpr ⟨found, before, hfound, hbefore, rfl⟩, hscripts,
        (List.append_assoc _ _ _).symm⟩

theorem exists_marker_lt_of_mem_joinFrom {markers : List Nat} {scripts : List Script}
    (positive : ∀ script ∈ scripts, ∀ op ∈ script, 1 ≤ op.line) {op : Operation}
    (h : op ∈ Script.joinFrom markers scripts) : ∃ m ∈ markers, m < op.line := by
  obtain ⟨shifted, hshifted, hop⟩ := List.mem_flatten.mp h
  rw [← List.map_uncurry_zip_eq_zipWith] at hshifted
  obtain ⟨⟨m, script⟩, hpair, rfl⟩ := List.mem_map.mp hshifted
  obtain ⟨hm, hscript⟩ := List.of_mem_zip hpair
  obtain ⟨own, hown, rfl⟩ := List.mem_map.mp hop
  have hline := positive script hscript own hown
  refine ⟨m, hm, ?_⟩
  simp only [Operation.shift]
  omega

theorem exists_scripts_of_parse {source : String} {steps : Steps} (h : parse source = .ok steps)
    (hscript : Script.parse source = .ok script) :
    let markers := markersFrom 1 (lines source)
    ∃ scripts, steps.map (fun step => Script.parse step.text) = scripts.map .ok ∧
      script.filter (fun op => ∃ m ∈ markers, m < op.line) = Script.joinFrom markers scripts := by
  intro markers
  obtain ⟨before, scripts, hbefore, hscripts, rfl⟩ := exists_joinFrom hscript
  obtain ⟨-, rfl, -⟩ := parse_eq_ok_iff.mp h
  refine ⟨scripts, ?_, ?_⟩
  · rw [← hscripts, List.map_map]
    exact List.map_congr_left fun s hs => parse_section hs
  · have early : ∀ op ∈ before, ¬∃ m ∈ markers, m < op.line := by
      rintro op hop ⟨m, hm, hlt⟩
      have hline := (line_of_mem_parseLines hbefore hop).2
      have hmarker := le_of_mem_markersFrom hm
      omega
    have positive : ∀ script ∈ scripts, ∀ op ∈ script, 1 ≤ op.line := by
      intro script hmem op hop
      have hparsed : (Except.ok script : Except ParseError Script) ∈ scripts.map .ok :=
        List.mem_map_of_mem hmem
      rw [← hscripts] at hparsed
      obtain ⟨s, -, hs⟩ := List.mem_map.mp hparsed
      exact (line_of_mem_parseLines hs hop).1
    have late : ∀ op ∈ Script.joinFrom markers scripts, ∃ m ∈ markers, m < op.line :=
      fun op hop => exists_marker_lt_of_mem_joinFrom positive hop
    rw [List.filter_append, List.filter_eq_nil_iff.mpr (by simpa using early),
      List.filter_eq_self.mpr (by simpa using late), List.nil_append]

end Scripts

/-- Cutting a fixture into steps goes together with reading it. There are steps exactly if each
marker gives a name of its own. They have these names, in order and no others. The lines after a
marker are read as the text of its step, with the number of the marker added to each line. If the
whole fixture is a script, then its operations after the first marker are those of the steps. -/
theorem read_in_place (source : String) :
    ((∃ steps, parse source = .ok steps) ↔
      "" ∉ markerNames (lines source) ∧ (markerNames (lines source)).Nodup) ∧
    ∀ steps, parse source = .ok steps →
      steps.names = markerNames (lines source) ∧
      (∀ name, (steps.get? name).isSome ↔ name ∈ markerNames (lines source)) ∧
      (∀ m name body, MarkedAt (lines source) m name body →
        ∃ text, steps.get? name = some text ∧
          parseLines (m + 1) body =
            ((Script.parse text).map (List.map (Operation.shift m))).mapError
              (ParseError.shift m)) ∧
      ∀ script, Script.parse source = .ok script →
        ∃ scripts, steps.map (fun step => Script.parse step.text) = scripts.map .ok ∧
          script.filter (fun op => ∃ m ∈ markersFrom 1 (lines source), m < op.line) =
            Script.joinFrom (markersFrom 1 (lines source)) scripts := by
  refine ⟨exists_parse_iff, fun steps h => ⟨names_of_parse h, fun name => ?_,
    fun m name body marked => parse_of_markedAt h marked,
    fun script hscript => exists_scripts_of_parse h hscript⟩⟩
  rw [isSome_get?_iff, names_of_parse h]

theorem read_in_place_crlf :
    let source := "# head\r\nbind /a /b\n#-- one \r\ncd x\r\r\n\nclear\n#--two\n. lib\r"
    let steps : Steps := [⟨"one", "cd x\r\n\nclear\n"⟩, ⟨"two", ". lib\r\n"⟩]
    let script : Script := [⟨.splice, .replace, ["/a", "/b"], 2⟩, ⟨.changeDir, .replace, ["x"], 4⟩,
      ⟨.reset, .replace, [], 6⟩, ⟨.includeScript, .replace, ["lib"], 8⟩]
    let body := ["cd x\r", "", "clear"]
    parse source = .ok steps ∧ Script.parse source = .ok script ∧
      MarkedAt (lines source) 3 "one" body ∧
      (∃ text, steps.get? "one" = some text ∧ parseLines 4 body =
        ((Script.parse text).map (List.map (Operation.shift 3))).mapError (ParseError.shift 3)) ∧
      ∃ scripts, steps.map (fun step => Script.parse step.text) = scripts.map .ok ∧
        script.tail = Script.joinFrom [3, 7] scripts := by
  intro source steps script body
  have parsed : parse source = .ok steps := by decide +kernel
  have hscript : Script.parse source = .ok script := by decide +kernel
  have marked : MarkedAt (lines source) 3 "one" body :=
    ⟨["# head", "bind /a /b"], "#-- one ", ["#--two", ". lib\r"], by decide +kernel, rfl,
      by decide +kernel, by decide +kernel, by decide +kernel⟩
  have hmarkers : markersFrom 1 (lines source) = [3, 7] := by decide +kernel
  obtain ⟨-, -, hread, hwhole⟩ := (read_in_place source).2 steps parsed
  have hjoin := hwhole script hscript
  rw [hmarkers] at hjoin
  exact ⟨parsed, hscript, marked, hread 3 "one" body marked, hjoin⟩

end Steps
end MountScript
