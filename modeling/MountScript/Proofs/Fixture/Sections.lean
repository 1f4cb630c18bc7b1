import Mathlib.Data.List.Nodup
import MountScript.Fixture.Steps
import MountScript.Proofs.Script.LineByLine

/-!
# Sections of a fixture

The markers cut the lines of a fixture into a preamble and one section for each marker, and no line
is lost. The steps of a fixture are its sections, and a step is read as the lines of its section.
-/

namespace MountScript

open Text (lines unlines)

namespace Steps

def IsMarker (line : String) : Prop := (markerName? line).isSome = true

instance (line : String) : Decidable (IsMarker line) := inferInstanceAs (Decidable (_ = _))

structure Section where
  head : String
  body : List String

namespace Section

def lines (s : Section) : List String := s.head :: s.body

def step (s : Section) : Step := ⟨(markerName? s.head).getD "", unlines s.body⟩

end Section

def preamble (texts : List String) : List String := texts.takeWhile fun line => ¬IsMarker line

theorem preamble_cons (line : String) (rest : List String) :
    preamble (line :: rest) = if IsMarker line then [] else line :: preamble rest := by
  by_cases marked : IsMarker line <;> simp [preamble, marked]

def sections : List String → List Section
  | [] => []
  | line :: rest =>
    if IsMarker line then ⟨line, preamble rest⟩ :: sections rest else sections rest

theorem preamble_append_sections (texts : List String) :
    preamble texts ++ (sections texts).flatMap Section.lines = texts := by
  induction texts with
  | nil => rfl
  | cons line rest ih =>
    rw [preamble_cons, sections]
    split_ifs
    · exact congrArg (line :: ·) ih
    · exact congrArg (line :: ·) ih

theorem isMarker_head {texts : List String} {s : Section} (h : s ∈ sections texts) :
    IsMarker s.head := by
  induction texts with
  | nil => simp [sections] at h
  | cons line rest ih =>
    rw [sections] at h
    split_ifs at h with marked
    · rcases List.mem_cons.mp h with rfl | h
      · exact marked
      · exact ih h
    · exact ih h

theorem mem_of_mem_body {texts : List String} {s : Section} {line : String}
    (h : s ∈ sections texts) (hline : line ∈ s.body) : line ∈ texts := by
  rw [← preamble_append_sections texts]
  exact List.mem_append_right _ (List.mem_flatMap.mpr ⟨s, h, List.mem_cons_of_mem _ hline⟩)

theorem ignored_of_isMarker {line : String} (h : IsMarker line) :
    (classify line).isIgnored = true := by
  rw [IsMarker, markerName?, Option.isSome_map] at h
  obtain ⟨rest, hrest⟩ := Option.isSome_iff_exists.mp h
  have hsplit : line.toList = '#' :: '-' :: '-' :: rest :=
    (List.append_eq_of_isPrefixOf?_eq_some hrest).symm
  rw [classify, hsplit]
  rfl

theorem close_eq_ok_iff {steps found : Steps} (h : steps.names.Nodup) {current : Option Step} :
    steps.close current = .ok found ↔ found = steps ++ current.toList ∧ found.names.Nodup := by
  cases current with
  | none =>
    rw [close, Except.ok.injEq, Option.toList_none, List.append_nil]
    constructor
    · rintro rfl
      exact ⟨rfl, h⟩
    · rintro ⟨rfl, -⟩
      rfl
  | some step =>
    have hnames : (steps ++ [step]).names.Nodup ↔ step.name ∉ steps.names := by
      rw [names, List.map_append, List.map_singleton, ← List.concat_eq_append, List.nodup_concat]
      exact and_iff_left h
    rw [close]
    split_ifs with taken
    · simp only [false_iff]
      rintro ⟨rfl, hfound⟩
      exact hnames.mp hfound taken
    · rw [Except.ok.injEq]
      constructor
      · rintro rfl
        exact ⟨rfl, hnames.mpr taken⟩
      · rintro ⟨rfl, -⟩
        rfl

def pending (current : Option Step) (texts : List String) : Steps :=
  (current.map fun step => { step with text := step.text ++ unlines (preamble texts) }).toList ++
    (sections texts).map Section.step

theorem pending_line {line : String} (h : ¬IsMarker line) (current : Option Step)
    (rest : List String) :
    pending current (line :: rest) =
      pending (current.map fun step => { step with text := step.text ++ line ++ "\n" }) rest := by
  rw [pending, pending, preamble_cons, sections, if_neg h, if_neg h]
  cases current with
  | none => rfl
  | some step => simp [unlines, String.append_assoc]

theorem pending_marker {line name : String} (h : markerName? line = some name)
    (current : Option Step) (rest : List String) :
    pending current (line :: rest) = current.toList ++ pending (some ⟨name, ""⟩) rest := by
  have marked : IsMarker line := Option.isSome_of_eq_some h
  rw [pending, pending, preamble_cons, sections, if_pos marked, if_pos marked]
  cases current <;> simp [unlines, Section.step, h]

theorem collect_eq_ok_iff {steps found : Steps} (h : steps.names.Nodup) {current : Option Step}
    {texts : List String} :
    collect steps current texts = .ok found ↔
      (∀ s ∈ sections texts, s.step.name ≠ "") ∧ found = steps ++ pending current texts ∧
        found.names.Nodup := by
  induction texts generalizing steps current with
  | nil =>
    rw [collect, close_eq_ok_iff h]
    cases current <;> simp [pending, sections, preamble, unlines]
  | cons line rest ih =>
    rw [collect]
    cases hname : markerName? line with
    | none =>
      have unmarked : ¬IsMarker line := by simp [IsMarker, hname]
      rw [pending_line unmarked, sections, if_neg unmarked]
      exact ih h
    | some name =>
      have marked : IsMarker line := Option.isSome_of_eq_some hname
      have hstep : (Section.mk line (preamble rest)).step.name = name := by
        simp [Section.step, hname]
      rw [pending_marker hname, sections, if_pos marked, List.forall_mem_cons, hstep]
      dsimp only
      constructor
      · intro hfound
        cases hclose : steps.close current with
        | error e => simp [hclose] at hfound
        | ok closed =>
          obtain ⟨rfl, hclosed⟩ := (close_eq_ok_iff h).mp hclose
          rw [hclose] at hfound
          dsimp only at hfound
          split_ifs at hfound with hempty
          obtain ⟨named, rfl, hnodup⟩ := (ih hclosed).mp hfound
          exact ⟨⟨hempty, named⟩, List.append_assoc .., hnodup⟩
      · rintro ⟨⟨hempty, named⟩, hfound, hnodup⟩
        rw [← List.append_assoc] at hfound
        subst hfound
        have hclosed : (steps ++ current.toList).names.Nodup := by
          rw [names, List.map_append] at hnodup
          exact hnodup.of_append_left
        rw [(close_eq_ok_iff h).mpr ⟨rfl, hclosed⟩]
        dsimp only
        rw [if_neg hempty]
        exact (ih hclosed).mpr ⟨named, rfl, hnodup⟩

theorem parse_eq_ok_iff {source : String} {steps : Steps} :
    parse source = .ok steps ↔
      (∀ s ∈ sections (lines source), s.step.name ≠ "") ∧
        steps = (sections (lines source)).map Section.step ∧ steps.names.Nodup := by
  have start : (names []).Nodup := List.nodup_nil
  exact collect_eq_ok_iff start

theorem parse_section {source : String} {s : Section} (h : s ∈ sections (lines source)) :
    Script.parse s.step.text = parseLines 1 s.body :=
  parse_unlines fun _ hline => Text.lineFeed_not_mem_of_mem_lines (mem_of_mem_body h hline)

end Steps

end MountScript
