import Mathlib.Control.Monad.Basic
import MountScript.Proofs.Text
import MountScript.Script.Parser

/-!
# Writing a script and reading it back

The operands that come out of a parse are words, and a script of words is read back from its written
form with its lines numbered anew. A script with any other operand is not: whatever the text is read
as, its operands are words. So the scripts that survive the round trip are known exactly, and every
parsed script is one of them.
-/

namespace MountScript

open Text (IsWord fields lines)

section Results

variable {ε α β : Type} {x : Except ε α} {b : β}

theorem map_eq_ok_iff {f : α → β} : x.map f = .ok b ↔ ∃ a, x = .ok a ∧ f a = b := by
  cases x <;> simp [Except.map]

theorem bind_eq_ok_iff {f : α → Except ε β} : x >>= f = .ok b ↔ ∃ a, x = .ok a ∧ f a = .ok b := by
  cases x <;> simp [bind, Except.bind]

end Results

def Operation.Printable (op : Operation) : Prop := ∀ o ∈ op.operands, IsWord o.toList

def Script.Printable (s : Script) : Prop := ∀ op ∈ s, op.Printable

def Script.renumbered (s : Script) : Script := s.mapIdx fun i op => { op with line := i + 1 }

instance (op : Operation) : Decidable op.Printable := inferInstanceAs (Decidable (∀ _ ∈ _, _))

instance (s : Script) : Decidable s.Printable := inferInstanceAs (Decidable (∀ _ ∈ _, _))

theorem parseLine_eq_some_iff {line : Nat} {text : String} {op : Operation} :
    parseLine line text = .ok (some op) ↔
      (classify text).isIgnored = false ∧ op.line = line ∧
        ∃ keyword rest, fields text = keyword :: rest ∧
          Action.ofKeyword? keyword = some op.action ∧
          splitFlags rest = (op.placement, op.operands) := by
  rw [parseLine]
  by_cases hi : (classify text).isIgnored = true
  · simp [hi]
  · cases hf : fields text with
    | nil => simp [hi]
    | cons keyword rest =>
      cases ha : Action.ofKeyword? keyword with
      | none => simp [hi, ha]
      | some action =>
        have hi' : (classify text).isIgnored = false := by simpa using hi
        simp only [hi', ha]
        constructor
        · intro h
          obtain rfl : ⟨action, (splitFlags rest).1, (splitFlags rest).2, line⟩ = op := by
            simpa using h
          exact ⟨trivial, rfl, keyword, rest, rfl, ha, rfl⟩
        · rintro ⟨-, rfl, k, r, hkr, hka, hs⟩
          obtain ⟨rfl, rfl⟩ := List.cons.inj hkr
          obtain rfl : action = op.action := Option.some.inj (ha.symm.trans hka)
          simp [hs]

theorem parseLines_cons_eq_ok_iff {line : Nat} {text : String} {texts : List String} {s : Script} :
    parseLines line (text :: texts) = .ok s ↔
      ∃ found rest, parseLine line text = .ok found ∧
        parseLines (line + 1) texts = .ok rest ∧ s = found.toList ++ rest := by
  rw [parseLines]
  cases hl : parseLine line text with
  | error e => simp
  | ok found =>
    cases hr : parseLines (line + 1) texts with
    | error e => simp [Except.map]
    | ok rest => simp [Except.map, eq_comm]

theorem mem_of_mem_splitFlags {words : List String} {word : String}
    (h : word ∈ (splitFlags words).2) : word ∈ words := by
  cases words with
  | nil => exact h
  | cons first others =>
    rw [splitFlags] at h
    split at h
    · exact List.mem_cons_of_mem _ h
    · exact h

theorem printable_of_parseLine {line : Nat} {text : String} {op : Operation}
    (h : parseLine line text = .ok (some op)) : op.Printable := by
  obtain ⟨-, -, keyword, rest, hf, -, hs⟩ := parseLine_eq_some_iff.mp h
  intro o ho
  have hrest : o ∈ rest := mem_of_mem_splitFlags (by rw [hs]; exact ho)
  have hfield : o ∈ fields text := hf ▸ List.mem_cons_of_mem _ hrest
  exact Text.isWord_of_mem_fields hfield

theorem printable_of_parseLines {line : Nat} {texts : List String} {s : Script}
    (h : parseLines line texts = .ok s) : s.Printable := by
  induction texts generalizing line s with
  | nil =>
    obtain rfl : [] = s := by simpa [parseLines] using h
    intro op hop
    simp at hop
  | cons text texts ih =>
    obtain ⟨found, rest, hfound, hrest, rfl⟩ := parseLines_cons_eq_ok_iff.mp h
    intro op hop
    rcases List.mem_append.mp hop with hop | hop
    · obtain rfl : found = some op := by simpa using hop
      exact printable_of_parseLine hfound
    · exact ih hrest op hop

theorem printable_of_parse {text : String} {s : Script} (h : Script.parse text = .ok s) :
    s.Printable :=
  printable_of_parseLines h

theorem Placement.ofLetters_letters (p : Placement) : ofLetters p.letters = p := by
  rcases p with ⟨_ | _, _ | _, _ | _, _ | _⟩ <;> decide

theorem Flag.letter_not_blank (f : Flag) : Text.isBlank f.letter = false := by
  cases f <;> rfl

theorem Placement.toList_flagString (p : Placement) : p.flagString.toList = p.letters :=
  String.toList_ofList

theorem Placement.flagString_not_blank (p : Placement) :
    ∀ c ∈ p.flagString.toList, Text.isBlank c = false := by
  intro c hc
  rw [p.toList_flagString] at hc
  obtain ⟨f, -, rfl⟩ := List.mem_map.mp hc
  exact f.letter_not_blank

theorem Placement.eq_replace_of_flagString {p : Placement} (h : p.flagString = "") :
    p = replace := by
  have hletters : p.letters = [] := by simpa [flagString] using h
  rw [← p.ofLetters_letters, hletters]
  rfl

theorem splitFlags_flagToken (op : Operation) :
    splitFlags (op.flagToken ++ op.operands) = (op.placement, op.operands) := by
  by_cases h : op.placement.flagString = "" ∧
      (op.operands.head?.bind fun o => o.toList.head?) ≠ some '-'
  · rw [Operation.flagToken, if_pos h, Placement.eq_replace_of_flagString h.1]
    cases hos : op.operands with
    | nil => rfl
    | cons o os =>
      have hdash : ∀ letters, o.toList ≠ '-' :: letters := by
        intro letters he
        simp [hos, he] at h
      rw [List.nil_append, splitFlags]
      split
      · next letters he => exact absurd he (hdash letters)
      · rfl
  · have hdash : ("-" ++ op.placement.flagString).toList = '-' :: op.placement.letters := by
      simp [Placement.flagString]
    rw [Operation.flagToken, if_neg h, List.singleton_append, splitFlags, hdash]
    simp only [Placement.ofLetters_letters]

theorem isWord_dashed {letters : String} (h : ∀ c ∈ letters.toList, Text.isBlank c = false) :
    IsWord ("-" ++ letters).toList := by
  rw [String.toList_append]
  refine ⟨by simp, fun c hc => ?_⟩
  rcases List.mem_cons.mp hc with rfl | hc
  · rfl
  · exact h c hc

theorem isWord_of_mem_words {op : Operation} (h : op.Printable) {word : String}
    (hw : word ∈ op.words) : IsWord word.toList := by
  have hkeyword : IsWord op.action.keyword.toList := by cases op.action <;> decide
  rcases List.mem_cons.mp hw with rfl | hw
  · exact hkeyword
  · rcases List.mem_append.mp hw with hw | hw
    · rw [Operation.flagToken] at hw
      split at hw
      · simp at hw
      · obtain rfl : word = "-" ++ op.placement.flagString := by simpa using hw
        exact isWord_dashed op.placement.flagString_not_blank
    · exact h word hw

theorem fields_render {op : Operation} (h : op.Printable) : fields op.render = op.words :=
  Text.fields_intercalate fun _ hw => isWord_of_mem_words h hw

theorem head?_render (op : Operation) : op.render.toList.head? = op.action.keyword.toList.head? := by
  have hne : op.action.keyword.toList ≠ [] := by cases op.action <;> decide
  obtain ⟨c, cs, hcs⟩ := List.exists_cons_of_ne_nil hne
  rw [Operation.render, String.toList_intercalate, Operation.words, List.map_cons, hcs]
  cases (op.flagToken ++ op.operands).map String.toList <;> simp [List.intercalate_cons_cons]

theorem classify_render {op : Operation} (h : op.Printable) : classify op.render = .command := by
  have hhead : op.render.toList.head? ≠ some '#' ∧ op.render.toList.head? ≠ some ' ' ∧
      op.render.toList.head? ≠ none := by
    rw [head?_render]
    cases op.action <;> decide
  have hfields : fields op.render ≠ [] := by simp [fields_render h, Operation.words]
  rw [classify]
  split <;> simp_all

theorem parseLine_render {op : Operation} (h : op.Printable) (line : Nat) :
    parseLine line op.render = .ok (some { op with line }) := by
  refine parseLine_eq_some_iff.mpr ⟨by rw [classify_render h]; rfl, rfl, op.action.keyword,
    op.flagToken ++ op.operands, fields_render h, ?_, splitFlags_flagToken op⟩
  exact Action.ofKeyword?_keyword op.action

theorem eq_space_of_mem_render {op : Operation} (h : op.Printable) {c : Char}
    (hc : c ∈ op.render.toList) (hb : Text.isBlank c = true) : c = ' ' := by
  have hwords : ∀ w ∈ op.words.map String.toList, IsWord w := by
    intro w hw
    obtain ⟨word, hword, rfl⟩ := List.mem_map.mp hw
    exact isWord_of_mem_words h hword
  rw [Operation.render, String.toList_intercalate] at hc
  exact Text.eq_space_of_mem_intercalate hwords hc hb

theorem lines_render {s : Script} (h : s.Printable) : lines s.render = s.map Operation.render := by
  induction s with
  | nil => rfl
  | cons op ops ih =>
    have hop := h op List.mem_cons_self
    have hline : '\n' ∉ op.render.toList := fun hc =>
      absurd (eq_space_of_mem_render hop hc rfl) (by decide)
    have hreturn : '\r' ∉ op.render.toList := fun hc =>
      absurd (eq_space_of_mem_render hop hc rfl) (by decide)
    rw [Script.render, Text.lines_line_append hline hreturn,
      ih fun o ho => h o (List.mem_cons_of_mem _ ho), List.map_cons]

theorem parseLines_render {s : Script} (h : s.Printable) (line : Nat) :
    parseLines line (s.map Operation.render) =
      .ok (s.mapIdx fun i op => { op with line := line + i }) := by
  induction s generalizing line with
  | nil => rfl
  | cons op ops ih =>
    have hrest := ih (fun o ho => h o (List.mem_cons_of_mem _ ho)) (line + 1)
    refine parseLines_cons_eq_ok_iff.mpr
      ⟨_, _, parseLine_render (h op List.mem_cons_self) line, hrest, ?_⟩
    simp [List.mapIdx_cons, Nat.add_assoc, Nat.add_comm 1]

theorem parse_render {s : Script} (h : s.Printable) :
    Script.parse s.render = .ok s.renumbered := by
  rw [Script.parse, lines_render h, parseLines_render h 1]
  simp [Script.renumbered, Nat.add_comm 1]

theorem printable_renumbered {s : Script} : s.renumbered.Printable ↔ s.Printable := by
  simp only [Script.Printable, Script.renumbered, List.mem_mapIdx]
  constructor
  · intro h op hop
    obtain ⟨i, hi, he⟩ := List.getElem_of_mem hop
    exact h { op with line := i + 1 } ⟨i, hi, by rw [he]⟩
  · rintro h op ⟨i, hi, rfl⟩
    exact h s[i] (List.getElem_mem hi)

theorem render_mapIdx_line (s : Script) (f : Nat → Nat) :
    Script.render (s.mapIdx fun i op => { op with line := f i }) = s.render := by
  induction s generalizing f with
  | nil => rfl
  | cons op ops ih =>
    rw [List.mapIdx_cons, Script.render, Script.render, ih fun i => f (i + 1)]
    rfl

/-- The scripts that are read back from their written form are those whose operands are words, and
parsing gives no others. -/
theorem parse_render_iff :
    (∀ s : Script, Script.parse s.render = .ok s.renumbered ↔ s.Printable) ∧
      ∀ (text : String) (s : Script), Script.parse text = .ok s →
        Script.parse s.render = .ok s.renumbered ∧ s.renumbered.render = s.render := by
  refine ⟨fun s => ⟨fun h => ?_, parse_render⟩, fun text s h => ⟨?_, ?_⟩⟩
  · exact printable_renumbered.mp (printable_of_parse h)
  · exact parse_render (printable_of_parse h)
  · exact render_mapIdx_line s (· + 1)

theorem parse_render_iff_dashed :
    let s : Script := [⟨.splice, ⟨true, true, false, false⟩, ["-", "-x"], 2⟩,
      ⟨.includeScript, .replace, ["-y"], 4⟩]
    Script.parse "# spliced\nbind -ba - -x\r\n\n\t. - -y" = .ok s ∧
      Script.parse s.render = .ok s.renumbered ∧ s.renumbered.render = s.render := by
  have hread : Script.parse "# spliced\nbind -ba - -x\r\n\n\t. - -y" =
      .ok [⟨.splice, ⟨true, true, false, false⟩, ["-", "-x"], 2⟩,
        ⟨.includeScript, .replace, ["-y"], 4⟩] := by decide +kernel
  exact ⟨hread, parse_render_iff.2 _ _ hread⟩

example : ¬Script.Printable [⟨.splice, .replace, ["/a", ""], 1⟩] ∧
    ¬Script.Printable [⟨.changeDir, .replace, ["/a\nclear"], 1⟩] := by decide

end MountScript
