import Mathlib.Data.List.Forall2
import MountScript.Proofs.Script.RoundTrip

/-!
# The grammar of scripts

The commands of a text are its lines that have a word and start with neither a `#` nor a space. Each
stands for one operation if its first word is a keyword. A text is a script exactly if that holds of
all its commands, and then it is the script of their operations; otherwise the first command that
starts with another word is reported.
-/

namespace MountScript

open Text (Runs fields lines)

def FirstWord (text word : String) : Prop := ∃ words, Runs text.toList (word.toList :: words)

structure IsCommand (text : String) : Prop where
  notComment : text.toList.head? ≠ some '#'
  notIndented : text.toList.head? ≠ some ' '
  hasWord : ∃ word, FirstWord text word

/-- A line with its number stands for an operation: the first word is the keyword, a second word that
starts with a dash says by its letters which flags are set, and the other words are the operands. -/
inductive Denotes : String × Nat → Operation → Prop
  | plain {text : String} {line : Nat} {action : Action} {operands : List String}
      (words : Runs text.toList ((action.keyword :: operands).map String.toList))
      (undashed : ∀ o ∈ operands.head?, o.toList.head? ≠ some '-') :
      Denotes (text, line) ⟨action, .replace, operands, line⟩
  | flagged {text : String} {line : Nat} {action : Action} {operands : List String}
      {letters : List Char} {placement : Placement}
      (words : Runs text.toList
        ((action.keyword :: String.ofList ('-' :: letters) :: operands).map String.toList))
      (flags : ∀ f : Flag, placement.has f = true ↔ f.letter ∈ letters) :
      Denotes (text, line) ⟨action, placement, operands, line⟩

theorem firstWord_iff {text word : String} :
    FirstWord text word ↔ (fields text).head? = some word := by
  rw [List.head?_eq_some_iff]
  constructor
  · rintro ⟨words, h⟩
    exact ⟨words.map String.ofList, Text.fields_eq_iff.mpr (by simpa using h)⟩
  · rintro ⟨words, h⟩
    exact ⟨_, Text.fields_eq_iff.mp h⟩

theorem exists_firstWord_iff {text : String} :
    (∃ word, FirstWord text word) ↔ fields text ≠ [] := by
  simp only [firstWord_iff]
  cases fields text <;> simp

theorem isCommand_iff {text : String} : IsCommand text ↔ (classify text).isIgnored = false := by
  have hempty : text.toList = [] → fields text = [] := fun h => by
    rw [fields, h]
    rfl
  rw [classify]
  constructor
  · rintro ⟨notComment, notIndented, hasWord⟩
    have hfields := exists_firstWord_iff.mp hasWord
    split
    · next h => exact absurd (hempty h) hfields
    · next h => simp [h] at notComment
    · next h => simp [h] at notIndented
    · rw [if_neg hfields]
      rfl
  · intro h
    split at h
    · cases h
    · cases h
    · cases h
    · next notComment notIndented =>
      split at h
      · cases h
      · next hfields =>
        refine ⟨fun hc => ?_, fun hs => ?_, exists_firstWord_iff.mpr hfields⟩
        · obtain ⟨rest, hrest⟩ := List.head?_eq_some_iff.mp hc
          exact notComment rest hrest
        · obtain ⟨rest, hrest⟩ := List.head?_eq_some_iff.mp hs
          exact notIndented rest hrest

instance (text : String) : Decidable (IsCommand text) := decidable_of_iff _ isCommand_iff.symm

def commandsFrom (line : Nat) (texts : List String) : List (String × Nat) :=
  (texts.zipIdx line).filter fun numbered => IsCommand numbered.1

def commands (text : String) : List (String × Nat) := commandsFrom 1 (lines text)

theorem commandsFrom_cons (line : Nat) (text : String) (texts : List String) :
    commandsFrom line (text :: texts) =
      if IsCommand text then (text, line) :: commandsFrom (line + 1) texts
      else commandsFrom (line + 1) texts := by
  rw [commandsFrom, List.zipIdx_cons, List.filter_cons]
  simp only [decide_eq_true_eq, commandsFrom]

theorem Placement.has_ofLetters (letters : List Char) (f : Flag) :
    (ofLetters letters).has f = true ↔ f.letter ∈ letters := by
  have hfold : ∀ p : Placement,
      (letters.foldl (fun p c => ((Flag.ofLetter? c).map p.add).getD p) p).has f = true ↔
        p.has f = true ∨ f.letter ∈ letters := by
    induction letters with
    | nil => simp
    | cons c letters ih =>
      intro p
      rw [List.foldl_cons, ih, List.mem_cons, ← or_assoc]
      refine or_congr_left ?_
      cases hc : Flag.ofLetter? c with
      | none =>
        have hother : f.letter ≠ c := fun h => by
          rw [Flag.ofLetter?_eq_some_iff.mpr h.symm] at hc
          nomatch hc
        simp [hother]
      | some g =>
        obtain rfl := Flag.ofLetter?_eq_some_iff.mp hc
        have hsame : f.letter = g.letter ↔ g = f :=
          ⟨fun h => by simpa [Flag.ofLetter?_eq_some_iff.mpr h.symm] using hc.symm, fun h => h ▸ rfl⟩
        simp [has_add, hsame]
  rw [ofLetters, hfold]
  cases f <;> simp [replace, has]

theorem splitFlags_eq_iff {words operands : List String} {placement : Placement} :
    splitFlags words = (placement, operands) ↔
      (placement = .replace ∧ operands = words ∧ ∀ o ∈ words.head?, o.toList.head? ≠ some '-') ∨
        ∃ letters, words = String.ofList ('-' :: letters) :: operands ∧
          placement = .ofLetters letters := by
  constructor
  · intro h
    cases words with
    | nil =>
      obtain ⟨rfl, rfl⟩ := Prod.mk.inj h
      exact .inl ⟨rfl, rfl, nofun⟩
    | cons word words =>
      rw [splitFlags] at h
      split at h
      · next letters hword =>
        obtain ⟨rfl, rfl⟩ := Prod.mk.inj h
        exact .inr ⟨letters, by rw [← hword, String.ofList_toList], rfl⟩
      · next undashed =>
        obtain ⟨rfl, rfl⟩ := Prod.mk.inj h
        refine .inl ⟨rfl, rfl, fun o ho hdash => ?_⟩
        obtain rfl := Option.some.inj ho
        obtain ⟨letters, hword⟩ := List.head?_eq_some_iff.mp hdash
        exact undashed letters hword
  · rintro (⟨rfl, rfl, undashed⟩ | ⟨letters, rfl, rfl⟩)
    · cases operands with
      | nil => rfl
      | cons o os =>
        rw [splitFlags]
        split
        · next letters hword => exact absurd (by simp [hword]) (undashed o rfl)
        · rfl
    · simp [splitFlags]

theorem denotes_iff {text : String} {line : Nat} {op : Operation} (h : IsCommand text) :
    Denotes (text, line) op ↔ parseLine line text = .ok (some op) := by
  rw [parseLine_eq_some_iff]
  constructor
  · intro hd
    refine ⟨isCommand_iff.mp h, ?_⟩
    cases hd with
    | @plain _ _ action operands words undashed =>
      exact ⟨rfl, _, _, Text.fields_eq_iff.mpr words, Action.ofKeyword?_keyword action,
        splitFlags_eq_iff.mpr (.inl ⟨rfl, rfl, undashed⟩)⟩
    | @flagged _ _ action operands letters placement words flags =>
      have hplacement : placement = .ofLetters letters := Placement.eq_of_has_eq fun f => by
        rw [Bool.eq_iff_iff, flags, Placement.has_ofLetters]
      exact ⟨rfl, _, _, Text.fields_eq_iff.mpr words, Action.ofKeyword?_keyword action,
        splitFlags_eq_iff.mpr (.inr ⟨letters, rfl, hplacement⟩)⟩
  · rcases op with ⟨action, placement, operands, _⟩
    rintro ⟨-, rfl, keyword, rest, hfields, hkeyword, hflags⟩
    obtain rfl := Action.keyword_of_ofKeyword? hkeyword
    have words := Text.fields_eq_iff.mp hfields
    rcases splitFlags_eq_iff.mp hflags with ⟨rfl, rfl, undashed⟩ | ⟨letters, rfl, rfl⟩
    · exact .plain words undashed
    · exact .flagged words (Placement.has_ofLetters letters)

inductive ReadsAs (line : Nat) (text : String) : Except ParseError (Option Operation) → Prop
  | ignored (silent : ¬IsCommand text) : ReadsAs line text (.ok none)
  | operation {op : Operation} (command : IsCommand text) (denotes : Denotes (text, line) op) :
      ReadsAs line text (.ok (some op))
  | unknown {word : String} (command : IsCommand text) (first : FirstWord text word)
      (noKeyword : ∀ a : Action, a.keyword ≠ word) :
      ReadsAs line text (.error (.unknownAction line word))

theorem readsAs_parseLine (line : Nat) (text : String) :
    ReadsAs line text (parseLine line text) := by
  by_cases command : IsCommand text
  · obtain ⟨word, first⟩ := command.hasWord
    obtain ⟨words, hfields⟩ := List.head?_eq_some_iff.mp (firstWord_iff.mp first)
    have hread := isCommand_iff.mp command
    cases haction : Action.ofKeyword? word with
    | none =>
      have hparse : parseLine line text = .error (.unknownAction line word) := by
        simp [parseLine, hread, hfields, haction]
      have noKeyword : ∀ a : Action, a.keyword ≠ word := fun a ha => by
        rw [← ha, Action.ofKeyword?_keyword] at haction
        simp at haction
      rw [hparse]
      exact .unknown command first noKeyword
    | some action =>
      have hparse : parseLine line text =
          .ok (some ⟨action, (splitFlags words).1, (splitFlags words).2, line⟩) := by
        simp [parseLine, hread, hfields, haction]
      rw [hparse]
      exact .operation command ((denotes_iff command).mpr hparse)
  · have hignored : (classify text).isIgnored = true := by
      simpa [isCommand_iff] using command
    rw [parseLine, if_pos hignored]
    exact .ignored command

def Known (command : String × Nat) : Prop := ∃ a : Action, FirstWord command.1 a.keyword

theorem firstWord_unique {text first second : String} (h₁ : FirstWord text first)
    (h₂ : FirstWord text second) : first = second := by
  rw [firstWord_iff] at h₁ h₂
  exact Option.some.inj (h₁.symm.trans h₂)

theorem Denotes.known {command : String × Nat} {op : Operation} (h : Denotes command op) :
    Known command := by
  cases h with
  | plain words => exact ⟨_, _, words⟩
  | flagged words => exact ⟨_, _, words⟩

theorem Denotes.line_eq {command : String × Nat} {op : Operation} (h : Denotes command op) :
    op.line = command.2 := by
  cases h <;> rfl

theorem parseLines_eq_ok_iff {line : Nat} {texts : List String} {s : Script} :
    parseLines line texts = .ok s ↔ List.Forall₂ Denotes (commandsFrom line texts) s := by
  induction texts generalizing line s with
  | nil => simp [parseLines, commandsFrom, eq_comm]
  | cons text texts ih =>
    have reads := readsAs_parseLine line text
    rw [parseLines_cons_eq_ok_iff, commandsFrom_cons]
    generalize hparse : parseLine line text = found at reads
    cases reads with
    | ignored silent =>
      rw [if_neg silent]
      simp [ih]
    | @operation op command denotes =>
      rw [if_pos command, List.forall₂_cons_left_iff]
      simp [denotes_iff command, hparse, ih]
    | unknown command first noKeyword =>
      rw [if_pos command, List.forall₂_cons_left_iff]
      simp [denotes_iff command, hparse]

def FirstUnknown (commands : List (String × Nat)) (number : Nat) (word : String) : Prop :=
  ∃ before text after, commands = before ++ (text, number) :: after ∧
    (∀ command ∈ before, Known command) ∧ FirstWord text word ∧ ∀ a : Action, a.keyword ≠ word

theorem firstUnknown_cons_of_known {command : String × Nat} {commands : List (String × Nat)}
    {number : Nat} {word : String} (h : Known command) :
    FirstUnknown (command :: commands) number word ↔ FirstUnknown commands number word := by
  constructor
  · rintro ⟨before, text, after, hsplit, known, first, noKeyword⟩
    rcases List.cons_eq_append_iff.mp hsplit with ⟨-, hhead⟩ | ⟨before, rfl, hrest⟩
    · obtain ⟨rfl, -⟩ := List.cons.inj hhead
      obtain ⟨a, ha⟩ := h
      exact absurd (firstWord_unique ha first) (noKeyword a)
    · exact ⟨before, text, after, hrest, fun c hc => known c (List.mem_cons_of_mem _ hc), first,
        noKeyword⟩
  · rintro ⟨before, text, after, rfl, known, first, noKeyword⟩
    exact ⟨command :: before, text, after, rfl, List.forall_mem_cons.mpr ⟨h, known⟩, first,
      noKeyword⟩

theorem firstUnknown_cons_of_unknown {text : String} {line number : Nat}
    {commands : List (String × Nat)} {word found : String} (first : FirstWord text word)
    (noKeyword : ∀ a : Action, a.keyword ≠ word) :
    FirstUnknown ((text, line) :: commands) number found ↔ number = line ∧ found = word := by
  constructor
  · rintro ⟨before, other, after, hsplit, known, first', -⟩
    rcases List.cons_eq_append_iff.mp hsplit with ⟨-, hhead⟩ | ⟨before, rfl, -⟩
    · obtain ⟨hcommand, -⟩ := List.cons.inj hhead
      obtain ⟨rfl, rfl⟩ := Prod.mk.inj hcommand
      exact ⟨rfl, firstWord_unique first' first⟩
    · obtain ⟨a, ha⟩ := known _ List.mem_cons_self
      exact absurd (firstWord_unique ha first) (noKeyword a)
  · rintro ⟨rfl, rfl⟩
    exact ⟨[], text, commands, rfl, nofun, first, noKeyword⟩

theorem parseLines_eq_error_iff {line : Nat} {texts : List String} {e : ParseError} :
    parseLines line texts = .error e ↔
      ∃ number word, FirstUnknown (commandsFrom line texts) number word ∧
        e = .unknownAction number word := by
  induction texts generalizing line with
  | nil => simp [parseLines, commandsFrom, FirstUnknown]
  | cons text texts ih =>
    have reads := readsAs_parseLine line text
    rw [parseLines, commandsFrom_cons]
    generalize parseLine line text = found at reads
    cases reads with
    | ignored silent =>
      rw [if_neg silent, ← ih]
      cases parseLines (line + 1) texts <;> simp [Except.map]
    | operation command denotes =>
      rw [if_pos command]
      simp only [firstUnknown_cons_of_known denotes.known, ← ih]
      cases parseLines (line + 1) texts <;> simp [Except.map]
    | unknown command first noKeyword =>
      rw [if_pos command]
      simp [firstUnknown_cons_of_unknown first noKeyword, eq_comm]

theorem pairwise_commandsFrom (line : Nat) (texts : List String) :
    (commandsFrom line texts).Pairwise (·.2 < ·.2) := by
  refine List.Pairwise.filter _ ?_
  rw [← List.pairwise_map, List.zipIdx_map_snd]
  exact List.pairwise_lt_range'

theorem map_line_eq {commands : List (String × Nat)} {s : Script}
    (h : List.Forall₂ Denotes commands s) : s.map Operation.line = commands.map Prod.snd := by
  induction h with
  | nil => rfl
  | cons denotes _ ih => rw [List.map_cons, List.map_cons, denotes.line_eq, ih]

theorem known_of_forall₂ {commands : List (String × Nat)} {s : Script}
    (h : List.Forall₂ Denotes commands s) : ∀ command ∈ commands, Known command := by
  induction h with
  | nil => nofun
  | cons denotes _ ih => exact List.forall_mem_cons.mpr ⟨denotes.known, ih⟩

/-- A text is the script of the operations that its commands stand for, if each of them stands for
one. That is so if all first words are keywords; else the first command whose first word is none is
the error. -/
theorem parse_follows_grammar (text : String) :
    (∀ s, Script.parse text = .ok s ↔ List.Forall₂ Denotes (commands text) s) ∧
      (∀ e, Script.parse text = .error e ↔
        ∃ number word, FirstUnknown (commands text) number word ∧
          e = .unknownAction number word) ∧
      ((∃ s, Script.parse text = .ok s) ↔ ∀ command ∈ commands text, Known command) ∧
      ∀ s, Script.parse text = .ok s → s.Pairwise (·.line < ·.line) ∧ s.Printable := by
  have hok : ∀ s, Script.parse text = .ok s ↔ List.Forall₂ Denotes (commands text) s :=
    fun s => parseLines_eq_ok_iff
  have herror : ∀ e, Script.parse text = .error e ↔
      ∃ number word, FirstUnknown (commands text) number word ∧ e = .unknownAction number word :=
    fun e => parseLines_eq_error_iff
  refine ⟨hok, herror, ⟨?_, fun known => ?_⟩, fun s hs => ⟨?_, printable_of_parse hs⟩⟩
  · rintro ⟨s, hs⟩
    exact known_of_forall₂ ((hok s).mp hs)
  · cases hparse : Script.parse text with
    | ok s => exact ⟨s, rfl⟩
    | error e =>
      obtain ⟨number, word, ⟨before, line, after, hsplit, -, first, noKeyword⟩, -⟩ :=
        (herror e).mp hparse
      obtain ⟨a, ha⟩ := known (line, number) (by simp [hsplit])
      exact absurd (firstWord_unique ha first) (noKeyword a)
  · have hincreasing := pairwise_commandsFrom 1 (lines text)
    rw [← List.pairwise_map] at hincreasing
    rw [← List.pairwise_map, map_line_eq ((hok s).mp hs)]
    exact hincreasing

end MountScript
