import Mathlib.Tactic.Common
import MountScript.Script.Parser

/-!
# Pieces, words and bytes of a text

A list is cut at each element that separates. No piece holds a separator, there is one piece more
than there are separators, and of two lists in a row only the last piece of the first and the first
piece of the second grow together.

A word is a text without blanks that holds something. The fields of a text are its words, each as
long as it can be, and words written with single spaces between them are read back as they were. A
text that begins with a line and its line feed has that line first and the lines of the rest after
it.

The bytes of a text are those of its characters in a row, and no character but the line feed has a
byte that is one. So the pieces between the line feeds of the bytes are the bytes of the pieces
between the line feeds of the text.
-/

namespace MountScript.Text

section Pieces

variable {α : Type}

theorem separator_free {p : α → Bool} {cs piece : List α}
    (hp : piece ∈ cs.splitOnP p) : ∀ c ∈ piece, p c = false := by
  induction cs generalizing piece with
  | nil => simp_all
  | cons x cs ih =>
    obtain ⟨first, others, hs⟩ := List.exists_cons_of_ne_nil (List.splitOnP_ne_nil p cs)
    rw [List.splitOnP_cons_eq_if_modifyHead, hs] at hp
    rw [hs] at ih
    by_cases hx : p x = true
    · rw [if_pos hx] at hp
      rcases List.mem_cons.mp hp with rfl | h
      · simp
      · exact ih h
    · rw [if_neg hx, List.modifyHead_cons] at hp
      rcases List.mem_cons.mp hp with rfl | h
      · have hfirst := ih List.mem_cons_self
        simpa [hx] using hfirst
      · exact ih (List.mem_cons_of_mem _ h)

variable [BEq α]

theorem not_mem_piece [ReflBEq α] {xs piece : List α} {a : α} (hp : piece ∈ xs.splitOn a) :
    a ∉ piece := by
  intro ha
  have hfree := separator_free hp a ha
  simp at hfree

theorem splitOn_append_of_not_mem [LawfulBEq α] {a : α} {front : List α} (h : a ∉ front)
    (rest : List α) :
    (front ++ rest).splitOn a = (rest.splitOn a).modifyHead (front ++ ·) := by
  induction front with
  | nil => exact (congrFun List.modifyHead_id _).symm
  | cons x front ih =>
    obtain ⟨hx, hfront⟩ := not_or.mp (mt List.mem_cons.mpr h)
    have hbeq : (x == a) = false := by simpa using fun e => hx e.symm
    rw [List.cons_append, List.splitOn_cons_eq_if_modifyHead, hbeq, ih hfront,
      List.modifyHead_modifyHead]
    rfl

theorem splitOn_append (a : α) (first second : List α) :
    (first ++ second).splitOn a = (first.splitOn a).dropLast ++
      ((first.splitOn a).getLastD [] ++ second).splitOn a := by
  induction first with
  | nil => simp
  | cons x first ih =>
    obtain ⟨piece, pieces, hp⟩ := List.exists_cons_of_ne_nil (List.splitOn_ne_nil a first)
    rw [hp] at ih
    rw [List.cons_append, List.splitOn_cons_eq_if_modifyHead, List.splitOn_cons_eq_if_modifyHead,
      ih, hp]
    by_cases hx : (x == a) = true
    · rw [if_pos hx, if_pos hx]
      rfl
    · rw [if_neg hx, if_neg hx]
      cases pieces with
      | nil => simp [List.splitOn_cons_eq_if_modifyHead, hx]
      | cons next pieces => rfl

theorem length_splitOn (a : α) (xs : List α) : (xs.splitOn a).length = xs.count a + 1 := by
  induction xs with
  | nil => simp
  | cons x xs ih =>
    rw [List.splitOn_cons_eq_if_modifyHead, List.count_cons]
    split <;> simp [ih]

end Pieces

def IsWord (word : List Char) : Prop := word ≠ [] ∧ ∀ c ∈ word, isBlank c = false

instance (word : List Char) : Decidable (IsWord word) :=
  decidable_of_iff ((!word.isEmpty && word.all fun c => !isBlank c) = true) (by simp [IsWord])

theorem isWord_of_mem_charFields {cs word : List Char} (h : word ∈ charFields cs) :
    IsWord word := by
  simp only [charFields, List.mem_filter, Bool.not_eq_true', List.isEmpty_eq_false_iff] at h
  exact ⟨h.2, separator_free h.1⟩

theorem charFields_word {word : List Char} (hw : IsWord word) : charFields word = [word] := by
  simp [charFields, List.splitOnP_eq_singleton hw.2, hw.1]

theorem charFields_word_append {word : List Char} (hw : IsWord word) {c : Char}
    (hc : isBlank c = true) (cs : List Char) :
    charFields (word ++ c :: cs) = word :: charFields cs := by
  simp [charFields, List.splitOnP_append_cons_of_forall_mem hw.2 c hc, hw.1]

theorem charFields_intercalate {words : List (List Char)} (hw : ∀ w ∈ words, IsWord w) :
    charFields ([' '].intercalate words) = words := by
  induction words with
  | nil => rfl
  | cons w ws ih =>
    have hhead := hw w List.mem_cons_self
    cases ws with
    | nil => simpa using charFields_word hhead
    | cons v vs =>
      have htail := ih fun x hx => hw x (List.mem_cons_of_mem _ hx)
      rw [List.intercalate_cons_cons, List.append_assoc, List.singleton_append,
        charFields_word_append hhead rfl, htail]

theorem eq_space_of_mem_intercalate {words : List (List Char)} (hw : ∀ w ∈ words, IsWord w)
    {c : Char} (hc : c ∈ [' '].intercalate words) (hb : isBlank c = true) : c = ' ' := by
  induction words with
  | nil => simp at hc
  | cons w ws ih =>
    have hhead : c ∉ w := fun h => by simpa [hb] using (hw w List.mem_cons_self).2 c h
    cases ws with
    | nil => exact absurd (by simpa using hc) hhead
    | cons v vs =>
      rw [List.intercalate_cons_cons, List.append_assoc, List.mem_append] at hc
      rcases List.mem_cons.mp (hc.resolve_left hhead) with rfl | h
      · rfl
      · exact ih (fun x hx => hw x (List.mem_cons_of_mem _ hx)) h

theorem fields_intercalate {words : List String} (hw : ∀ w ∈ words, IsWord w.toList) :
    fields (" ".intercalate words) = words := by
  have hchars : ∀ w ∈ words.map String.toList, IsWord w := by simpa using hw
  rw [fields, String.toList_intercalate, show " ".toList = [' '] from rfl,
    charFields_intercalate hchars]
  simp

theorem charFields_blank_cons {c : Char} (hc : isBlank c = true) (cs : List Char) :
    charFields (c :: cs) = charFields cs := by
  simp [charFields, List.splitOnP_cons_eq_if_modifyHead, hc]

theorem charFields_blank_append {gap : List Char} (blank : ∀ c ∈ gap, isBlank c = true)
    (cs : List Char) : charFields (gap ++ cs) = charFields cs := by
  induction gap with
  | nil => rfl
  | cons c gap ih =>
    rw [List.cons_append, charFields_blank_cons (blank c List.mem_cons_self),
      ih fun x hx => blank x (List.mem_cons_of_mem _ hx)]

/-- The words are all the runs of characters that are not blank, and none of them can be made
longer. -/
inductive Runs : List Char → List (List Char) → Prop
  | blanks {gap : List Char} (blank : ∀ c ∈ gap, isBlank c = true) : Runs gap []
  | next {gap word rest : List Char} {words : List (List Char)}
      (blank : ∀ c ∈ gap, isBlank c = true) (isWord : IsWord word)
      (ends : ∀ c ∈ rest.head?, isBlank c = true) (more : Runs rest words) :
      Runs (gap ++ word ++ rest) (word :: words)

theorem Runs.charFields_eq {cs : List Char} {words : List (List Char)} (h : Runs cs words) :
    charFields cs = words := by
  induction h with
  | blanks blank => simpa [charFields] using charFields_blank_append blank []
  | @next gap word rest words blank isWord ends _ ih =>
    rw [List.append_assoc, charFields_blank_append blank, ← ih]
    cases rest with
    | nil =>
      rw [List.append_nil]
      exact charFields_word isWord
    | cons c rest =>
      have hc : isBlank c = true := ends c rfl
      rw [charFields_word_append isWord hc, charFields_blank_cons hc]

theorem exists_runs (cs : List Char) : ∃ words, Runs cs words := by
  induction cs with
  | nil => exact ⟨[], .blanks nofun⟩
  | cons c cs ih =>
    obtain ⟨words, h⟩ := ih
    by_cases hc : isBlank c = true
    · -- A blank lengthens the gap in front.
      cases h with
      | blanks blank => exact ⟨[], .blanks (by simpa [hc] using blank)⟩
      | @next gap word rest words blank isWord ends more =>
        have hgap : ∀ x ∈ c :: gap, isBlank x = true := by simpa [hc] using blank
        exact ⟨word :: words, .next hgap isWord ends more⟩
    · -- Any other character lengthens the first word if that comes at once, or is a word by itself.
      have hnone : ∀ x ∈ ([] : List Char), isBlank x = true := nofun
      have hword : IsWord [c] := ⟨by simp, by simpa using hc⟩
      cases h with
      | blanks blank =>
        have ends : ∀ x ∈ cs.head?, isBlank x = true := fun x hx =>
          blank x (List.mem_of_head? hx)
        exact ⟨[[c]], .next hnone hword ends (.blanks blank)⟩
      | @next gap word rest words blank isWord ends more =>
        cases gap with
        | nil =>
          have hlonger : IsWord (c :: word) := ⟨by simp, by simpa [hc] using isWord.2⟩
          exact ⟨(c :: word) :: words, .next hnone hlonger ends more⟩
        | cons g gap =>
          have hends : ∀ x ∈ (g :: gap ++ word ++ rest).head?, isBlank x = true := by
            simpa using blank g List.mem_cons_self
          exact ⟨[c] :: word :: words, .next hnone hword hends (.next blank isWord ends more)⟩

theorem charFields_eq_iff {cs : List Char} {words : List (List Char)} :
    charFields cs = words ↔ Runs cs words := by
  constructor
  · rintro rfl
    obtain ⟨words, h⟩ := exists_runs cs
    rwa [h.charFields_eq]
  · exact Runs.charFields_eq

theorem fields_eq_iff {text : String} {words : List String} :
    fields text = words ↔ Runs text.toList (words.map String.toList) := by
  rw [← charFields_eq_iff, fields]
  constructor
  · rintro rfl
    simp
  · intro h
    simp [h]

theorem isWord_of_mem_fields {text word : String} (h : word ∈ fields text) :
    IsWord word.toList := by
  obtain ⟨cs, hcs, rfl⟩ := List.mem_map.mp h
  simpa using isWord_of_mem_charFields hcs

theorem charLines_line_append {line : List Char} (h : '\n' ∉ line) (rest : List Char) :
    charLines (line ++ '\n' :: rest) = dropReturn line :: charLines rest := by
  rw [charLines, List.splitOn_append_cons_self_of_not_mem h]
  obtain ⟨piece, pieces, hp⟩ := List.exists_cons_of_ne_nil (List.splitOn_ne_nil '\n' rest)
  rw [charLines, hp]
  rfl

theorem dropReturn_of_not_mem {line : List Char} (h : '\r' ∉ line) : dropReturn line = line :=
  if_neg fun he => h (List.mem_of_getLast? he)

theorem lines_line_append {line : String} (hf : '\n' ∉ line.toList) (hr : '\r' ∉ line.toList)
    (rest : String) : lines (line ++ "\n" ++ rest) = line :: lines rest := by
  have hsplit : (line ++ "\n" ++ rest).toList = line.toList ++ '\n' :: rest.toList := by simp
  rw [lines, hsplit, charLines_line_append hf, dropReturn_of_not_mem hr]
  simp [lines]

def encode (cs : List Char) : List UInt8 := cs.flatMap String.utf8EncodeChar

theorem isEmpty_encode (cs : List Char) : (encode cs).isEmpty = cs.isEmpty := by
  cases cs with
  | nil => rfl
  | cons c cs => simp [encode]

theorem toByteArray_eq_encode (text : String) :
    text.toByteArray = (encode text.toList).toByteArray := by
  calc text.toByteArray = (String.ofList text.toList).toByteArray := by rw [String.ofList_toList]
    _ = (encode text.toList).toByteArray := rfl

theorem decodeUtf8?_eq_some_iff {bytes : List UInt8} {text : String} :
    decodeUtf8? bytes = some text ↔ bytes = encode text.toList := by
  have hbytes : bytes = encode text.toList ↔ bytes.toByteArray = text.toByteArray := by
    rw [toByteArray_eq_encode]
    constructor
    · intro h
      rw [h]
    · intro h
      simpa using congrArg (fun b => b.data.toList) h
  rw [hbytes, decodeUtf8?, String.fromUTF8?]
  split
  · rw [Option.some_inj, ← String.toByteArray_inj]
    rfl
  · next invalid =>
    have hother : bytes.toByteArray ≠ text.toByteArray := fun h =>
      invalid (h ▸ text.isValidUTF8)
    simp [hother]

theorem lineFeed_eq_ofNat_iff {n : Nat} (h : n < 256) : lineFeed = UInt8.ofNat n ↔ n = 10 := by
  rw [← UInt8.toNat_inj, UInt8.toNat_ofNat_of_lt' h]
  exact eq_comm

theorem lineFeed_mem_utf8EncodeChar_iff {c : Char} :
    lineFeed ∈ String.utf8EncodeChar c ↔ c = '\n' := by
  have hc : c = '\n' ↔ c.val.toNat = 10 := by
    rw [Char.ext_iff, ← UInt32.toNat_inj]
    rfl
  rw [hc, String.utf8EncodeChar]
  -- The bytes of a character that takes several of them are all at least 128.
  split_ifs <;>
    simp (disch := omega) only [List.mem_cons, List.not_mem_nil, or_false, lineFeed_eq_ofNat_iff] <;>
    omega

theorem splitOn_encode (cs : List Char) :
    (encode cs).splitOn lineFeed = (cs.splitOn '\n').map encode := by
  induction cs with
  | nil => rfl
  | cons c cs ih =>
    rw [List.splitOn_cons_eq_if_modifyHead, encode, List.flatMap_cons, ← encode]
    obtain ⟨piece, pieces, hp⟩ := List.exists_cons_of_ne_nil (List.splitOn_ne_nil '\n' cs)
    by_cases hc : c = '\n'
    · subst hc
      have hfeed : String.utf8EncodeChar '\n' ++ encode cs = [] ++ lineFeed :: encode cs := rfl
      rw [hfeed, List.splitOn_append_cons_self, ih]
      rfl
    · have hfree : lineFeed ∉ String.utf8EncodeChar c := mt lineFeed_mem_utf8EncodeChar_iff.mp hc
      rw [if_neg (by simpa using hc), splitOn_append_of_not_mem hfree, ih]
      simp [hp, encode]

end MountScript.Text
