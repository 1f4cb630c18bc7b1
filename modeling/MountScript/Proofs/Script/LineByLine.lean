import MountScript.Proofs.Script.Grammar

/-!
# Lines by themselves

What a line is read as depends on its words and on its first character. A carriage return at its end
makes no difference, and its number only tells where its operation or its error is. So a text can be
cut at its line feeds alone, and lines can be written out, cut apart and counted anew, and are read
as before. Nor does it make a difference whether lines end in a line feed or in a carriage return
and a line feed, and whether the last line has an end.
-/

namespace MountScript

open Text (fields)

namespace Text

theorem charFields_append_blank {c : Char} (hc : isBlank c = true) (cs rest : List Char) :
    charFields (cs ++ c :: rest) = charFields cs ++ charFields rest := by
  rw [charFields, List.splitOnP_append_cons _ _ hc, List.filter_append]
  rfl

theorem fields_concat_return (cs : List Char) :
    fields (String.ofList (cs ++ ['\r'])) = fields (String.ofList cs) := by
  rw [fields, fields, String.toList_ofList, String.toList_ofList, charFields_append_blank rfl]
  exact congrArg _ (List.append_nil _)

theorem mem_of_mem_dropReturn {c : Char} {cs : List Char} (h : c ∈ dropReturn cs) : c ∈ cs := by
  rw [dropReturn] at h
  split_ifs at h
  · exact (List.dropLast_sublist cs).subset h
  · exact h

theorem not_mem_of_mem_ofPieces {c : Char} {pieces : List (List Char)} (h : ∀ p ∈ pieces, c ∉ p)
    {line : List Char} (hline : line ∈ ofPieces pieces) : c ∉ line := by
  induction pieces with
  | nil => simp [ofPieces] at hline
  | cons piece pieces ih =>
    obtain ⟨hpiece, hpieces⟩ := List.forall_mem_cons.mp h
    cases pieces with
    | nil =>
      obtain rfl : line = piece := by
        rw [ofPieces] at hline
        split_ifs at hline
        · simp at hline
        · simpa using hline
      exact hpiece
    | cons next pieces =>
      rcases List.mem_cons.mp hline with rfl | hline
      · exact fun hc => hpiece (mem_of_mem_dropReturn hc)
      · exact ih hpieces hline

theorem lineFeed_not_mem_of_mem_lines {text line : String} (h : line ∈ lines text) :
    '\n' ∉ line.toList := by
  obtain ⟨cs, hcs, rfl⟩ := List.mem_map.mp h
  rw [String.toList_ofList]
  exact not_mem_of_mem_ofPieces (fun _ => not_mem_piece) hcs

def unlines : List String → String
  | [] => ""
  | line :: rest => line ++ "\n" ++ unlines rest

def between (cs : List Char) : List String := (cs.splitOn '\n').map String.ofList

theorem between_line_append {front : List Char} (h : '\n' ∉ front) (rest : List Char) :
    between (front ++ '\n' :: rest) = String.ofList front :: between rest := by
  rw [between, List.splitOn_append_cons_self_of_not_mem h, List.map_cons, between]

theorem between_unlines {texts : List String} (h : ∀ text ∈ texts, '\n' ∉ text.toList) :
    between (unlines texts).toList = texts ++ [""] := by
  induction texts with
  | nil => rfl
  | cons text texts ih =>
    obtain ⟨htext, htexts⟩ := List.forall_mem_cons.mp h
    have hsplit : (unlines (text :: texts)).toList =
        text.toList ++ '\n' :: (unlines texts).toList := by
      simp [unlines]
    rw [hsplit, between_line_append htext, ih htexts, String.ofList_toList, List.cons_append]

end Text

theorem isCommand_iff_head {text : String} :
    IsCommand text ↔
      text.toList.head? ≠ some '#' ∧ text.toList.head? ≠ some ' ' ∧ fields text ≠ [] := by
  rw [← exists_firstWord_iff]
  exact ⟨fun ⟨notComment, notIndented, hasWord⟩ => ⟨notComment, notIndented, hasWord⟩,
    fun ⟨notComment, notIndented, hasWord⟩ => ⟨notComment, notIndented, hasWord⟩⟩

theorem parseLine_concat_return (line : Nat) (cs : List Char) :
    parseLine line (String.ofList (cs ++ ['\r'])) = parseLine line (String.ofList cs) := by
  have hfields := Text.fields_concat_return cs
  have hcommand : IsCommand (String.ofList (cs ++ ['\r'])) ↔ IsCommand (String.ofList cs) := by
    rw [isCommand_iff_head, isCommand_iff_head, hfields]
    cases cs with
    | nil => simp [fields, Text.charFields]
    | cons c cs => simp
  have hignored : (classify (String.ofList (cs ++ ['\r']))).isIgnored =
      (classify (String.ofList cs)).isIgnored := by
    rw [isCommand_iff, isCommand_iff] at hcommand
    rw [Bool.eq_iff_iff, ← not_iff_not]
    simpa using hcommand
  rw [parseLine, parseLine, hfields, hignored]

theorem parseLine_dropReturn (line : Nat) (text : String) :
    parseLine line (String.ofList (Text.dropReturn text.toList)) = parseLine line text := by
  rw [Text.dropReturn]
  split_ifs with h
  · have hsplit : text.toList.dropLast ++ ['\r'] = text.toList := by
      obtain ⟨cs, hcs⟩ := List.getLast?_eq_some_iff.mp h
      rw [hcs, List.dropLast_concat]
    rw [← parseLine_concat_return, hsplit, String.ofList_toList]
  · rw [String.ofList_toList]

def Operation.shift (count : Nat) (op : Operation) : Operation :=
  { op with line := op.line + count }

def ParseError.shift (count : Nat) : ParseError → ParseError
  | unknownAction line keyword => unknownAction (line + count) keyword
  | read line cause => read (line + count) cause

theorem parseLine_shift (count line : Nat) (text : String) :
    parseLine (line + count) text =
      ((parseLine line text).map (Option.map (Operation.shift count))).mapError
        (ParseError.shift count) := by
  rw [parseLine, parseLine]
  split_ifs
  · rfl
  · cases fields text with
    | nil => rfl
    | cons keyword rest => cases h : Action.ofKeyword? keyword <;> simp only [h] <;> rfl

theorem parseLines_shift (count line : Nat) (texts : List String) :
    parseLines (line + count) texts =
      ((parseLines line texts).map (List.map (Operation.shift count))).mapError
        (ParseError.shift count) := by
  induction texts generalizing line with
  | nil => rfl
  | cons text texts ih =>
    rw [parseLines, parseLines, parseLine_shift, Nat.add_right_comm, ih]
    rcases parseLine line text with e | found
    · rfl
    · rcases parseLines (line + 1) texts with e | rest
      · rfl
      · cases found <;> rfl

theorem parseLines_shift_eq_ok_iff {count line : Nat} {texts : List String} {script : Script} :
    parseLines (line + count) texts = .ok script ↔
      ∃ base, parseLines line texts = .ok base ∧ base.map (Operation.shift count) = script := by
  rw [parseLines_shift]
  cases parseLines line texts <;> simp [Except.map, Except.mapError]

theorem line_of_mem_parseLines {line : Nat} {texts : List String} {script : Script}
    (h : parseLines line texts = .ok script) {op : Operation} (hop : op ∈ script) :
    line ≤ op.line ∧ op.line < line + texts.length := by
  induction texts generalizing line script with
  | nil =>
    obtain rfl : [] = script := by simpa [parseLines] using h
    simp at hop
  | cons text texts ih =>
    obtain ⟨found, rest, hfound, hrest, rfl⟩ := parseLines_cons_eq_ok_iff.mp h
    rw [List.length_cons]
    rcases List.mem_append.mp hop with hop | hop
    · obtain rfl : found = some op := by simpa using hop
      obtain ⟨-, hline, -⟩ := parseLine_eq_some_iff.mp hfound
      omega
    · have hrange := ih hrest hop
      omega

theorem parseLine_of_ignored {line : Nat} {text : String} (h : (classify text).isIgnored = true) :
    parseLine line text = .ok none := by
  rw [parseLine, if_pos h]

theorem parseLines_of_ignored {texts : List String}
    (h : ∀ text ∈ texts, (classify text).isIgnored = true) (line : Nat) :
    parseLines line texts = .ok [] := by
  induction texts generalizing line with
  | nil => rfl
  | cons text texts ih =>
    obtain ⟨htext, htexts⟩ := List.forall_mem_cons.mp h
    rw [parseLines, parseLine_of_ignored htext, ih htexts]
    rfl

theorem parseLines_append (line : Nat) (first second : List String) :
    parseLines line (first ++ second) =
      do return (← parseLines line first) ++ (← parseLines (line + first.length) second) := by
  induction first generalizing line with
  | nil =>
    rw [List.nil_append, parseLines]
    rcases parseLines line second with e | rest <;> rfl
  | cons text first ih =>
    rw [List.cons_append, parseLines, parseLines, ih, List.length_cons, Nat.add_right_comm line,
      Nat.add_assoc line]
    rcases parseLine line text with e | found
    · rfl
    · rcases parseLines (line + 1) first with e | steps
      · rfl
      · rcases parseLines (line + (first.length + 1)) second with e | rest
        · rfl
        · exact congrArg Except.ok (List.append_assoc _ _ _).symm

theorem parseLines_concat_ignored {text : String} (h : (classify text).isIgnored = true)
    (line : Nat) (texts : List String) :
    parseLines line (texts ++ [text]) = parseLines line texts := by
  have hlast := parseLines_of_ignored (List.forall_mem_singleton.mpr h) (line + texts.length)
  rw [parseLines_append, hlast]
  rcases parseLines line texts with e | s
  · rfl
  · exact congrArg Except.ok (List.append_nil s)

theorem parseLines_ofPieces (line : Nat) (pieces : List (List Char)) :
    parseLines line ((Text.ofPieces pieces).map String.ofList) =
      parseLines line (pieces.map String.ofList) := by
  induction pieces generalizing line with
  | nil => rfl
  | cons piece pieces ih =>
    cases pieces with
    | nil =>
      by_cases hempty : piece = []
      · subst hempty
        have hblank : parseLines line [""] = parseLines line [] :=
          parseLines_concat_ignored rfl line []
        exact hblank.symm
      · simp [Text.ofPieces, hempty]
    | cons next pieces =>
      have hpiece := parseLine_dropReturn line (String.ofList piece)
      rw [String.toList_ofList] at hpiece
      rw [Text.ofPieces, List.map_cons, List.map_cons, parseLines, parseLines, hpiece, ih]
      exact List.cons_ne_nil next pieces

theorem parse_eq_between (text : String) :
    Script.parse text = parseLines 1 (Text.between text.toList) :=
  parseLines_ofPieces 1 _

theorem parse_unlines {texts : List String} (h : ∀ text ∈ texts, '\n' ∉ text.toList) :
    Script.parse (Text.unlines texts) = parseLines 1 texts := by
  rw [parse_eq_between, Text.between_unlines h, parseLines_concat_ignored rfl]

namespace Text

def returned (cs : List Char) : List Char :=
  cs.flatMap fun c => if c = '\n' then ['\r', '\n'] else [c]

def withReturns (text : String) : String := String.ofList (returned text.toList)

theorem between_concat_lineFeed (cs : List Char) : between (cs ++ ['\n']) = between cs ++ [""] := by
  rw [between, List.splitOn_append_cons_self, List.map_append]
  rfl

end Text

theorem parseLines_between_returned (cs front : List Char) (h : '\n' ∉ front) (line : Nat) :
    parseLines line (Text.between (front ++ Text.returned cs)) =
      parseLines line (Text.between (front ++ cs)) := by
  -- The start of the line is carried along in `front`, and gets its return where the line ends.
  induction cs generalizing front line with
  | nil => rfl
  | cons c cs ih =>
    by_cases hc : c = '\n'
    · subst hc
      have hfront : '\n' ∉ front ++ ['\r'] := by simp [h]
      have hreturned : front ++ Text.returned ('\n' :: cs) =
          (front ++ ['\r']) ++ '\n' :: Text.returned cs := by
        simp [Text.returned]
      have hrest : parseLines (line + 1) (Text.between (Text.returned cs)) =
          parseLines (line + 1) (Text.between cs) := by
        simpa using ih [] (by simp) (line + 1)
      rw [hreturned, Text.between_line_append hfront, Text.between_line_append h, parseLines,
        parseLines, parseLine_concat_return, hrest]
    · have hfront : '\n' ∉ front ++ [c] := by simp [h, Ne.symm hc]
      have hreturned : front ++ Text.returned (c :: cs) = (front ++ [c]) ++ Text.returned cs := by
        simp [Text.returned, hc]
      rw [hreturned, ih (front ++ [c]) hfront, List.append_assoc, List.singleton_append]

theorem parse_withReturns (text : String) :
    Script.parse (Text.withReturns text) = Script.parse text := by
  rw [parse_eq_between, parse_eq_between, Text.withReturns, String.toList_ofList]
  exact parseLines_between_returned text.toList [] (by simp) 1

theorem parse_append_lineFeed (text : String) :
    Script.parse (text ++ "\n") = Script.parse text := by
  have hsplit : (text ++ "\n").toList = text.toList ++ ['\n'] := by simp
  rw [parse_eq_between, parse_eq_between, hsplit, Text.between_concat_lineFeed,
    parseLines_concat_ignored rfl]

/-- How lines end makes no difference to what a text is read as: neither to the script with its
numbers of lines, nor to the line and the word that are reported. -/
theorem parse_line_ends (text : String) :
    Script.parse (Text.withReturns text) = Script.parse text ∧
      Script.parse (text ++ "\n") = Script.parse text ∧
      ((∃ s, Script.parse text = .ok s) ∨
        ∃ line word, Script.parse text = .error (.unknownAction line word)) := by
  refine ⟨parse_withReturns text, parse_append_lineFeed text, ?_⟩
  cases hparse : Script.parse text with
  | ok s => exact .inl ⟨s, rfl⟩
  | error e =>
    obtain ⟨line, word, -, rfl⟩ := parseLines_eq_error_iff.mp hparse
    exact .inr ⟨line, word, rfl⟩

end MountScript
