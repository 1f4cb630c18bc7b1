import MountScript.Proofs.Text

/-!
# Scripts from the bytes of a stream

What is parsed from a stream depends on the bytes that it gives and on how it ends, and not on how
the bytes are cut into reads. The lines are taken in order: the first one that cannot be decoded or
is no operation is the error; a failed read comes after the last line that was ended before it. If
the bytes are those of a text and no read failed, the script is the one parsed from that text.
-/

namespace MountScript

namespace ReadEvent

def received : List ReadEvent → List UInt8
  | [] => []
  | .bytes chunk :: events => chunk ++ received events
  | .interrupted :: events => received events
  | .failed _ :: _ => []

def failure? : List ReadEvent → Option ReadFailure
  | [] => none
  | .failed cause :: _ => some cause
  | _ :: events => failure? events

end ReadEvent

open ReadEvent (received failure?)

def readLine (line : Nat) (ended : Bool) (bytes : List UInt8) :
    Except ParseError (Option Operation) :=
  match decodeUtf8? bytes with
  | none => .error (.read line .invalidUtf8)
  | some text =>
    parseLine line (if ended then String.ofList (Text.dropReturn text.toList) else text)

def readLines (line : Nat) (pieces : List (List UInt8)) :
    List (Except ParseError (Option Operation)) :=
  (pieces.zipIdx line).map fun piece => readLine piece.2 true piece.1

def readRest (line : Nat) (rest : List UInt8) :
    Option ReadFailure → List (Except ParseError (Option Operation))
  | some cause => [.error (.read line cause)]
  | none => if rest.isEmpty then [] else [readLine line false rest]

def collect {ε α : Type} : List (Except ε (Option α)) → Except ε (List α)
  | [] => .ok []
  | .error e :: _ => .error e
  | .ok found :: results => (collect results).map (found.toList ++ ·)

def Script.ofBytes (bytes : List UInt8) (failure : Option ReadFailure) :
    Except ParseError Script :=
  let pieces := bytes.splitOn lineFeed
  collect (readLines 1 pieces.dropLast ++
    readRest (bytes.count lineFeed + 1) (pieces.getLastD []) failure)

theorem collect_append {ε α : Type} (first second : List (Except ε (Option α))) :
    collect (first ++ second) = do return (← collect first) ++ (← collect second) := by
  induction first with
  | nil =>
    rw [List.nil_append, collect]
    rcases collect second with _ | _ <;> rfl
  | cons result first ih =>
    cases result with
    | error e => rfl
    | ok found =>
      rw [List.cons_append, collect, collect, ih]
      rcases collect first with _ | _
      · rfl
      · rcases collect second with _ | more
        · rfl
        · simp [Except.map, bind, Except.bind, pure, Except.pure]

def operation? (line : Nat) (text : String) : Option Operation :=
  match parseLine line text with
  | .ok found => found
  | .error _ => none

namespace Parser

def after (p : Parser) (lines : Nat) (found : Script) : Parser :=
  ⟨p.linesRead + lines, p.operations ++ found.toArray⟩

theorem after_after (p : Parser) (m n : Nat) (first second : Script) :
    (p.after m first).after n second = p.after (m + n) (first ++ second) := by
  simp [after, Nat.add_assoc]

theorem finish_after (p : Parser) (lines : Nat) (found : Script) :
    (p.after lines found).finish = p.finish ++ found := by
  simp [after, finish]

theorem feed_eq (p : Parser) (text : String) :
    p.feed text = ((parseLine (p.linesRead + 1) text).map fun _ => (),
      p.after 1 (operation? (p.linesRead + 1) text).toList) := by
  rw [feed, operation?]
  rcases parseLine (p.linesRead + 1) text with e | _ | op <;> simp [Except.map, after]

theorem feedBytes_eq (p : Parser) (ended : Bool) (bytes : List UInt8) :
    p.feedBytes ended bytes =
      (readLine (p.linesRead + 1) ended bytes).map fun found => p.after 1 found.toList := by
  rw [feedBytes, readLine]
  cases decodeUtf8? bytes with
  | none => rfl
  | some text =>
    dsimp only
    rw [feed_eq, operation?]
    rcases parseLine (p.linesRead + 1) _ with e | found <;> rfl

theorem feedEnded_eq (p : Parser) (pieces : List (List UInt8)) :
    p.feedEnded pieces =
      (collect (readLines (p.linesRead + 1) pieces)).map (p.after pieces.length) := by
  induction pieces generalizing p with
  | nil => simp [feedEnded, readLines, collect, Except.map, after, pure, Except.pure]
  | cons piece pieces ih =>
    rw [feedEnded, List.foldlM_cons, feedBytes_eq, readLines, List.zipIdx_cons, List.map_cons]
    rcases readLine (p.linesRead + 1) true piece with e | found
    · rfl
    · change (p.after 1 found.toList).feedEnded pieces =
        ((collect (readLines (p.linesRead + 1 + 1) pieces)).map (found.toList ++ ·)).map
          (p.after (pieces.length + 1))
      rw [ih]
      change (collect (readLines (p.linesRead + 1 + 1) pieces)).map _ = _
      rcases collect (readLines (p.linesRead + 1 + 1) pieces) with e | more
      · rfl
      · simp only [Except.map, after_after, Nat.add_comm 1]

theorem feedEnded_append (p : Parser) (first second : List (List UInt8)) :
    p.feedEnded (first ++ second) = (p.feedEnded first).bind (·.feedEnded second) :=
  List.foldlM_append

def feedRest (p : Parser) (rest : List UInt8) : Option ReadFailure → Except ParseError Parser
  | some cause => .error (.read (p.linesRead + 1) cause)
  | none => if rest.isEmpty then .ok p else p.feedBytes false rest

def feedWhole (p : Parser) (bytes : List UInt8) (failure : Option ReadFailure) :
    Except ParseError Parser :=
  (p.feedEnded (bytes.splitOn lineFeed).dropLast).bind
    (·.feedRest ((bytes.splitOn lineFeed).getLastD []) failure)

theorem feedWhole_append (p : Parser) (first second : List UInt8) (failure : Option ReadFailure) :
    p.feedWhole (first ++ second) failure =
      (p.feedEnded (first.splitOn lineFeed).dropLast).bind
        (·.feedWhole ((first.splitOn lineFeed).getLastD [] ++ second) failure) := by
  simp only [feedWhole]
  rw [Text.splitOn_append]
  generalize (first.splitOn lineFeed).getLastD [] ++ second = joined
  have hne := List.splitOn_ne_nil lineFeed joined
  have hlast : ((first.splitOn lineFeed).dropLast ++ joined.splitOn lineFeed).getLastD [] =
      (joined.splitOn lineFeed).getLastD [] := by
    simp [List.getLastD_eq_getLast?, List.getLast?_eq_some_getLast hne]
  rw [List.dropLast_append_of_ne_nil hne, feedEnded_append, hlast]
  cases p.feedEnded (first.splitOn lineFeed).dropLast <;> rfl

theorem feedWhole_of_not_mem {bytes : List UInt8} (h : lineFeed ∉ bytes) (p : Parser)
    (failure : Option ReadFailure) : p.feedWhole bytes failure = p.feedRest bytes failure := by
  rw [feedWhole, List.splitOn_eq_singleton h]
  rfl

theorem lineFeed_not_mem_getLastD (bytes : List UInt8) :
    lineFeed ∉ (bytes.splitOn lineFeed).getLastD [] := by
  have hne := List.splitOn_ne_nil lineFeed bytes
  rw [List.getLastD_eq_getLast?, List.getLast?_eq_some_getLast hne]
  exact Text.not_mem_piece (List.getLast_mem hne)

/-- The unfinished line that is kept between two reads is all that the later reads need to know. -/
theorem feedReads_eq {pending : List UInt8} {events : List ReadEvent} (p : Parser)
    (unfinished : lineFeed ∉ pending) (nonempty : ∀ chunk, .bytes chunk ∈ events → chunk ≠ []) :
    p.feedReads pending events = p.feedWhole (pending ++ received events) (failure? events) := by
  induction events generalizing p pending with
  | nil =>
    rw [received, List.append_nil, feedWhole_of_not_mem unfinished]
    rfl
  | cons event events ih =>
    have hlater : ∀ chunk, .bytes chunk ∈ events → chunk ≠ [] := fun chunk hchunk =>
      nonempty chunk (List.mem_cons_of_mem _ hchunk)
    cases event with
    | interrupted => exact ih p unfinished hlater
    | failed cause =>
      rw [received, List.append_nil, feedWhole_of_not_mem unfinished]
      rfl
    | bytes chunk =>
      have hchunk : ¬chunk.isEmpty = true := by simpa using nonempty chunk List.mem_cons_self
      rw [feedReads, if_neg hchunk, received, ← List.append_assoc, feedWhole_append]
      refine congrArg (Except.bind _) (funext fun q => ?_)
      exact ih q (lineFeed_not_mem_getLastD _) hlater

end Parser

theorem feedRest_eq (p : Parser) (rest : List UInt8) (failure : Option ReadFailure) :
    (p.feedRest rest failure).map Parser.finish =
      (collect (readRest (p.linesRead + 1) rest failure)).map (p.finish ++ ·) := by
  cases failure with
  | some cause => rfl
  | none =>
    rw [Parser.feedRest, readRest]
    split
    · simp [collect, Except.map]
    · rw [Parser.feedBytes_eq]
      rcases readLine (p.linesRead + 1) false rest with e | found
      · rfl
      · simp [collect, Except.map, Parser.finish_after]

theorem feedWhole_start_eq (bytes : List UInt8) (failure : Option ReadFailure) :
    (Parser.start.feedWhole bytes failure).map Parser.finish = Script.ofBytes bytes failure := by
  have hcount : (bytes.splitOn lineFeed).dropLast.length = bytes.count lineFeed := by
    rw [List.length_dropLast, Text.length_splitOn, Nat.add_sub_cancel]
  rw [Parser.feedWhole, Parser.feedEnded_eq, Script.ofBytes, collect_append, hcount]
  change (((collect (readLines 1 _)).map _).bind _).map _ = _
  rcases collect (readLines 1 (bytes.splitOn lineFeed).dropLast) with e | found
  · rfl
  · have hrest := feedRest_eq (Parser.start.after (bytes.count lineFeed) found)
      ((bytes.splitOn lineFeed).getLastD []) failure
    have hline : (Parser.start.after (bytes.count lineFeed) found).linesRead =
        bytes.count lineFeed := Nat.zero_add _
    have hfound : (Parser.start.after (bytes.count lineFeed) found).finish = found :=
      Parser.finish_after Parser.start _ found
    rw [hline, hfound] at hrest
    exact hrest

theorem collect_zipIdx_parseLine (line : Nat) (texts : List String) :
    collect ((texts.zipIdx line).map fun text => parseLine text.2 text.1) =
      parseLines line texts := by
  induction texts generalizing line with
  | nil => rfl
  | cons text texts ih =>
    rw [List.zipIdx_cons, List.map_cons, parseLines]
    dsimp only
    rcases parseLine line text with e | found
    · rfl
    · rw [collect, ih]

theorem readLine_encode (line : Nat) (ended : Bool) (cs : List Char) :
    readLine line ended (Text.encode cs) =
      parseLine line (String.ofList (if ended then Text.dropReturn cs else cs)) := by
  have hdecode : decodeUtf8? (Text.encode cs) = some (String.ofList cs) :=
    Text.decodeUtf8?_eq_some_iff.mpr (by rw [String.toList_ofList])
  rw [readLine, hdecode]
  dsimp only
  rw [String.toList_ofList]
  split <;> rfl

theorem ofPieces_concat (pieces : List (List Char)) (rest : List Char) :
    Text.ofPieces (pieces ++ [rest]) =
      pieces.map Text.dropReturn ++ if rest.isEmpty then [] else [rest] := by
  induction pieces with
  | nil => rfl
  | cons piece pieces ih =>
    rw [List.map_cons, List.cons_append, List.cons_append, ← ih]
    cases pieces <;> rfl

theorem readRest_encode (line : Nat) (rest : List Char) :
    readRest line (Text.encode rest) none =
      (((if rest.isEmpty then [] else [rest]).map String.ofList).zipIdx line).map fun text =>
        parseLine text.2 text.1 := by
  rw [readRest, Text.isEmpty_encode]
  split
  · rfl
  · rw [readLine_encode]
    rfl

theorem ofBytes_encode (text : String) :
    Script.ofBytes (Text.encode text.toList) none = Script.parse text := by
  obtain ⟨pieces, rest, hp⟩ : ∃ pieces rest, text.toList.splitOn '\n' = pieces ++ [rest] :=
    ⟨_, _, (List.dropLast_concat_getLast (List.splitOn_ne_nil '\n' text.toList)).symm⟩
  have hsplit : (Text.encode text.toList).splitOn lineFeed =
      pieces.map Text.encode ++ [Text.encode rest] := by
    rw [Text.splitOn_encode, hp, List.map_append]
    rfl
  have hcount : (Text.encode text.toList).count lineFeed = pieces.length := by
    have hlength := Text.length_splitOn lineFeed (Text.encode text.toList)
    simp only [hsplit, List.length_append, List.length_map, List.length_singleton] at hlength
    omega
  have hlines : readLines 1 (pieces.map Text.encode) =
      (((pieces.map Text.dropReturn).map String.ofList).zipIdx 1).map fun text =>
        parseLine text.2 text.1 := by
    simp [readLines, List.zipIdx_map, readLine_encode]
  rw [Script.ofBytes, Script.parse, ← collect_zipIdx_parseLine, Text.lines, Text.charLines, hp,
    ofPieces_concat, List.map_append, List.zipIdx_append, List.map_append, ← hlines]
  simp only [hsplit, hcount, List.dropLast_concat, List.getLastD_concat, List.length_map]
  rw [readRest_encode, Nat.add_comm 1]

/-- What is parsed from a stream is what is parsed from the bytes that it gives before it ends or
fails, put in one row; and if these are the bytes of a text and no read fails, it is what is parsed
from the text. -/
theorem parseStream_eq {events : List ReadEvent}
    (nonempty : ∀ chunk, .bytes chunk ∈ events → chunk ≠ []) :
    Script.parseStream events = Script.ofBytes (received events) (failure? events) ∧
      (failure? events = none → ∀ text, decodeUtf8? (received events) = some text →
        Script.parseStream events = Script.parse text) := by
  have hstream : Script.parseStream events =
      Script.ofBytes (received events) (failure? events) := by
    rw [Script.parseStream, Parser.feedReads_eq Parser.start List.not_mem_nil nonempty,
      List.nil_append, feedWhole_start_eq]
  refine ⟨hstream, fun hend text htext => ?_⟩
  rw [hstream, hend, Text.decodeUtf8?_eq_some_iff.mp htext, ofBytes_encode]

theorem parseStream_eq_cut :
    let events : List ReadEvent := [.bytes [0x63, 0x64, 0x20, 0xc3], .interrupted, .bytes [0xa9],
      .bytes [0x0d], .bytes [0x0a, 0x2e, 0x20, 0x61], .interrupted]
    (∀ chunk, .bytes chunk ∈ events → chunk ≠ []) ∧ failure? events = none ∧
      decodeUtf8? (received events) = some "cd é\r\n. a" ∧
      Script.parseStream events = Script.ofBytes (received events) (failure? events) ∧
      Script.parseStream events = Script.parse "cd é\r\n. a" := by
  intro events
  have nonempty : ∀ chunk, .bytes chunk ∈ events → chunk ≠ [] := by simp [events]
  have hend : failure? events = none := rfl
  have htext : decodeUtf8? (received events) = some "cd é\r\n. a" :=
    Text.decodeUtf8?_eq_some_iff.mpr (by decide +kernel)
  obtain ⟨hbytes, hsame⟩ := parseStream_eq nonempty
  exact ⟨nonempty, hend, htext, hbytes, hsame hend _ htext⟩

end MountScript
