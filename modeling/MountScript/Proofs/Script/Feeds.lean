import MountScript.Proofs.Script.Chunks
import MountScript.Proofs.Script.LineByLine

/-!
# Feeds one after another

A parser goes on after errors. The answer to a feed depends on its text and its number alone; a bad
text is counted and leaves what was found before as it was. So in the end the parser has the
operations of the commands that were accepted. If all texts were accepted and each is one line, that
is the script parsed from the lines as one text.
-/

namespace MountScript

structure Feed where
  text : String
  answer : Except ParseError Unit
  left : Parser

namespace Feed

/-- The feed fails as the line with this number does, and is counted. -/
structure IsNumber (feed : Feed) (number : Nat) : Prop where
  fails_iff : ∀ e, feed.answer = .error e ↔ parseLine number feed.text = .error e
  linesRead_eq : feed.left.linesRead = number

def Kept (feed : Feed) : Prop := feed.answer = .ok () ∧ IsCommand feed.text

instance : DecidablePred Kept := fun _ => inferInstanceAs (Decidable (_ ∧ _))

structure Gives (numbered : Feed × Nat) (op : Operation) : Prop where
  parseLine_eq : parseLine numbered.2 numbered.1.text = .ok (some op)
  line_eq : op.line = numbered.2

end Feed

def operationsFrom (line : Nat) (texts : List String) : Script :=
  (texts.zipIdx line).filterMap fun numbered => operation? numbered.2 numbered.1

theorem operationsFrom_cons (line : Nat) (text : String) (texts : List String) :
    operationsFrom line (text :: texts) =
      (operation? line text).toList ++ operationsFrom (line + 1) texts := by
  rw [operationsFrom, List.zipIdx_cons, List.filterMap_cons]
  cases operation? line text <;> rfl

namespace Parser

def feeds (p : Parser) : List String → List Feed
  | [] => []
  | text :: texts => ⟨text, (p.feed text).1, (p.feed text).2⟩ :: (p.feed text).2.feeds texts

def feedAll (p : Parser) (texts : List String) : Parser :=
  texts.foldl (fun p text => (p.feed text).2) p

theorem feeds_cons (p : Parser) (text : String) (texts : List String) :
    p.feeds (text :: texts) =
      ⟨text, (parseLine (p.linesRead + 1) text).map fun _ => (),
        p.after 1 (operation? (p.linesRead + 1) text).toList⟩ ::
      (p.after 1 (operation? (p.linesRead + 1) text).toList).feeds texts := by
  rw [feeds, feed_eq]

theorem map_text_feeds (p : Parser) (texts : List String) :
    (p.feeds texts).map Feed.text = texts := by
  induction texts generalizing p with
  | nil => rfl
  | cons text texts ih => rw [feeds, List.map_cons, ih]

theorem feedAll_eq (p : Parser) (texts : List String) :
    p.feedAll texts = p.after texts.length (operationsFrom (p.linesRead + 1) texts) := by
  induction texts generalizing p with
  | nil => simp [feedAll, operationsFrom, after]
  | cons text texts ih =>
    have hnext : p.feedAll (text :: texts) = (p.feed text).2.feedAll texts := rfl
    rw [hnext, feed_eq, ih, after_after, operationsFrom_cons, List.length_cons, Nat.add_comm 1]
    rfl

theorem isNumber_of_mem_feeds {p : Parser} {texts : List String} {feed : Feed} {number : Nat}
    (h : (feed, number) ∈ (p.feeds texts).zipIdx (p.linesRead + 1)) : feed.IsNumber number := by
  induction texts generalizing p with
  | nil => simp [feeds] at h
  | cons text texts ih =>
    rw [feeds_cons, List.zipIdx_cons, List.mem_cons] at h
    rcases h with heq | h
    · obtain ⟨rfl, rfl⟩ := Prod.mk.inj heq
      refine ⟨fun e => ?_, rfl⟩
      cases parseLine (p.linesRead + 1) text <;> simp [Except.map]
    · exact ih h

theorem gives_operationsFrom (p : Parser) (texts : List String) :
    List.Forall₂ Feed.Gives
      (((p.feeds texts).zipIdx (p.linesRead + 1)).filter fun numbered => numbered.1.Kept)
      (operationsFrom (p.linesRead + 1) texts) := by
  induction texts generalizing p with
  | nil => exact .nil
  | cons text texts ih =>
    have reads := readsAs_parseLine (p.linesRead + 1) text
    rw [feeds_cons, operationsFrom_cons, List.zipIdx_cons, List.filter_cons, operation?]
    generalize hparse : parseLine (p.linesRead + 1) text = found at reads ⊢
    cases reads with
    | ignored silent =>
      rw [if_neg (by simp [Feed.Kept, silent])]
      exact ih (p.after 1 [])
    | @operation op command denotes =>
      rw [if_pos (by simp [Feed.Kept, command, Except.map])]
      exact .cons ⟨hparse, denotes.line_eq⟩ (ih (p.after 1 [op]))
    | unknown command first noKeyword =>
      rw [if_neg (by simp [Feed.Kept, Except.map])]
      exact ih (p.after 1 [])

theorem parseLines_eq_ok_iff_feeds (p : Parser) (texts : List String) (s : Script) :
    parseLines (p.linesRead + 1) texts = .ok s ↔
      (∀ feed ∈ p.feeds texts, feed.answer = .ok ()) ∧
        s = operationsFrom (p.linesRead + 1) texts := by
  induction texts generalizing p s with
  | nil => simp [parseLines, feeds, operationsFrom, eq_comm]
  | cons text texts ih =>
    rw [feeds_cons, operationsFrom_cons, List.forall_mem_cons, parseLines_cons_eq_ok_iff, operation?]
    cases parseLine (p.linesRead + 1) text with
    | error e => simp [Except.map]
    | ok found =>
      have hrest : ∀ rest, parseLines (p.linesRead + 1 + 1) texts = .ok rest ↔
          (∀ feed ∈ (p.after 1 found.toList).feeds texts, feed.answer = .ok ()) ∧
            rest = operationsFrom (p.linesRead + 1 + 1) texts :=
        ih (p.after 1 found.toList)
      simp [Except.map, hrest]

/-- Of all feeds, also of those after an error, the one with a number fails as the line with that
number does, with the same error, and is counted. What the parser has in the end are the operations
of the feeds that were kept, in order and with their numbers. For texts that are one line each, the
lines as one text are a script exactly if no feed failed, and that script is what the parser has. -/
theorem feeds_survive_errors (texts : List String) :
    let feeds := start.feeds texts
    let script := (start.feedAll texts).finish
    feeds.map Feed.text = texts ∧
      (∀ feed number, (feed, number) ∈ feeds.zipIdx 1 → feed.IsNumber number) ∧
      List.Forall₂ Feed.Gives ((feeds.zipIdx 1).filter fun numbered => numbered.1.Kept) script ∧
      ((∀ text ∈ texts, '\n' ∉ text.toList) → ∀ s, Script.parse (Text.unlines texts) = .ok s ↔
        (∀ feed ∈ feeds, feed.answer = .ok ()) ∧ s = script) := by
  intro feeds script
  have hscript : script = operationsFrom 1 texts := by
    change (start.feedAll texts).finish = _
    rw [feedAll_eq, finish_after]
    rfl
  rw [hscript]
  refine ⟨map_text_feeds start texts, fun _ _ h => isNumber_of_mem_feeds h,
    gives_operationsFrom start texts, fun single s => ?_⟩
  rw [parse_unlines single]
  exact parseLines_eq_ok_iff_feeds start texts s

theorem feeds_survive_errors_returned :
    let texts := ["# tree", "cd /usr\r", "bind -b /x /y\r\r"]
    (∀ text ∈ texts, '\n' ∉ text.toList) ∧
      (∀ feed ∈ start.feeds texts, feed.answer = .ok ()) ∧
      Script.parse (Text.unlines texts) = .ok (start.feedAll texts).finish := by
  intro texts
  have single : ∀ text ∈ texts, '\n' ∉ text.toList := by decide +kernel
  have accepted : ∀ feed ∈ start.feeds texts, feed.answer = .ok () := by decide +kernel
  obtain ⟨-, -, -, hparse⟩ := feeds_survive_errors texts
  exact ⟨single, accepted, (hparse single _).mpr ⟨accepted, rfl⟩⟩

-- A text with a line feed in it is one feed, but not one line.
example :
    let texts := ["# tree", "bindd /a", "", "cd /usr", "cd\n/b"]
    (start.feeds texts).map Feed.answer =
        [.ok (), .error (.unknownAction 2 "bindd"), .ok (), .ok (), .ok ()] ∧
      (start.feedAll texts).finish =
        [⟨.changeDir, .replace, ["/usr"], 4⟩, ⟨.changeDir, .replace, ["/b"], 5⟩] := by
  decide +kernel

end Parser

end MountScript
