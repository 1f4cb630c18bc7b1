import Mathlib.Algebra.Group.Nat.Defs
import MountScript.Proofs.Script.LineByLine

/-!
# Flag tokens

The letters of a flag token are read as a set. Their order, repetitions and the letters of no flag
make no difference, and the bits that come of them are those of the flags that are named. So tokens
that name the same flags can stand for each other, among them the one that writes every flag once.
-/

namespace MountScript

open Text (Runs IsWord fields)

namespace Flag

theorem mem_all (f : Flag) : f ∈ all := by
  cases f <;> decide

theorem exists_bit_eq (f : Flag) : ∃ k, f.bit = 2 ^ k := by
  cases f
  · exact ⟨1, rfl⟩
  · exact ⟨0, rfl⟩
  · exact ⟨2, rfl⟩
  · exact ⟨4, rfl⟩

theorem bit_injective {f g : Flag} (h : f.bit = g.bit) : f = g := by
  cases f <;> cases g <;> first | rfl | nomatch h

theorem testBit_bit (f : Flag) (i : Nat) : f.bit.testBit i = true ↔ f.bit = 2 ^ i := by
  obtain ⟨k, hk⟩ := f.exists_bit_eq
  rw [hk, Nat.testBit_two_pow, decide_eq_true_eq, Nat.pow_right_inj (by decide)]

theorem testBit_foldl_or (flags : List Flag) (n i : Nat) :
    (flags.foldl (fun n f => n ||| f.bit) n).testBit i = true ↔
      n.testBit i = true ∨ ∃ f ∈ flags, f.bit = 2 ^ i := by
  induction flags generalizing n with
  | nil => simp
  | cons f flags ih => simp [ih, Nat.testBit_or, testBit_bit, or_assoc]

end Flag

namespace Placement

theorem contains_single (p : Placement) (f : Flag) : p.contains (single f) = p.has f := by
  cases f <;> simp [contains, Flag.all, single, add, has, replace]

theorem bits_eq_or (p : Placement) :
    p.bits = (Flag.all.filter p.has).foldl (fun n f => n ||| f.bit) 0 := by
  rcases p with ⟨_ | _, _ | _, _ | _, _ | _⟩ <;> rfl

theorem testBit_bits (p : Placement) (i : Nat) :
    p.bits.testBit i = true ↔ ∃ f : Flag, f.bit = 2 ^ i ∧ p.has f = true := by
  rw [bits_eq_or, Flag.testBit_foldl_or]
  simp [Flag.mem_all, and_comm]

theorem bits_union (p q : Placement) : (p.union q).bits = p.bits ||| q.bits := by
  refine Nat.eq_of_testBit_eq fun i => ?_
  rw [Bool.eq_iff_iff, Nat.testBit_or, Bool.or_eq_true]
  simp only [testBit_bits, has_union, Bool.or_eq_true, and_or_left, exists_or]

theorem bits_add (p : Placement) (f : Flag) : (p.add f).bits = p.bits ||| f.bit := by
  have hunion : p.add f = p.union (single f) := by
    refine eq_of_has_eq fun g => ?_
    have hreplace : replace.has g = false := by cases g <;> rfl
    rw [has_union, single, has_add, has_add, hreplace, Bool.false_or]
  have hsingle : (single f).bits = f.bit := by cases f <;> rfl
  rw [hunion, bits_union, hsingle]

theorem contains_iff_bits (p q : Placement) :
    p.contains q = true ↔ p.bits &&& q.bits = q.bits := by
  have hflags : p.contains q = true ↔ ∀ f, q.has f = true → p.has f = true := by
    simp [contains, Flag.mem_all, Bool.or_eq_true, imp_iff_not_or]
  rw [hflags]
  constructor
  · intro h
    refine Nat.eq_of_testBit_eq fun i => ?_
    rw [Bool.eq_iff_iff, Nat.testBit_and, Bool.and_eq_true, and_iff_right_iff_imp]
    simp only [testBit_bits]
    exact fun ⟨f, hbit, hf⟩ => ⟨f, hbit, h f hf⟩
  · intro h f hf
    obtain ⟨k, hk⟩ := f.exists_bit_eq
    have hmask : (p.bits &&& q.bits).testBit k = true := by
      rw [h, testBit_bits]
      exact ⟨f, hk, hf⟩
    rw [Nat.testBit_and, Bool.and_eq_true, testBit_bits, testBit_bits] at hmask
    obtain ⟨⟨g, hg, hp⟩, -⟩ := hmask
    obtain rfl : g = f := Flag.bit_injective (hg.trans hk.symm)
    exact hp

structure Spells (p : Placement) (letters : List Char) : Prop where
  contains_iff : ∀ f : Flag, p.contains (single f) = true ↔ f.letter ∈ letters
  testBit_iff : ∀ i, p.bits.testBit i = true ↔ ∃ f : Flag, f.bit = 2 ^ i ∧ f.letter ∈ letters
  accepted : ofBits? p.bits = some p

theorem spells_ofLetters (letters : List Char) : (ofLetters letters).Spells letters where
  contains_iff f := by rw [contains_single, has_ofLetters]
  testBit_iff i := by simp only [testBit_bits, has_ofLetters]
  accepted := ofBits?_bits _

theorem ofLetters_eq_iff {first second : List Char} :
    ofLetters first = ofLetters second ↔ ∀ f : Flag, f.letter ∈ first ↔ f.letter ∈ second := by
  constructor
  · intro h f
    rw [← has_ofLetters, h, has_ofLetters]
  · intro h
    refine eq_of_has_eq fun f => ?_
    rw [Bool.eq_iff_iff, has_ofLetters, has_ofLetters, h]

theorem mem_flagString_iff (letters : List Char) (f : Flag) :
    f.letter ∈ (ofLetters letters).flagString.toList ↔ f.letter ∈ letters := by
  rw [toList_flagString]
  exact ofLetters_eq_iff.mp (ofLetters_letters _) f

end Placement

theorem Text.Runs.exists_second {cs first second : List Char} {words : List (List Char)}
    (h : Runs cs (first :: second :: words)) :
    ∃ front back, cs = front ++ second ++ back ∧ Runs front [first] ∧
      ∀ word, IsWord word → Runs (front ++ word ++ back) (first :: word :: words) := by
  cases h with
  | @next gap _ rest _ blank isWord ends more =>
    cases more with
    | @next gap' _ rest' _ blank' isWord' ends' more' =>
      have hgap : gap' ≠ [] := by
        rintro rfl
        obtain ⟨c, cs, rfl⟩ := List.exists_cons_of_ne_nil isWord'.1
        have hblank := ends c (by simp)
        have hword := isWord'.2 c List.mem_cons_self
        simp [hblank] at hword
      obtain ⟨c, gap', rfl⟩ := List.exists_cons_of_ne_nil hgap
      have hends : ∀ cs : List Char, ∀ x ∈ (c :: gap' ++ cs).head?, isBlank x = true := by
        intro cs x hx
        obtain rfl : c = x := by simpa using hx
        exact blank' c List.mem_cons_self
      refine ⟨gap ++ first ++ (c :: gap'), rest', by simp, ?_, fun word hword => ?_⟩
      · have hrest := hends []
        rw [List.append_nil] at hrest
        exact .next blank isWord hrest (.blanks blank')
      · have hsplit : gap ++ first ++ (c :: gap') ++ word ++ rest' =
            gap ++ first ++ (c :: gap' ++ word ++ rest') := by simp
        rw [hsplit]
        refine .next blank isWord ?_ (.next blank' hword ends' more')
        rw [List.append_assoc]
        exact hends _

structure IsFlagged (text : String) (action : Action) (letters : String)
    (operands : List String) : Prop where
  read : (classify text).isIgnored = false
  words : fields text = action.keyword :: ("-" ++ letters) :: operands

namespace IsFlagged

variable {text letters : String} {action : Action} {operands : List String}

theorem parseLine_eq (h : IsFlagged text action letters operands) (line : Nat) :
    parseLine line text = .ok (some ⟨action, .ofLetters letters.toList, operands, line⟩) := by
  have htoken : "-" ++ letters = String.ofList ('-' :: letters.toList) :=
    String.toList_injective (by simp)
  have hflags : splitFlags (("-" ++ letters) :: operands) = (.ofLetters letters.toList, operands) :=
    splitFlags_eq_iff.mpr (.inr ⟨letters.toList, by rw [htoken], rfl⟩)
  exact parseLine_eq_some_iff.mpr
    ⟨h.read, rfl, _, _, h.words, Action.ofKeyword?_keyword action, hflags⟩

theorem exists_around (h : IsFlagged text action letters operands) :
    ∃ front back, text = front ++ "-" ++ letters ++ back ∧ fields front = [action.keyword] ∧
      ∀ others : String, (∀ c ∈ others.toList, Text.isBlank c = false) →
        IsFlagged (front ++ "-" ++ others ++ back) action others operands := by
  have hruns := Text.fields_eq_iff.mp h.words
  rw [List.map_cons, List.map_cons] at hruns
  obtain ⟨front, back, hsplit, hfront, hword⟩ := hruns.exists_second
  have hkeyword : fields (String.ofList front) = [action.keyword] :=
    Text.fields_eq_iff.mpr (by simpa using hfront)
  obtain ⟨c, cs, rfl⟩ : ∃ c cs, front = c :: cs := by
    refine List.exists_cons_of_ne_nil ?_
    rintro rfl
    simp [fields, Text.charFields] at hkeyword
  refine ⟨String.ofList (c :: cs), String.ofList back, String.toList_injective (by simp [hsplit]),
    hkeyword, fun others unbroken => ?_⟩
  have hfields : fields (String.ofList (c :: cs) ++ "-" ++ others ++ String.ofList back) =
      action.keyword :: ("-" ++ others) :: operands :=
    Text.fields_eq_iff.mpr (by simpa using hword _ (isWord_dashed unbroken))
  have hhead : (String.ofList (c :: cs) ++ "-" ++ others ++ String.ofList back).toList.head? =
      text.toList.head? := by
    simp [hsplit]
  -- The token is not the first word, so the line still starts as it did.
  have hcommand : IsCommand (String.ofList (c :: cs) ++ "-" ++ others ++ String.ofList back) := by
    obtain ⟨notComment, notIndented, -⟩ := isCommand_iff_head.mp (isCommand_iff.mpr h.read)
    rw [isCommand_iff_head, hhead, hfields]
    exact ⟨notComment, notIndented, by simp⟩
  exact ⟨isCommand_iff.mp hcommand, hfields⟩

theorem parseLine_eq_iff {other others : String} (h : IsFlagged text action letters operands)
    (ho : IsFlagged other action others operands) (line : Nat) :
    parseLine line other = parseLine line text ↔
      ∀ f : Flag, f.letter ∈ others.toList ↔ f.letter ∈ letters.toList := by
  rw [ho.parseLine_eq, h.parseLine_eq, ← Placement.ofLetters_eq_iff]
  simp

/-- A flag token is read as the set of its letters that name a flag. Two lines that differ in the
token alone are read alike exactly if their tokens name the same flags, and the token can be written
anew with the letters of the placement that it was read as. -/
theorem read_as_set (h : IsFlagged text action letters operands) :
    ∃ p : Placement, p.Spells letters.toList ∧
      (∀ line, parseLine line text = .ok (some ⟨action, p, operands, line⟩)) ∧
      (∀ other others, IsFlagged other action others operands → ∀ line,
        (parseLine line other = parseLine line text ↔
          ∀ f : Flag, f.letter ∈ others.toList ↔ f.letter ∈ letters.toList)) ∧
      ∃ front back, text = front ++ "-" ++ letters ++ back ∧ fields front = [action.keyword] ∧
        IsFlagged (front ++ "-" ++ p.flagString ++ back) action p.flagString operands ∧
        ∀ line, parseLine line (front ++ "-" ++ p.flagString ++ back) = parseLine line text := by
  obtain ⟨front, back, hsplit, hkeyword, hrewrite⟩ := h.exists_around
  have hagain := hrewrite _ (Placement.flagString_not_blank (.ofLetters letters.toList))
  exact ⟨.ofLetters letters.toList, Placement.spells_ofLetters _, h.parseLine_eq,
    fun _ _ ho line => h.parseLine_eq_iff ho line, front, back, hsplit, hkeyword, hagain,
    fun line => (h.parseLine_eq_iff hagain line).mpr (Placement.mem_flagString_iff _)⟩

theorem read_as_set_noisy :
    let text := "\tmount\t-béz😀C-bbC \t#s -c"
    let letters := "béz😀C-bbC"
    let other := "mount -Cb #s -c"
    IsFlagged text .mount letters ["#s", "-c"] ∧ IsFlagged other .mount "Cb" ["#s", "-c"] ∧
      ∃ p : Placement, p.Spells letters.toList ∧
        (∀ line, parseLine line text = .ok (some ⟨.mount, p, ["#s", "-c"], line⟩)) ∧
        (∀ line, parseLine line other = parseLine line text) ∧
        ∃ front back, text = front ++ "-" ++ letters ++ back ∧ fields front = ["mount"] ∧
          IsFlagged (front ++ "-" ++ p.flagString ++ back) .mount p.flagString ["#s", "-c"] ∧
          ∀ line, parseLine line (front ++ "-" ++ p.flagString ++ back) = parseLine line text := by
  intro text letters other
  have h : IsFlagged text .mount letters ["#s", "-c"] := ⟨by decide +kernel, by decide +kernel⟩
  have ho : IsFlagged other .mount "Cb" ["#s", "-c"] := ⟨by decide +kernel, by decide +kernel⟩
  have hsame : ∀ f : Flag, f.letter ∈ "Cb".toList ↔ f.letter ∈ letters.toList := by
    intro f
    cases f <;> decide +kernel
  obtain ⟨p, hspells, hread, hothers, hagain⟩ := read_as_set h
  exact ⟨h, ho, p, hspells, hread, fun line => (hothers other "Cb" ho line).mpr hsame, hagain⟩

end IsFlagged

end MountScript
