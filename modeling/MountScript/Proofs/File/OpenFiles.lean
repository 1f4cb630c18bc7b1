import Mathlib.Data.List.Nodup
import MountScript.File.Build

/-!
# The open files of a loader

A loader of files refuses an include for one of five reasons, which it looks for in a fixed order,
or it opens a file. So its open files are all different, the top-level file is not among them, and
there are never more than its limit allows. This holds whatever is entered and left, and whatever
becomes of the files meanwhile.
-/

namespace MountScript
namespace FileLoader

def Holds (l : FileLoader) (file : String) : Prop := l.root = some file ∨ file ∈ l.stack

/-- Why an include is refused. Each reason counts only if none before it does. -/
inductive Refuses (l : FileLoader) (operand : String) : IncludeError → Prop
  | unknown {cause : ReadFailure} (lost : l.files.canonical (l.resolve operand) = .error cause) :
      Refuses l operand (.read (l.resolve operand) cause)
  | cycle {file : String} (found : l.files.canonical (l.resolve operand) = .ok file)
      (held : l.Holds file) : Refuses l operand (.cycle file)
  | full {file : String} (found : l.files.canonical (l.resolve operand) = .ok file)
      (free : ¬l.Holds file) (full : l.maxDepth ≤ l.depth) :
      Refuses l operand (.depthExceeded l.maxDepth)
  | unreadable {file : String} {cause : ReadFailure}
      (found : l.files.canonical (l.resolve operand) = .ok file) (free : ¬l.Holds file)
      (room : l.depth < l.maxDepth) (lost : l.files.reads file = .error cause) :
      Refuses l operand (.read file cause)
  | malformed {file : String} {events : List ReadEvent} {cause : ParseError}
      (found : l.files.canonical (l.resolve operand) = .ok file) (free : ¬l.Holds file)
      (room : l.depth < l.maxDepth) (opened : l.files.reads file = .ok events)
      (bad : Script.parseStream events = .error cause) : Refuses l operand (.parse file cause)

structure Opens (l : FileLoader) (operand file : String) (script : Script) : Prop where
  found : l.files.canonical (l.resolve operand) = .ok file
  free : ¬l.Holds file
  room : l.depth < l.maxDepth
  parsed : l.files.parseFile file = .ok script

variable {l : FileLoader} {operand file : String} {script : Script} {cause : IncludeError}

theorem look_of_refuses (h : l.Refuses operand cause) : l.look operand = .error cause := by
  rw [look]
  cases h with
  | unknown lost => rw [lost]
  | cycle found held =>
    rw [found]
    exact if_pos held
  | full found free full =>
    rw [found]
    exact (if_neg free).trans (if_pos full)
  | unreadable found free room lost =>
    rw [found]
    refine (if_neg free).trans ((if_neg (Nat.not_le.mpr room)).trans ?_)
    rw [lost]
  | malformed found free room opened bad =>
    rw [found]
    refine (if_neg free).trans ((if_neg (Nat.not_le.mpr room)).trans ?_)
    rw [opened]
    dsimp only
    rw [bad]

theorem look_of_opens (h : l.Opens operand file script) : l.look operand = .ok (file, script) := by
  obtain ⟨events, opened, parsed⟩ := FileSystem.parseFile_eq_ok_iff.mp h.parsed
  rw [look, h.found]
  refine (if_neg h.free).trans ((if_neg (Nat.not_le.mpr h.room)).trans ?_)
  rw [opened]
  dsimp only
  rw [parsed]

theorem refuses_or_opens (l : FileLoader) (operand : String) :
    (∃ cause, l.Refuses operand cause) ∨ ∃ file script, l.Opens operand file script := by
  cases found : l.files.canonical (l.resolve operand) with
  | error cause => exact .inl ⟨_, .unknown found⟩
  | ok file =>
    by_cases held : l.Holds file
    · exact .inl ⟨_, .cycle found held⟩
    rcases Nat.lt_or_ge l.depth l.maxDepth with room | full
    · cases opened : l.files.reads file with
      | error cause => exact .inl ⟨_, .unreadable found held room opened⟩
      | ok events =>
        cases parsed : Script.parseStream events with
        | error cause => exact .inl ⟨_, .malformed found held room opened parsed⟩
        | ok script =>
          have whole := FileSystem.parseFile_eq_ok_iff.mpr ⟨events, opened, parsed⟩
          exact .inr ⟨file, script, found, held, room, whole⟩
    · exact .inl ⟨_, .full found held full⟩

theorem enter_of_refuses (h : l.Refuses operand cause) :
    Loader.enter operand l = (.error cause, l) := by
  simp only [Loader.enter, enter, look_of_refuses h]

theorem enter_of_opens (h : l.Opens operand file script) :
    Loader.enter operand l = (.ok script, { l with stack := file :: l.stack }) := by
  simp only [Loader.enter, enter, look_of_opens h]

theorem exists_opens_of_enter {entered : FileLoader}
    (h : Loader.enter operand l = (.ok script, entered)) :
    ∃ file, l.Opens operand file script ∧ entered = { l with stack := file :: l.stack } := by
  rcases l.refuses_or_opens operand with ⟨cause, refuses⟩ | ⟨file, found, opens⟩
  · nomatch (enter_of_refuses refuses).symm.trans h
  · obtain ⟨hfound, rfl⟩ := Prod.mk.inj ((enter_of_opens opens).symm.trans h)
    obtain rfl := Except.ok.inj hfound
    exact ⟨file, opens, rfl⟩

theorem enter_eq_error_iff :
    (Loader.enter operand l).1 = .error cause ↔ l.Refuses operand cause := by
  rcases l.refuses_or_opens operand with ⟨reason, refuses⟩ | ⟨file, script, opens⟩
  · rw [enter_of_refuses refuses]
    constructor
    · intro same
      exact Except.error.inj same ▸ refuses
    · intro other
      have same := (look_of_refuses refuses).symm.trans (look_of_refuses other)
      rw [Except.error.inj same]
  · rw [enter_of_opens opens]
    constructor
    · intro same
      cases same
    · intro refuses
      cases (look_of_opens opens).symm.trans (look_of_refuses refuses)

structure Sound (l : FileLoader) : Prop where
  nodup : l.stack.Nodup
  apart : ∀ file ∈ l.stack, l.root ≠ some file
  within : l.depth ≤ l.maxDepth

namespace Sound

theorem enter (h : l.Sound) (operand : String) : (Loader.enter operand l).2.Sound := by
  rcases l.refuses_or_opens operand with ⟨reason, refuses⟩ | ⟨file, script, opens⟩
  · rw [enter_of_refuses refuses]
    exact h
  · rw [enter_of_opens opens]
    obtain ⟨top, closed⟩ := not_or.mp opens.free
    refine ⟨List.nodup_cons.mpr ⟨closed, h.nodup⟩, ?_, opens.room⟩
    exact List.forall_mem_cons.mpr ⟨top, h.apart⟩

theorem leave (h : l.Sound) (operand : String) : (Loader.leave operand l).Sound where
  nodup := h.nodup.tail
  apart file opened := h.apart file (List.mem_of_mem_tail opened)
  within := Nat.le_trans l.stack.tail_sublist.length_le h.within

end Sound

def on (l : FileLoader) (files : FileSystem) : FileLoader := { l with files }

inductive Use
  | enter (files : FileSystem) (operand : String)
  | leave (operand : String)

theorem Sound.on (h : l.Sound) (files : FileSystem) : (l.on files).Sound :=
  ⟨h.nodup, h.apart, h.within⟩

def use (l : FileLoader) : Use → FileLoader
  | .enter files operand => (Loader.enter operand (l.on files)).2
  | .leave operand => Loader.leave operand l

def useAll (l : FileLoader) (uses : List Use) : FileLoader := uses.foldl use l

def fresh (files : FileSystem) (s : Settings) : Option String → FileLoader
  | none => ofSettings files s
  | some path => (ofSettings files s).withRoot path

theorem Sound.use (h : l.Sound) (u : Use) : (l.use u).Sound := by
  cases u with
  | enter files operand => exact (h.on files).enter operand
  | leave operand => exact h.leave operand

theorem Sound.useAll (h : l.Sound) (uses : List Use) : (l.useAll uses).Sound := by
  induction uses generalizing l with
  | nil => exact h
  | cons u uses ih => exact ih (h.use u)

theorem exists_use_eq (l : FileLoader) (u : Use) :
    ∃ files stack, l.use u = { l with files := files, stack := stack } := by
  cases u with
  | enter files operand =>
    rw [use]
    rcases (l.on files).refuses_or_opens operand with ⟨reason, refuses⟩ | ⟨file, script, opens⟩
    · rw [enter_of_refuses refuses]
      exact ⟨_, _, rfl⟩
    · rw [enter_of_opens opens]
      exact ⟨_, _, rfl⟩
  | leave operand => exact ⟨_, _, rfl⟩

theorem exists_useAll_eq (l : FileLoader) (uses : List Use) :
    ∃ files stack, l.useAll uses = { l with files := files, stack := stack } := by
  induction uses generalizing l with
  | nil => exact ⟨_, _, rfl⟩
  | cons u uses ih =>
    obtain ⟨files, stack, hfirst⟩ := l.exists_use_eq u
    obtain ⟨files', stack', hrest⟩ := ih (l.use u)
    refine ⟨files', stack', hrest.trans ?_⟩
    rw [hfirst]

theorem root_useAll (l : FileLoader) (uses : List Use) : (l.useAll uses).root = l.root := by
  obtain ⟨files, stack, h⟩ := l.exists_useAll_eq uses
  rw [h]

theorem maxDepth_useAll (l : FileLoader) (uses : List Use) :
    (l.useAll uses).maxDepth = l.maxDepth := by
  obtain ⟨files, stack, h⟩ := l.exists_useAll_eq uses
  rw [h]

theorem resolve_useAll (l : FileLoader) (uses : List Use) (operand : String) :
    (l.useAll uses).resolve operand = l.resolve operand := by
  obtain ⟨files, stack, h⟩ := l.exists_useAll_eq uses
  rw [h]
  rfl

theorem sound_fresh (files : FileSystem) (s : Settings) (top : Option String) :
    (fresh files s top).Sound := by
  cases top <;> exact ⟨List.nodup_nil, nofun, Nat.zero_le _⟩

theorem maxDepth_fresh (files : FileSystem) (s : Settings) (top : Option String) :
    (fresh files s top).maxDepth = s.maxIncludeDepth := by
  cases top <;> rfl

theorem refuses_cycle_iff :
    l.Refuses operand (.cycle file) ↔
      l.files.canonical (l.resolve operand) = .ok file ∧ l.Holds file := by
  constructor
  · rintro ⟨⟩
    next found held => exact ⟨found, held⟩
  · rintro ⟨found, held⟩
    exact .cycle found held

theorem Sound.refuses_depthExceeded_iff (h : l.Sound) {limit : Nat} :
    l.Refuses operand (.depthExceeded limit) ↔ limit = l.maxDepth ∧ l.depth = limit ∧
      ∃ file, l.files.canonical (l.resolve operand) = .ok file ∧ ¬l.Holds file := by
  constructor
  · rintro ⟨⟩
    next file found free full => exact ⟨rfl, Nat.le_antisymm h.within full, file, found, free⟩
  · rintro ⟨rfl, full, file, found, free⟩
    exact .full found free (Nat.le_of_eq full.symm)

/-- However a loader of files is used, and whatever the files are each time, its open files are all
different, none of them is the top-level file it was made for, and they are no more than its limit.
If an include is refused, the same files are open; else the file that the operand leads to is open
too, and the script is the one it holds. A cycle is found if that file is the top-level file or is
open. The limit is exceeded if it is neither, and as many files are open as may be. What can be read
does not matter for the two. -/
theorem open_files_of_uses (files : FileSystem) (s : Settings) (top : Option String)
    (uses : List Use) :
    let start := fresh files s top
    let l := start.useAll uses
    (l.stack.Nodup ∧ (∀ file ∈ l.stack, start.root ≠ some file) ∧ l.depth ≤ s.maxIncludeDepth) ∧
      ∀ (canonical : String → Except ReadFailure String)
        (reads : String → Except ReadFailure (List ReadEvent)) (operand : String),
        let now : FileSystem := ⟨canonical, reads⟩
        let target := canonical (start.resolve operand)
        let after := Loader.enter operand (l.on now)
        (match after.1 with
          | .error _ => after.2.stack = l.stack
          | .ok script => ∃ file, target = .ok file ∧ after.2.stack = file :: l.stack ∧
              now.parseFile file = .ok script) ∧
          (∀ file, after.1 = .error (.cycle file) ↔
            target = .ok file ∧ (start.root = some file ∨ file ∈ l.stack)) ∧
          ∀ limit, after.1 = .error (.depthExceeded limit) ↔
            limit = s.maxIncludeDepth ∧ l.depth = limit ∧
              ∃ file, target = .ok file ∧ start.root ≠ some file ∧ file ∉ l.stack := by
  intro start l
  have sound : l.Sound := (sound_fresh files s top).useAll uses
  have hroot : l.root = start.root := start.root_useAll uses
  have hlimit : l.maxDepth = s.maxIncludeDepth :=
    (start.maxDepth_useAll uses).trans (maxDepth_fresh files s top)
  refine ⟨⟨sound.nodup, hroot ▸ sound.apart, hlimit ▸ sound.within⟩,
    fun canonical reads operand => ?_⟩
  intro now target after
  have htarget : (l.on now).files.canonical ((l.on now).resolve operand) = target :=
    congrArg canonical (start.resolve_useAll uses operand)
  have holds_iff : ∀ file, (l.on now).Holds file ↔ start.root = some file ∨ file ∈ l.stack := by
    intro file
    rw [← hroot]
    rfl
  refine ⟨?_, fun file => ?_, fun limit => ?_⟩
  · rcases (l.on now).refuses_or_opens operand with ⟨reason, refuses⟩ | ⟨file, script, opens⟩
    · simp only [after, enter_of_refuses refuses]
      rfl
    · simp only [after, enter_of_opens opens]
      exact ⟨file, htarget.symm.trans opens.found, rfl, opens.parsed⟩
  · rw [enter_eq_error_iff, refuses_cycle_iff, htarget, holds_iff]
  · simp only [after, enter_eq_error_iff, (sound.on now).refuses_depthExceeded_iff, htarget,
      holds_iff, not_or]
    rw [← hlimit]
    rfl

end FileLoader
end MountScript
