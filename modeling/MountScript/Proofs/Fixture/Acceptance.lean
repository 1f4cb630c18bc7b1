import MountScript.Fixture.Expectation
import MountScript.Proofs.Script.RoundTrip
import MountScript.Proofs.Space.Invariant

/-!
# What an expectation accepts

A step and the table after it are accepted exactly if all that is expected of them is so: no check
is left out and none refuses what was asked for. A path that nothing is mounted at cannot be told from
one with an empty union, as no reachable table has an empty union.
-/

namespace MountScript

def MountTable.roots (t : MountTable) (path : String) : List String :=
  ((t.union? path).getD []).map Member.root

namespace Expectation

def ResultHolds (x : Expectation) : Except String Summary → Prop
  | .ok summary =>
    x.error = none ∧ (∀ count, x.applied = some count → summary.applied = count) ∧
      ∀ count, x.included = some count → summary.included = count
  | .error message => ∃ text, x.error = some text ∧ text.toList <:+: message.toList

structure TableHolds (x : Expectation) (t : MountTable) : Prop where
  unions : ∀ path roots, (path, roots) ∈ x.unions → t.roots path = roots
  unmounted : ∀ path ∈ x.unmounted, t.union? path = none
  resolves : ∀ path candidates, (path, candidates) ∈ x.resolves → t.resolve path = candidates
  cwd : ∀ dir, x.cwd = some dir → t.cwd = dir
  createTargets : ∀ dir target, (dir, target) ∈ x.createTargets → t.createTarget? dir = target

theorem andThen_eq_ok_iff {ε : Type} {first second : Except ε Unit} :
    (do first; second) = .ok () ↔ first = .ok () ∧ second = .ok () := by
  rw [bind_eq_ok_iff]
  constructor
  · rintro ⟨_, hfirst, hsecond⟩
    exact ⟨hfirst, hsecond⟩
  · rintro ⟨hfirst, hsecond⟩
    exact ⟨(), hfirst, hsecond⟩

theorem expect_eq_ok_iff {α : Type} [DecidableEq α] {expected : Option α} {actual : α}
    {mismatch : α → α → Mismatch} :
    expect expected actual mismatch = .ok () ↔ ∀ value, expected = some value → actual = value := by
  cases expected with
  | none => simp [expect]
  | some value => by_cases h : actual = value <;> simp [expect, h]

theorem firstMismatch_eq_ok_iff {α : Type} {check : α → Except Mismatch Unit} {items : List α} :
    firstMismatch check items = .ok () ↔ ∀ a ∈ items, check a = .ok () := by
  induction items with
  | nil => simp [firstMismatch]
  | cons a items ih => cases h : check a <;> simp [firstMismatch, h, ih]

theorem occurs_iff {part whole : List Char} : occurs part whole = true ↔ part <:+: whole := by
  induction whole with
  | nil => simp [occurs]
  | cons c whole ih => simp [occurs, List.infix_cons_iff, ih]

section Checks

variable {search : PatternSearch} {x : Expectation} {t : MountTable} {path : String}

theorem checkText_eq_ok_iff {message : String} :
    x.checkText message = .ok () ↔
      ∀ text, x.error = some text → text.toList <:+: message.toList := by
  cases h : x.error with
  | none => simp [checkText, h]
  | some text => simp [checkText, h, ← occurs_iff]

theorem checkPattern_eq_ok_iff {message : String} :
    x.checkPattern search message = .ok () ↔
      ∀ written, x.errorPattern = some written → search written message = .ok true := by
  cases h : x.errorPattern with
  | none => simp [checkPattern, h]
  | some written => rcases found : search written message with _ | _ | _ <;>
      simp [checkPattern, h, found]

theorem checkMessage_eq_ok_iff {message : String} :
    x.checkMessage search message = .ok () ↔
      (∀ text, x.error = some text → text.toList <:+: message.toList) ∧
        ∀ written, x.errorPattern = some written → search written message = .ok true := by
  rw [checkMessage, andThen_eq_ok_iff, checkText_eq_ok_iff, checkPattern_eq_ok_iff]

theorem checkResult_eq_ok_iff (plain : x.errorPattern = none) {result : Except String Summary} :
    x.checkResult search result = .ok () ↔ x.ResultHolds result := by
  have hexpects : x.expectsError = x.error.isSome := by simp [expectsError, plain]
  cases herror : x.error with
  | none =>
    cases result with
    | ok summary =>
      simp [checkResult, ResultHolds, hexpects, herror, andThen_eq_ok_iff, expect_eq_ok_iff]
    | error message => simp [checkResult, ResultHolds, hexpects, herror]
  | some text =>
    cases result with
    | ok summary => simp [checkResult, ResultHolds, hexpects, herror]
    | error message =>
      simp [checkResult, ResultHolds, hexpects, herror, checkMessage_eq_ok_iff, plain]

theorem checkUnion_eq_ok_iff {roots : List String} :
    checkUnion t path roots = .ok () ↔ t.roots path = roots := by
  simp [checkUnion, expect_eq_ok_iff, MountTable.roots]

theorem checkUnmounted_eq_ok_iff : checkUnmounted t path = .ok () ↔ t.union? path = none := by
  cases h : t.union? path <;> simp [checkUnmounted, h]

theorem checkResolution_eq_ok_iff {candidates : List String} :
    checkResolution t path candidates = .ok () ↔ t.resolve path = candidates := by
  simp [checkResolution, expect_eq_ok_iff]

theorem checkCreateTarget_eq_ok_iff {target : Option String} :
    checkCreateTarget t path target = .ok () ↔ t.createTarget? path = target := by
  simp [checkCreateTarget, expect_eq_ok_iff]

theorem checkTable_eq_ok_iff : x.checkTable t = .ok () ↔ x.TableHolds t := by
  simp only [checkTable, andThen_eq_ok_iff, firstMismatch_eq_ok_iff, expect_eq_ok_iff, Prod.forall,
    checkUnion_eq_ok_iff, checkUnmounted_eq_ok_iff, checkResolution_eq_ok_iff,
    checkCreateTarget_eq_ok_iff]
  constructor
  · intro ⟨unions, unmounted, resolves, cwd, createTargets⟩
    exact ⟨unions, unmounted, resolves, cwd, createTargets⟩
  · intro ⟨unions, unmounted, resolves, cwd, createTargets⟩
    exact ⟨unions, unmounted, resolves, cwd, createTargets⟩

theorem verify_eq_ok_iff {result : Except String Summary} :
    x.verify search result t = .ok () ↔ x.checkResult search result = .ok () ∧ x.TableHolds t := by
  rw [verify, andThen_eq_ok_iff, checkTable_eq_ok_iff]

end Checks

def withUnion (x : Expectation) (path : String) (roots : List String) : Expectation :=
  { x with unions := x.unions ++ [(path, roots)] }

def withUnmounted (x : Expectation) (path : String) : Expectation :=
  { x with unmounted := x.unmounted ++ [path] }

section Additions

variable {search : PatternSearch} {t : MountTable} {result : Except String Summary}

theorem tableHolds_withUnion (x : Expectation) (path : String) (roots : List String) :
    (x.withUnion path roots).TableHolds t ↔ x.TableHolds t ∧ t.roots path = roots := by
  constructor
  · intro ⟨unions, unmounted, resolves, cwd, createTargets⟩
    have hunions : ∀ place listed, (place, listed) ∈ x.unions → t.roots place = listed :=
      fun place listed h => unions place listed (List.mem_append_left _ h)
    exact ⟨⟨hunions, unmounted, resolves, cwd, createTargets⟩,
      unions path roots (List.mem_append_right _ List.mem_cons_self)⟩
  · intro ⟨⟨unions, unmounted, resolves, cwd, createTargets⟩, hroots⟩
    refine ⟨fun place listed h => ?_, unmounted, resolves, cwd, createTargets⟩
    rcases List.mem_append.mp h with h | h
    · exact unions place listed h
    · obtain ⟨rfl, rfl⟩ : place = path ∧ listed = roots := by simpa using h
      exact hroots

theorem tableHolds_withUnmounted (x : Expectation) (path : String) :
    (x.withUnmounted path).TableHolds t ↔ x.TableHolds t ∧ t.union? path = none := by
  constructor
  · intro ⟨unions, unmounted, resolves, cwd, createTargets⟩
    have hunmounted := List.forall_mem_append.mp unmounted
    exact ⟨⟨unions, hunmounted.1, resolves, cwd, createTargets⟩,
      hunmounted.2 path List.mem_cons_self⟩
  · intro ⟨⟨unions, unmounted, resolves, cwd, createTargets⟩, hfree⟩
    have hunmounted := List.forall_mem_append.mpr
      ⟨unmounted, List.forall_mem_singleton.mpr hfree⟩
    exact ⟨unions, hunmounted, resolves, cwd, createTargets⟩

theorem verify_withUnion (x : Expectation) (path : String) (roots : List String) :
    (x.withUnion path roots).verify search result t = .ok () ↔
      x.verify search result t = .ok () ∧ t.roots path = roots := by
  have hresult : (x.withUnion path roots).checkResult search result =
      x.checkResult search result := by
    cases result <;> rfl
  rw [verify_eq_ok_iff, verify_eq_ok_iff, hresult, tableHolds_withUnion, and_assoc]

theorem verify_withUnmounted (x : Expectation) (path : String) :
    (x.withUnmounted path).verify search result t = .ok () ↔
      x.verify search result t = .ok () ∧ t.union? path = none := by
  have hresult : (x.withUnmounted path).checkResult search result =
      x.checkResult search result := by
    cases result <;> rfl
  rw [verify_eq_ok_iff, verify_eq_ok_iff, hresult, tableHolds_withUnmounted, and_assoc]

theorem roots_eq_nil_iff (h : t.Reachable) (path : String) :
    t.roots path = [] ↔ t.union? path = none := by
  rw [MountTable.roots]
  cases hunion : t.union? path with
  | none => simp
  | some members =>
    have hfull := h.wellFormed.union_ne_nil _ _ hunion
    simpa using hfull

end Additions

/-- Verifying accepts a step and the table after it exactly if everything holds that the expectation
says, and to expect no member at a path is to expect that nothing is mounted there. -/
theorem verify_accepts (search : PatternSearch) {t : MountTable} (h : t.Reachable)
    (result : Except String Summary) :
    (∀ x : Expectation, x.errorPattern = none →
      (x.verify search result t = .ok () ↔ x.ResultHolds result ∧ x.TableHolds t)) ∧
    ∀ (x : Expectation) (path : String),
      (x.withUnion path []).verify search result t = .ok () ↔
        (x.withUnmounted path).verify search result t = .ok () := by
  refine ⟨fun x plain => ?_, fun x path => ?_⟩
  · rw [verify_eq_ok_iff, checkResult_eq_ok_iff plain]
  · rw [verify_withUnion, verify_withUnmounted, roots_eq_nil_iff h]

theorem verify_accepts_partial :
    let calls : List Call := [.changeDir "/usr", .mount "srv" "lib" (some "main") .replace,
      .bind "/a" "/m" ⟨false, true, true, false⟩, .unmount (some "srv") "lib", .unmount none "/x"]
    let t := NameSpace.performAll MountTable.empty calls
    let x : Expectation :=
      { applied := some 7
        included := none
        unions := [("/m", ["/m", "/a"]), ("lib", [])]
        unmounted := ["lib", "/usr"]
        resolves := [("../m/d", ["/m/d", "/a/d"]), ("/usr/lib", ["/usr/lib"])]
        cwd := some "/usr"
        createTargets := [("/m", some "/a"), ("d", some "/usr/d")]
        error := some "not mounted"
        errorPattern := none }
    let search : PatternSearch := fun written text => .ok (occurs written.toList text.toList)
    let result : Except String Summary := .error "line 5: unmount failed: not mounted: /x"
    t.Reachable ∧ x.errorPattern = none ∧ x.verify search result t = .ok () ∧ x.ResultHolds result ∧
      x.TableHolds t ∧ (x.withUnion "bin" []).verify search result t = .ok () ∧
        (x.withUnmounted "bin").verify search result t = .ok () := by
  intro calls t x search result
  have hreachable : t.Reachable := ⟨calls, rfl⟩
  have hverify : x.verify search result t = .ok () := by decide +kernel
  have hnone : (x.withUnion "bin" []).verify search result t = .ok () := by decide +kernel
  obtain ⟨haccepts, hempty⟩ := verify_accepts search hreachable result
  obtain ⟨hresult, htable⟩ := (haccepts x rfl).mp hverify
  exact ⟨hreachable, rfl, hverify, hresult, htable, hnone, (hempty x "bin").mp hnone⟩

end Expectation

end MountScript
