import Mathlib.Data.List.Permutation
import Templating.Proofs.Translation.Alone
/-!
# Splicing expressions

A balanced expression is taken whole wherever it is written before a comma or a closing bracket:
up to the blanks at its end, and with the meaning that it has alone.  What an expression leaves is
found by following what stands in front of the rest: outside all brackets, the last character that
was taken can be seen.
-/
set_option autoImplicit false

namespace Templating.Expression.Grammar

open Templating.Text

/-! ## What an expression leaves -/

def blanksBehind (source : List Char) : List Char :=
  (source.reverse.takeWhile isSeparatingBlank).reverse

def EndsVisible (taken : List Char) : Prop :=
  ∃ before c, taken = before ++ [c] ∧ isSeparatingBlank c = false

theorem EndsVisible.append {taken : List Char} (visible : EndsVisible taken) (front : List Char) :
    EndsVisible (front ++ taken) := by
  obtain ⟨before, c, rfl, seen⟩ := visible
  exact ⟨front ++ before, c, (List.append_assoc _ _ _).symm, seen⟩

theorem EndsVisible.of_all {taken : List Char} (given : taken ≠ [])
    (visible : ∀ c ∈ taken, isSeparatingBlank c = false) : EndsVisible taken :=
  ⟨taken.dropLast, taken.getLast given, (List.dropLast_append_getLast given).symm,
    visible _ (List.getLast_mem given)⟩

theorem blanksBehind_append {taken rest : List Char} (ends : EndsVisible taken)
    (blank : rest.all isSeparatingBlank = true) : blanksBehind (taken ++ rest) = rest := by
  obtain ⟨before, c, rfl, seen⟩ := ends
  have all : ∀ d ∈ rest.reverse, isSeparatingBlank d = true :=
    fun d held => List.all_eq_true.mp blank d (List.mem_reverse.mp held)
  have stopped : (before ++ [c]).reverse.takeWhile isSeparatingBlank = [] := by simp [seen]
  rw [blanksBehind, List.reverse_append, List.takeWhile_append_of_pos all, stopped, List.append_nil,
    List.reverse_reverse]

/-- What is left of `start`; behind a character that can be seen, unless brackets are open. -/
def LeftOf (start expected left right : List Char) : Prop :=
  left = right ∧ ∃ taken, start = taken ++ left ∧
    (expected = [] → taken = [] ∨ EndsVisible taken)

section LeftOf

variable {start source expected inner : List Char}

theorem LeftOf.take {token rest : List Char} (left : LeftOf start expected source source)
    (split : skipBlanks source = token ++ rest) (ends : inner = [] → EndsVisible token) :
    LeftOf start inner rest rest := by
  obtain ⟨-, taken, whole, -⟩ := left
  refine ⟨rfl, taken ++ source.takeWhile isSeparatingBlank ++ token, ?_, fun closed =>
    .inr ((ends closed).append _)⟩
  rw [List.append_assoc, ← split, List.append_assoc, skipBlanks, List.takeWhile_append_dropWhile,
    whole]

theorem LeftOf.mark {mark : String} (left : LeftOf start expected source source)
    (given : mark.toList ≠ []) (visible : ∀ c ∈ mark.toList, isSeparatingBlank c = false) :
    MarkMatch (LeftOf start inner) source source (mark? mark source) (mark? mark source) := by
  cases found : mark? mark source with
  | none => exact .none
  | some rest =>
    have less := mark_length_lt given found
    have split := (mark_eq_some_iff mark source rest).mp found
    exact .some rest rest (left.take split fun _ => .of_all given visible) less less

theorem LeftOf.token {α : Type} {reader : Reader α} (left : LeftOf start expected source source)
    (shortens : Shortens reader)
    (takes : ∀ result rest, reader source = some (result, rest) →
      ∃ token, skipBlanks source = token ++ rest ∧ (inner = [] → EndsVisible token)) :
    Match (LeftOf start inner) source source (reader source) (reader source) := by
  cases found : reader source with
  | none => exact .none
  | some entry =>
    have less := shortens source entry.1 entry.2 found
    obtain ⟨token, split, ends⟩ := takes entry.1 entry.2 found
    exact .some entry.1 entry.2 entry.2 (left.take split ends) less less

end LeftOf

theorem isSeparatingBlank_of_quote {c : Char} (quoted : isQuote c = true) :
    isSeparatingBlank c = false := by
  by_contra blank
  rcases isSeparatingBlank_cases (eq_true_of_ne_false blank) with rfl | rfl | rfl | rfl <;> cases quoted

theorem isSeparatingBlank_of_class (accepts : Char → Bool)
    (none : [' ', '\t', '\r', '\n'].all (fun c => !accepts c) = true) {c : Char}
    (accepted : accepts c = true) : isSeparatingBlank c = false := by
  by_contra blank
  have held : c ∈ [' ', '\t', '\r', '\n'] := by
    simpa using isSeparatingBlank_cases (eq_true_of_ne_false blank)
  have refused := List.all_eq_true.mp none c held
  rw [accepted] at refused
  cases refused

def leftPairing (start : List Char) : Pairing where
  holds := LeftOf start
  opening single opens := by
    rintro expected left _ ⟨rfl, taken⟩
    refine LeftOf.mark ⟨rfl, taken⟩ (by simp [single]) fun c held => ?_
    rw [single, List.mem_singleton] at held
    exact held ▸ isSeparatingBlank_of_opening opens
  closing single closer := by
    rintro expected left _ ⟨rfl, taken⟩
    refine LeftOf.mark ⟨rfl, taken⟩ (by simp [single]) fun c held => ?_
    rw [single, List.mem_singleton] at held
    exact held ▸ isSeparatingBlank_of_ends (by simp [endsListener, closer])
  comma := by
    rintro c expected left _ ⟨rfl, taken⟩
    refine LeftOf.mark ⟨rfl, taken⟩ (by decide) fun c held => ?_
    exact List.mem_singleton.mp held ▸ isSeparatingBlank_of_ends rfl
  inner isInner := by
    rintro expected left _ ⟨rfl, taken⟩
    refine LeftOf.mark ⟨rfl, taken⟩ (isInnerMark_ne_nil isInner) fun c held => ?_
    simp only [isInnerMark, Bool.and_eq_true, List.all_eq_true] at isInner
    simpa using (isInner.2 c held).2
  name := by
    rintro expected left _ ⟨rfl, taken⟩
    refine LeftOf.token ⟨rfl, taken⟩ (fun _ _ _ found => anyName_length_lt found)
      fun name rest found => ?_
    obtain ⟨c, others, start, named, -, split⟩ := anyName_eq_some found
    refine ⟨c :: others, split, fun _ => .of_all (List.cons_ne_nil c others) fun d held => ?_⟩
    refine isSeparatingBlank_of_class isNameChar (by decide) ?_
    rcases List.mem_cons.mp held with rfl | held
    · exact isNameChar_of_isNameStart start
    · exact named d held
  text := by
    rintro expected left _ ⟨rfl, taken⟩
    refine LeftOf.token ⟨rfl, taken⟩ (fun _ _ _ found => textLiteral_length_lt found)
      fun content rest found => ?_
    obtain ⟨quote, inside, quoted, split⟩ := textLiteral_eq_some found
    refine ⟨quote :: inside ++ [quote], by rw [split, List.append_assoc, List.singleton_append],
      fun _ => ⟨quote :: inside, quote, rfl, isSeparatingBlank_of_quote quoted⟩⟩
  number := by
    rintro expected left _ ⟨rfl, taken⟩
    refine LeftOf.token ⟨rfl, taken⟩ (fun _ _ _ found => numberText_length_lt found)
      fun digits rest found => ?_
    obtain ⟨given, split⟩ := numberText_eq_some found
    exact ⟨digits, split, fun _ => .of_all given fun c held =>
      isSeparatingBlank_of_class isNumberChar (by decide) (numberText_chars found c held)⟩
  listener := by
    rintro c expected left _ ⟨rfl, taken⟩
    refine LeftOf.token ⟨rfl, taken⟩ (fun _ _ _ found => listenerSource_length_lt found)
      fun text rest found => ?_
    obtain ⟨source, -, split⟩ := listenerSource_eq_some found
    exact ⟨source, split, nofun⟩

/-- An expression takes what stands in front of the rest, up to a character that can be seen. -/
theorem expression_takes {source rest : List Char} {result : Expr}
    (found : expression source = some (result, rest)) :
    ∃ taken, source = taken ++ rest ∧ EndsVisible taken := by
  have start : (leftPairing source).holds [] source source := ⟨rfl, [], rfl, fun _ => .inl rfl⟩
  have left := expression_match start
  rw [found] at left
  cases left with
  | some _ _ _ related shorter =>
    obtain ⟨-, taken, whole, ends⟩ := related
    refine ⟨taken, whole, (ends rfl).resolve_left ?_⟩
    rintro rfl
    rw [List.nil_append] at whole
    exact absurd shorter (by rw [whole]; exact Nat.lt_irrefl _)

theorem expression_skipBlanks {source rest : List Char} {result : Expr}
    (found : expression source = some (result, rest)) (blank : rest.all isSeparatingBlank = true) :
    expression (skipBlanks source) = some (result, blanksBehind source) := by
  have same : blankPairing.holds [] (skipBlanks source) source := skipBlanks_skipBlanks source
  have alike := expression_match same
  rw [found] at alike
  generalize read : expression (skipBlanks source) = first at alike
  cases alike with
  | some _ left _ related =>
    have leftBlank : left.all isSeparatingBlank = true := by
      have equal : skipBlanks left = skipBlanks rest := related
      rw [← skipBlanks_isEmpty, equal, skipBlanks_isEmpty, blank]
    obtain ⟨taken, split, ends⟩ := expression_takes read
    have whole : source = source.takeWhile isSeparatingBlank ++ taken ++ left := by
      rw [List.append_assoc, ← split, skipBlanks, List.takeWhile_append_dropWhile]
    rw [whole, blanksBehind_append (ends.append _) leftBlank]

end Templating.Expression.Grammar

namespace Templating.Rendering

open Templating.Expression Templating.Expression.Grammar

/-! ## Splicing -/

/-- The code means the same wherever it is written in front of a comma or a closing bracket. -/
structure IsSpliced (code : String) (meaning : Expr) : Prop where
  /-- Reading stops at the end of the code, whatever stands behind the comma or bracket. -/
  before : ∀ c ∈ [')', ']', '\x7d', ','], ∀ rest, expression (skipBlanks (code.toList ++ c :: rest)) =
    some (meaning, blanksBehind code.toList ++ c :: rest)
  grouped : parseExpression? ("(" ++ code ++ ")") = some meaning
  shown : parseExpression? ("_s(" ++ code ++ ")") = some (.call (.name "_s") [meaning])

/-- Balanced code that is read as an expression can be spliced. -/
theorem parse_isSpliced {code : String} {meaning : Expr} (balanced : imbalance? code = none)
    (parsed : parseExpression? code = some meaning) : IsSpliced code meaning := by
  have closes : Closes [] code.toList := balanced
  have reads : Reads expression endsListener code.toList meaning := by
    have alone : readsAlone code = true := by simp [readsAlone, balanced, parsed]
    have found := captured_reads alone
    rwa [captured, parsed] at found
  have inParentheses : Closes [] ('(' :: code.toList ++ [')']) := closes_enclosed rfl rfl closes
  refine ⟨fun c ends rest => ?_, ?_, ?_⟩
  · have isEnd : endsListener c = true :=
      List.all_eq_true.mp (rfl : [')', ']', '\x7d', ','].all endsListener = true) c ends
    obtain ⟨left, read, blank⟩ := (whole_eq_some_iff expression code meaning).mp parsed
    have start : Closes [] (skipBlanks code.toList) := (closes_skipBlanks_iff _ _).mpr closes
    have spliced := (expression_before (isTail_cons isEnd rest) start).append
    rw [skipBlanks_append (isTail_cons isEnd rest), spliced, expression_skipBlanks read blank]
    rfl
  · refine parseExpression_of_reads ?_ ?_
    · simpa using inParentheses
    · simpa using (group_operand reads).listed
  · have named : ∀ c ∈ "_s".toList, isPlain c = true :=
      List.all_eq_true.mp (rfl : "_s".toList.all isPlain = true)
    have called : ReadsOperand ("_s".toList ++ '(' :: commaList [code.toList] ++ [')'])
        (.call (.name "_s") [meaning]) := call_operand rfl (by decide) (.cons reads .nil)
    refine parseExpression_of_reads ?_ ?_
    · have whole := (closes_plain_append_iff named [] _).mpr inParentheses
      simpa using whole
    · simpa [commaList, commaTail] using called.listed

/-- Listeners whose source holds a text and brackets, an access behind a bracket in quotes, and blanks
at both ends. -/
theorem listeners_isSpliced :
    IsSpliced " \x7bon:\x7bclick:go(')') \x7d,t:a[']']\x7d\t " (.record
      [(.fixed "on", .listeners [(.fixed "click", "go(')')")]),
        (.fixed "t", .index (.name "a") (.literal (.string "]")))]) :=
  parse_isSpliced (by decide) (by cbv)

end Templating.Rendering
