import Templating.Proofs.Template.Collapsing
/-!
# Interpolated text

A text is cut into literals and expressions without loss: written out again, the
segments give the text, each expression between delimiters and blanks.

The search for an expression that is never closed walks over the text on its own.  Both
walks pass the same interpolations, each from the first opening delimiter to the first
closing delimiter behind it, and stop at the same place; `Closed` lists what they pass.
-/
set_option autoImplicit false

namespace Templating.Template

open Templating.Text

/-! ## The segments of a text -/

/-- The segments, written one after the other: a literal as it is, an expression between
delimiters, with blanks on both sides. -/
inductive Writes (delimiters : Delimiters) : List Segment → List Char → Prop where
  | nil : Writes delimiters [] []
  | literal (content : String) {segments : List Segment} {rest : List Char}
      (others : Writes delimiters segments rest) :
    Writes delimiters (.literal content :: segments) (content.toList ++ rest)
  | binding {before behind : List Char} (blankBefore : before.all isBlank = true)
      (expression : String) (blankBehind : behind.all isBlank = true)
      {segments : List Segment} {rest : List Char} (others : Writes delimiters segments rest) :
    Writes delimiters (.binding expression :: segments)
      (delimiters.opening.toList ++ before ++ expression.toList ++ behind ++
        delimiters.closing.toList ++ rest)

/-- No segment is empty, expressions are trimmed, and no two literals are neighbours. -/
structure Tidy (segments : List Segment) : Prop where
  literals : ∀ content, .literal content ∈ segments → content ≠ ""
  bindings : ∀ expression, .binding expression ∈ segments →
    expression ≠ "" ∧ trimmed expression = expression
  apart : segments.IsChain fun left right => left.isBinding = true ∨ right.isBinding = true

theorem writes_ofLiteral {delimiters : Delimiters} (content : List Char) {segments : List Segment}
    {rest : List Char} (others : Writes delimiters segments rest) :
    Writes delimiters (Segment.ofLiteral content ++ segments) (content ++ rest) := by
  by_cases empty : content = []
  · subst empty
    exact others
  · have single : Segment.ofLiteral content = [.literal (String.ofList content)] := by
      rw [Segment.ofLiteral, if_neg (by simpa using empty)]
    rw [single]
    simpa using Writes.literal (String.ofList content) others

theorem ofLiteral_writes {delimiters : Delimiters} (content : List Char) :
    Writes delimiters (Segment.ofLiteral content) content := by
  simpa using writes_ofLiteral content (.nil : Writes delimiters [] [])

theorem ofLiteral_tidy (content : List Char) : Tidy (Segment.ofLiteral content) := by
  unfold Segment.ofLiteral
  split
  · exact ⟨by simp, by simp, List.IsChain.nil⟩
  · next visible =>
    refine ⟨?_, by simp, List.IsChain.singleton _⟩
    intro given member empty
    cases List.mem_singleton.mp member
    exact visible (by simpa [← String.toList_eq_nil_iff] using empty)

theorem Tidy.binding {segments : List Segment} (tidy : Tidy segments) {expression : List Char}
    (visible : trim expression ≠ []) :
    Tidy (.binding (String.ofList (trim expression)) :: segments) := by
  refine ⟨?_, ?_, ?_⟩
  · intro content member
    rcases List.mem_cons.mp member with same | member
    · cases same
    · exact tidy.literals content member
  · intro given member
    rcases List.mem_cons.mp member with same | member
    · cases same
      refine ⟨fun empty => visible (by simpa using congrArg String.toList empty), ?_⟩
      rw [trimmed, String.toList_ofList, trim_trim]
    · exact tidy.bindings given member
  · cases segments with
    | nil => exact List.IsChain.singleton _
    | cons next segments => exact List.isChain_cons_cons.mpr ⟨.inl rfl, tidy.apart⟩

theorem Tidy.ofLiteral_append {segments : List Segment} {expression : String}
    (tidy : Tidy (.binding expression :: segments)) (content : List Char) :
    Tidy (Segment.ofLiteral content ++ .binding expression :: segments) := by
  have front := ofLiteral_tidy content
  refine ⟨?_, ?_, ?_⟩
  · intro given member
    exact (List.mem_append.mp member).elim (front.literals given) (tidy.literals given)
  · intro given member
    exact (List.mem_append.mp member).elim (front.bindings given) (tidy.bindings given)
  · unfold Segment.ofLiteral
    split
    · exact tidy.apart
    · exact List.isChain_cons_cons.mpr ⟨.inr rfl, tidy.apart⟩

section Cutting

variable {delimiters : Delimiters}

theorem splitFrom_writes (fuel : Nat) (pending source : List Char) :
    Writes delimiters
      (Segment.splitFrom delimiters.opening.toList delimiters.closing.toList fuel pending source)
      (pending ++ source) := by
  induction fuel generalizing pending source with
  | zero => exact ofLiteral_writes _
  | succ fuel ih =>
    unfold Segment.splitFrom
    split
    · exact ofLiteral_writes _
    · next before inside opens =>
      split
      · exact ofLiteral_writes _
      · next expression after closes =>
        rw [breakAt_eq_some opens, breakAt_eq_some closes]
        simp only
        split
        · -- Blanks between delimiters join the literal text.
          simpa using ih (pending ++ before ++ delimiters.opening.toList ++ expression ++
            delimiters.closing.toList) after
        · obtain ⟨behind, whole, blank⟩ := trim_split expression
          have front : (expression.takeWhile isBlank).all isBlank = true := List.all_takeWhile
          have here := writes_ofLiteral (pending ++ before) (Writes.binding front
            (String.ofList (trim expression)) blank (ih [] after))
          rw [String.toList_ofList] at here
          have same : pending ++ (before ++ delimiters.opening.toList ++
              (expression ++ delimiters.closing.toList ++ after)) =
              pending ++ before ++ (delimiters.opening.toList ++ expression.takeWhile isBlank ++
                trim expression ++ behind ++
                delimiters.closing.toList ++ ([] ++ after)) := by
            conv_lhs => rw [whole]
            simp only [List.append_assoc, List.nil_append]
          rw [same]
          exact here

theorem splitFrom_tidy (opening closing : List Char) (fuel : Nat) (pending source : List Char) :
    Tidy (Segment.splitFrom opening closing fuel pending source) := by
  induction fuel generalizing pending source with
  | zero => exact ofLiteral_tidy _
  | succ fuel ih =>
    unfold Segment.splitFrom
    split
    · exact ofLiteral_tidy _
    · split
      · exact ofLiteral_tidy _
      · simp only
        split
        · exact ih _ _
        · next visible => exact ((ih _ _).binding (by simpa using visible)).ofLiteral_append _

end Cutting

/-! ## Both walks -/

/-- A text before an opening delimiter, and what stands between it and the closing one. -/
structure Interpolation where
  before : List Char
  inside : List Char

namespace Interpolation

/-- An interpolation of blanks holds no expression. -/
def expression? (interpolation : Interpolation) : Option String :=
  if (trim interpolation.inside).isEmpty then none
  else some (String.ofList (trim interpolation.inside))

end Interpolation

section Walks

variable {opening closing : List Char}

/-- From the front of `source` to `rest`, interpolations follow one another.  Each opens
at the first opening delimiter that is left, and closes at the first closing delimiter
behind it. -/
inductive Closed (opening closing : List Char) :
    List Interpolation → List Char → List Char → Prop where
  | nil (rest : List Char) : Closed opening closing [] rest rest
  | cons {source before behind inside after : List Char}
      (opens : breakAt? opening source = some (before, behind))
      (closes : breakAt? closing behind = some (inside, after))
      {run : List Interpolation} {rest : List Char} (others : Closed opening closing run after rest) :
    Closed opening closing (⟨before, inside⟩ :: run) source rest

/-- No interpolation is closed in what is left: nothing opens, or what opens first does
not close. -/
inductive Stops (opening closing : List Char) : List Char → Prop where
  | unopened {rest : List Char} (plain : breakAt? opening rest = none) : Stops opening closing rest
  | unclosed {rest before inside : List Char}
      (opens : breakAt? opening rest = some (before, inside))
      (stays : breakAt? closing inside = none) : Stops opening closing rest

theorem exists_closed (nonempty : opening ≠ []) (closing source : List Char) :
    ∃ run rest, Closed opening closing run source rest ∧ Stops opening closing rest := by
  induction given : source.length using Nat.strong_induction_on generalizing source with
  | _ size ih =>
    cases opens : breakAt? opening source with
    | none => exact ⟨[], source, .nil source, .unopened opens⟩
    | some found =>
      obtain ⟨before, behind⟩ := found
      cases closes : breakAt? closing behind with
      | none => exact ⟨[], source, .nil source, .unclosed opens closes⟩
      | some found =>
        obtain ⟨inside, after⟩ := found
        have shorter : after.length < size := by
          have longer : 0 < opening.length := List.length_pos_iff.mpr nonempty
          have whole := congrArg List.length (breakAt_eq_some opens)
          have part := congrArg List.length (breakAt_eq_some closes)
          simp only [List.length_append] at whole part
          omega
        obtain ⟨run, rest, others, stops⟩ := ih _ shorter after rfl
        exact ⟨_, rest, .cons opens closes others, stops⟩

/-- The interpolations are a front of the text, and stay what they are before any other
text. -/
theorem Closed.front {run : List Interpolation} {source rest : List Char}
    (closed : Closed opening closing run source rest) :
    ∃ front, source = front ++ rest ∧ ∀ other, Closed opening closing run (front ++ other) other := by
  induction closed with
  | nil rest => exact ⟨[], rfl, fun other => .nil other⟩
  | @cons source before behind inside after opens closes run rest others ih =>
    obtain ⟨front, whole, replaced⟩ := ih
    refine ⟨before ++ opening ++ (inside ++ closing ++ front), ?_, ?_⟩
    · rw [breakAt_eq_some opens, breakAt_eq_some closes, whole]
      simp only [List.append_assoc]
    · intro other
      have first := breakAt_replaced opens (inside ++ closing ++ (front ++ other))
      have second := breakAt_replaced closes (front ++ other)
      have behind := Closed.cons first second (replaced other)
      simpa only [List.append_assoc] using behind

theorem Closed.splitFrom {run : List Interpolation} {source rest : List Char}
    (nonempty : opening ≠ []) (closed : Closed opening closing run source rest)
    (stops : Stops opening closing rest) {fuel : Nat} (enough : source.length ≤ fuel)
    (pending : List Char) :
    (Segment.splitFrom opening closing fuel pending source).filterMap Segment.binding? =
      run.filterMap Interpolation.expression? := by
  induction closed generalizing fuel pending with
  | nil rest =>
    cases stops with
    | unopened plain => rw [splitFrom_none _ _ plain, bindings_ofLiteral, List.filterMap_nil]
    | unclosed opens stays =>
      cases fuel with
      | zero => rw [Segment.splitFrom, bindings_ofLiteral, List.filterMap_nil]
      | succ fuel =>
        rw [Segment.splitFrom, opens]
        simp only [stays, bindings_ofLiteral, List.filterMap_nil]
  | @cons source before behind inside after opens closes run rest others ih =>
    have longer : 0 < opening.length := List.length_pos_iff.mpr nonempty
    have whole := congrArg List.length (breakAt_eq_some opens)
    have part := congrArg List.length (breakAt_eq_some closes)
    simp only [List.length_append] at whole part
    obtain ⟨fuel, rfl⟩ : ∃ less, fuel = less + 1 := Nat.exists_eq_succ_of_ne_zero (by omega)
    rw [Segment.splitFrom, opens]
    simp only [closes]
    rw [List.filterMap_cons, Interpolation.expression?]
    split
    · exact ih stops (by omega) _
    · rw [List.filterMap_append, bindings_ofLiteral, List.nil_append, List.filterMap_cons,
        Segment.binding?]
      exact congrArg _ (ih stops (by omega) [])

theorem Closed.unterminatedFrom {run : List Interpolation} {source rest : List Char}
    (nonempty : opening ≠ []) (closed : Closed opening closing run source rest) {fuel : Nat}
    (enough : source.length < fuel) (offset : Nat) :
    ∃ front left, source = front ++ rest ∧ rest.length < left ∧
      unterminatedFrom opening closing fuel offset source =
        unterminatedFrom opening closing left (offset + byteLength front) rest := by
  induction closed generalizing fuel offset with
  | nil rest => exact ⟨[], fuel, rfl, enough, rfl⟩
  | @cons source before behind inside after opens closes run rest others ih =>
    have longer : 0 < opening.length := List.length_pos_iff.mpr nonempty
    have whole := congrArg List.length (breakAt_eq_some opens)
    have part := congrArg List.length (breakAt_eq_some closes)
    simp only [List.length_append] at whole part
    obtain ⟨fuel, rfl⟩ : ∃ less, fuel = less + 1 := Nat.exists_eq_succ_of_ne_zero (by omega)
    obtain ⟨front, left, split, enough, same⟩ := ih (by omega : after.length < fuel)
      (offset + byteLength before + byteLength opening + byteLength inside + byteLength closing)
    refine ⟨before ++ opening ++ (inside ++ closing ++ front), left, ?_, enough, ?_⟩
    · rw [breakAt_eq_some opens, breakAt_eq_some closes, split]
      simp only [List.append_assoc]
    · rw [Templating.Template.unterminatedFrom, opens]
      simp only [closes]
      rw [same]
      simp only [byteLength_append, Nat.add_assoc]

end Walks

theorem bindingsIn_closed {delimiters : Delimiters} (usable : delimiters.areUsable = true)
    {run : List Interpolation} {content : String} {rest : List Char}
    (closed : Closed delimiters.opening.toList delimiters.closing.toList run content.toList rest)
    (stops : Stops delimiters.opening.toList delimiters.closing.toList rest) :
    bindingsIn delimiters content = run.filterMap Interpolation.expression? := by
  rw [bindingsIn_eq, if_pos usable]
  exact closed.splitFrom (Delimiters.areUsable.nonempty usable).1 stops (Nat.le_refl _) []

/-- Cutting a text loses nothing.  Searching it for what is never closed agrees with the
cutting: both pass the same interpolations; then no opening delimiter is left, or the one
that is found is not closed, and the text before it has the same expressions. -/
theorem interpolations_lossless {delimiters : Delimiters} (usable : delimiters.areUsable = true)
    (content : String) :
    (∀ segments, interpolations? delimiters content = some segments →
      Writes delimiters segments content.toList ∧ Tidy segments ∧
      Segment.concatenation segments = join "+" (segments.map fun
        | .literal content => Literal.encode content
        | .binding expression => "_s(" ++ expression ++ ")")) ∧
    ∃ run rest,
      Closed delimiters.opening.toList delimiters.closing.toList run content.toList rest ∧
      bindingsIn delimiters content = run.filterMap Interpolation.expression? ∧
      match unterminated? delimiters content with
      | none => contains delimiters.opening.toList rest = false
      | some start => ∃ before inside,
          content = before ++ delimiters.opening ++ inside ∧ byteLength before.toList = start ∧
          contains delimiters.closing.toList inside.toList = false ∧
          bindingsIn delimiters before = bindingsIn delimiters content := by
  refine ⟨?_, ?_⟩
  · intro segments found
    rw [interpolations?, if_pos usable] at found
    simp only [Option.ite_none_right_eq_some, Option.some.injEq] at found
    obtain ⟨-, rfl⟩ := found
    refine ⟨splitFrom_writes _ [] _, splitFrom_tidy _ _ _ _ _, ?_⟩
    rw [Segment.concatenation]
    congr 2
  · obtain ⟨nonempty, -⟩ := Delimiters.areUsable.nonempty usable
    obtain ⟨run, rest, closed, stops⟩ :=
      exists_closed nonempty delimiters.closing.toList content.toList
    have expressions := bindingsIn_closed usable closed stops
    refine ⟨run, rest, closed, expressions, ?_⟩
    obtain ⟨front, left, whole, enough, same⟩ :=
      closed.unterminatedFrom nonempty (Nat.lt_succ_self content.toList.length) 0
    obtain ⟨fuel, rfl⟩ : ∃ less, left = less + 1 := Nat.exists_eq_succ_of_ne_zero (by omega)
    rw [unterminated?, if_pos usable, same, Templating.Template.unterminatedFrom]
    cases stops with
    | unopened plain =>
      rw [plain]
      exact contains_eq_false_iff.mpr plain
    | @unclosed before inside opens stays =>
      rw [opens]
      simp only [stays]
      obtain ⟨other, split, replaced⟩ := closed.front
      obtain rfl : other = front := List.append_cancel_right (split.symm.trans whole)
      -- Before the delimiter that is not closed, the walk stops because nothing opens.
      have plain : breakAt? delimiters.opening.toList before = none :=
        contains_eq_false_iff.mp (contains_of_breakAt nonempty opens)
      refine ⟨String.ofList (other ++ before), String.ofList inside, ?_, ?_, ?_, ?_⟩
      · rw [← String.toList_inj, whole, breakAt_eq_some opens]
        simp only [String.toList_append, String.toList_ofList, List.append_assoc]
      · rw [String.toList_ofList, byteLength_append, Nat.zero_add]
      · rw [String.toList_ofList]
        exact contains_eq_false_iff.mpr stays
      · rw [expressions]
        refine bindingsIn_closed usable ?_ (.unopened plain)
        rw [String.toList_ofList]
        exact replaced before

/-- Among others an interpolation of blanks, and one that is never closed. -/
theorem mixedText_lossless :
    Delimiters.standard.areUsable = true ∧
    interpolations? .standard "a \x7b\x7b b \x7d\x7d\x7b\x7b \x7d\x7dé \x7b\x7b d" =
      some [.literal "a ", .binding "b", .literal "\x7b\x7b \x7d\x7dé \x7b\x7b d"] ∧
    Writes .standard [.literal "a ", .binding "b", .literal "\x7b\x7b \x7d\x7dé \x7b\x7b d"]
      "a \x7b\x7b b \x7d\x7d\x7b\x7b \x7d\x7dé \x7b\x7b d".toList ∧
    unterminated? .standard "a \x7b\x7b b \x7d\x7d\x7b\x7b \x7d\x7dé \x7b\x7b d" = some 17 ∧
    bindingsIn .standard "a \x7b\x7b b \x7d\x7d\x7b\x7b \x7d\x7dé " = ["b"] := by
  have cut : interpolations? .standard "a \x7b\x7b b \x7d\x7d\x7b\x7b \x7d\x7dé \x7b\x7b d" =
      some [.literal "a ", .binding "b", .literal "\x7b\x7b \x7d\x7dé \x7b\x7b d"] := by
    decide +kernel
  have lossless := interpolations_lossless (by decide : Delimiters.standard.areUsable = true)
    "a \x7b\x7b b \x7d\x7d\x7b\x7b \x7d\x7dé \x7b\x7b d"
  exact ⟨by decide, cut, (lossless.1 _ cut).1, by decide +kernel, by decide +kernel⟩

end Templating.Template
