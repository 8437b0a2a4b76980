import Templating.Proofs.Translation.Heads
/-!
# Code that reads alone

What is read before every end and leaves no bracket open is read alone, too.
Literals, and what the extensions make of captured code, are so.
-/
set_option autoImplicit false

namespace Templating.Rendering

open Templating.Text Templating.Template Templating.Expression Templating.Expression.Grammar

/-! ## Balance of composed source -/

/-- A source that closes `inner` and all it opens leaves the rest as it is. -/
theorem imbalanceFrom_append {inner : List Char} {region : Region} {source : List Char}
    (balanced : imbalanceFrom inner region source = none) (expected rest : List Char) :
    imbalanceFrom (inner ++ expected) region (source ++ rest) = imbalanceFrom expected .code rest := by
  induction source generalizing inner region with
  | nil =>
    cases region with
    | code =>
      have empty : inner = [] := (closes_nil_iff inner).mp balanced
      rw [empty]
      rfl
    | quoted quote escaped => simp [imbalanceFrom] at balanced
  | cons c others ih =>
    cases region with
    | code =>
      obtain quoted | ⟨closer, opening⟩ | isCloser | plain := char_cases c
      · have inside : imbalanceFrom inner (.quoted c false) others = none :=
          (closes_quote_iff quoted inner others).mp balanced
        simpa [imbalanceFrom, quoted] using ih inside
      · have inside : imbalanceFrom (closer :: inner) .code others = none :=
          (closes_opening_iff opening inner others).mp balanced
        simpa [imbalanceFrom, isQuote_of_opening opening, opening] using ih inside
      · obtain ⟨outer, rfl, inside⟩ := (closes_closer_iff isCloser inner others).mp balanced
        simpa [imbalanceFrom, isQuote_of_closer isCloser, closerOf_of_closer isCloser,
          closer_cases isCloser] using ih inside
      · have inside : imbalanceFrom inner .code others = none :=
          (closes_plain_iff plain inner others).mp balanced
        have noBracket : ¬(c = ')' ∨ c = ']' ∨ c = '\x7d') := by
          rintro (rfl | rfl | rfl) <;> exact absurd plain (by decide)
        simpa [imbalanceFrom, isQuote_of_plain plain, closerOf_of_plain plain, noBracket] using ih inside
    | quoted quote escaped =>
      cases escaped with
      | true => exact ih (by simpa [imbalanceFrom] using balanced)
      | false =>
        rw [imbalanceFrom] at balanced
        rw [List.cons_append, imbalanceFrom]
        split at balanced
        · next slash =>
          rw [if_pos slash]
          exact ih balanced
        · next noSlash =>
          rw [if_neg noSlash]
          split at balanced
          · next ends =>
            rw [if_pos ends]
            exact ih balanced
          · next inside =>
            rw [if_neg inside]
            split at balanced
            · cases balanced
            · next unbroken =>
              rw [if_neg unbroken]
              exact ih balanced

theorem closes_append_iff {source : List Char} (balanced : Closes [] source)
    (expected rest : List Char) : Closes expected (source ++ rest) ↔ Closes expected rest := by
  have same := imbalanceFrom_append balanced expected rest
  rw [List.nil_append] at same
  rw [Closes, Closes, same]

theorem closes_enclosed {c closer : Char} (opening : closerOf? c = some closer)
    (ends : endsNested closer = true) {inside : List Char} (balanced : Closes [] inside) :
    Closes [] (c :: inside ++ [closer]) := by
  rw [List.cons_append, closes_opening_iff opening, closes_append_iff balanced,
    closes_closer_iff ends]
  exact ⟨[], rfl, (closes_nil_iff []).mpr rfl⟩

theorem closes_commaTail {codes : List (List Char)} (balanced : ∀ code ∈ codes, Closes [] code) :
    Closes [] (commaTail codes) := by
  induction codes with
  | nil => exact (closes_nil_iff []).mpr rfl
  | cons code others ih =>
    have comma : isPlain ',' = true := rfl
    rw [commaTail, List.flatMap_cons, List.cons_append, closes_plain_iff comma,
      closes_append_iff (balanced code List.mem_cons_self)]
    exact ih fun other held => balanced other (List.mem_cons_of_mem code held)

theorem closes_commaList {codes : List (List Char)} (balanced : ∀ code ∈ codes, Closes [] code) :
    Closes [] (commaList codes) := by
  cases codes with
  | nil => exact (closes_nil_iff []).mpr rfl
  | cons code others =>
    rw [commaList, closes_append_iff (balanced code List.mem_cons_self)]
    exact closes_commaTail fun other held => balanced other (List.mem_cons_of_mem code held)

theorem closes_encode (content : String) : Closes [] (Literal.encode content).toList := by
  have balanced := closes_encodeChars_iff content.toList [] []
  rw [List.append_nil] at balanced
  rw [Literal.encode, String.toList_ofList]
  exact balanced.mpr ((closes_nil_iff []).mpr rfl)

/-! ## Reading alone -/

theorem parseExpression_of_reads {code : String} {meaning : Expr} (balanced : Closes [] code.toList)
    (reads : Reads expression endsListener code.toList meaning) : parseExpression? code = some meaning := by
  obtain ⟨blanks, blank, read⟩ := reads ')' [] rfl
  have before := (expression_before (isTail_cons (c := ')') rfl []) balanced).append
  rw [read] at before
  obtain ⟨⟨result, rest⟩, found, same⟩ := Option.map_eq_some_iff.mp before.symm
  simp only [Prod.mk.injEq, List.append_cancel_right_eq] at same
  obtain ⟨rfl, rfl⟩ := same
  exact (whole_eq_some_iff expression code _).mpr ⟨rest, found, blank⟩

theorem readsAlone_of_reads {code : String} {meaning : Expr} (balanced : Closes [] code.toList)
    (reads : Reads expression endsListener code.toList meaning) :
    readsAlone code = true ∧ captured code = meaning := by
  have parsed := parseExpression_of_reads balanced reads
  have noFault : imbalance? code = none := balanced
  exact ⟨by simp [readsAlone, noFault, parsed], by simp [captured, parsed]⟩

theorem readsAlone_encode (content : String) :
    readsAlone (Literal.encode content) = true ∧
      captured (Literal.encode content) = textExpr content :=
  readsAlone_of_reads (closes_encode content) (encode_reads content).listed

theorem readsAlone_grouped {code : String} (reads : readsAlone code = true) :
    readsAlone ("(" ++ code ++ ")") = true ∧ captured ("(" ++ code ++ ")") = captured code := by
  have balanced : Closes [] code.toList := by
    simp only [readsAlone, Bool.and_eq_true, Option.isNone_iff_eq_none] at reads
    exact reads.1
  have grouped := group_operand (captured_reads reads)
  refine readsAlone_of_reads ?_ ?_
  · simpa using closes_enclosed (c := '(') rfl rfl balanced
  · simpa using grouped.listed

def styleEntry (entry : String × String) : String :=
  Literal.encode entry.1 ++ ":" ++ Literal.encode entry.2

theorem styleEntry_reads (entry : String × String) :
    EntryReads (styleEntry entry).toList (namedField entry.1 (textExpr entry.2)) := by
  have entryReads := (keyCode_reads entry.1 false (by simp)).entry (encode_reads entry.2).listed
  simpa [styleEntry, keyCode, keyMeaning, namedField] using entryReads

theorem closes_styleEntry (entry : String × String) : Closes [] (styleEntry entry).toList := by
  have colon : isPlain ':' = true := rfl
  have text : ":".toList = [':'] := rfl
  rw [styleEntry, String.toList_append, String.toList_append, List.append_assoc,
    closes_append_iff (closes_encode entry.1), text, List.singleton_append, closes_plain_iff colon]
  exact closes_encode entry.2

theorem readsAlone_styleCode (value : String) :
    readsAlone (Web.styleCode value) = true ∧
      captured (Web.styleCode value) =
        .record ((parseStyle value).map fun entry => namedField entry.1 (textExpr entry.2)) := by
  have object := record_operand (forall₂_map EntryReads styleEntry
    (fun entry => namedField entry.1 (textExpr entry.2))
    fun entry (_ : entry ∈ parseStyle value) => styleEntry_reads entry)
  have inside : Closes [] (commaList (((parseStyle value).map styleEntry).map String.toList)) := by
    refine closes_commaList fun code held => ?_
    simp only [List.mem_map] at held
    obtain ⟨-, ⟨entry, -, rfl⟩, rfl⟩ := held
    exact closes_styleEntry entry
  have written : (Web.styleCode value).toList =
      '\x7b' :: commaList (((parseStyle value).map styleEntry).map String.toList) ++ ['\x7d'] := by
    rw [← braced_toList]
    rfl
  refine readsAlone_of_reads ?_ ?_
  · rw [written]
    exact closes_enclosed rfl rfl inside
  · rw [written]
    exact object.listed

end Templating.Rendering
