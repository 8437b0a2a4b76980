import Templating.Proofs.Text.Search
import Templating.Proofs.Text.Trimming
import Templating.Template.Styling
/-!
# Semicolons in parentheses

Style text is cut at semicolons by a counter of parentheses.  The counter is compared with the
matching of parentheses by a stack: it is the number of open parentheses less the number of closing
ones that close none, so that it tells what is enclosed as long as these stay in the minority.
-/
set_option autoImplicit false

namespace Templating.Template

open Templating.Text

/-- Parentheses matched by a stack: the places of the open ones, innermost first, the number of
closing ones that closed none, and the places of those that close each other. -/
structure Parentheses where
  opened : List Nat
  stray : Nat
  pairs : List (Nat × Nat)

namespace Parentheses

def take (met : Parentheses) (place : Nat) (c : Char) : Parentheses :=
  if c = '(' then { met with opened := place :: met.opened }
  else if c = ')' then
    match met.opened with
    | [] => { met with stray := met.stray + 1 }
    | opener :: outer => { met with opened := outer, pairs := (opener, place) :: met.pairs }
  else met

def run (met : Parentheses) (place : Nat) : List Char → Parentheses
  | [] => met
  | c :: rest => (met.take place c).run (place + 1) rest

def of (source : List Char) : Parentheses := run ⟨[], 0, []⟩ 0 source

theorem run_append (met : Parentheses) (place : Nat) (front rest : List Char) :
    met.run place (front ++ rest) = (met.run place front).run (place + front.length) rest := by
  induction front generalizing met place with
  | nil => rfl
  | cons c front ih =>
    rw [List.cons_append, run, run, ih, List.length_cons, Nat.add_right_comm, Nat.add_assoc]

theorem of_append (front rest : List Char) : of (front ++ rest) = (of front).run front.length rest := by
  rw [of, run_append, Nat.zero_add, of]

/-- What a counter that never stops shows. -/
def depth (met : Parentheses) : Int := met.opened.length - met.stray

section Members

variable {met : Parentheses} {place opener closer : Nat}

theorem mem_opened_take {c : Char} (held : opener ∈ (met.take place c).opened) :
    opener ∈ met.opened ∨ opener = place := by
  obtain ⟨opened, stray, pairs⟩ := met
  unfold take at held
  split at held
  · exact (List.mem_cons.mp held).symm
  split at held
  · cases opened with
    | nil => exact .inl held
    | cons inner outer => exact .inl (List.mem_cons_of_mem inner held)
  · exact .inl held

theorem mem_pairs_take {c : Char} (paired : (opener, closer) ∈ (met.take place c).pairs) :
    (opener, closer) ∈ met.pairs ∨ opener ∈ met.opened ∧ closer = place := by
  obtain ⟨opened, stray, pairs⟩ := met
  unfold take at paired
  split at paired
  · exact .inl paired
  split at paired
  · cases opened with
    | nil => exact .inl paired
    | cons inner outer =>
      rcases List.mem_cons.mp paired with same | before
      · cases same
        exact .inr ⟨List.mem_cons_self, rfl⟩
      · exact .inl before
  · exact .inl paired

/-- A pair that is made in a text closes there, and opens there or was open before. -/
theorem mem_pairs_run {source : List Char}
    (paired : (opener, closer) ∈ (met.run place source).pairs) :
    (opener, closer) ∈ met.pairs ∨
      (opener ∈ met.opened ∨ place ≤ opener) ∧ place ≤ closer ∧ closer < place + source.length := by
  induction source generalizing met place with
  | nil => exact .inl paired
  | cons c rest ih =>
    rw [List.length_cons]
    rcases ih paired with now | ⟨origin, later, within⟩
    · rcases mem_pairs_take now with before | ⟨isOpen, rfl⟩
      · exact .inl before
      · exact .inr ⟨.inl isOpen, Nat.le_refl _, by omega⟩
    · refine .inr ⟨?_, by omega, by omega⟩
      rcases origin with isOpen | beyond
      · rcases mem_opened_take isOpen with before | rfl
        · exact .inl before
        · exact .inr (Nat.le_refl _)
      · exact .inr (by omega)

end Members

theorem opened_of_paired {before after : List Char} {opener closer : Nat}
    (paired : (opener, closer) ∈ (of (before ++ after)).pairs)
    (opens : opener < before.length) (closes : before.length ≤ closer) :
    opener ∈ (of before).opened := by
  rw [of_append] at paired
  rcases mem_pairs_run paired with earlier | ⟨origin, -, -⟩
  · rcases mem_pairs_run earlier with none | ⟨-, -, within⟩
    · cases none
    · omega
  · exact origin.resolve_right (by omega)

end Parentheses

def depthAfter (depth : Int) (c : Char) : Int :=
  if c = '(' then depth + 1 else if c = ')' then depth - 1 else depth

def depthBehind (depth : Int) : List Char → Int
  | [] => depth
  | c :: rest => depthBehind (depthAfter depth c) rest

theorem Parentheses.depth_take (met : Parentheses) (place : Nat) (c : Char) :
    (met.take place c).depth = depthAfter met.depth c := by
  obtain ⟨opened, stray, pairs⟩ := met
  unfold take depthAfter depth
  by_cases isOpening : c = '('
  · simp only [if_pos isOpening, List.length_cons]
    omega
  by_cases isClosing : c = ')'
  · simp only [if_neg isOpening, if_pos isClosing]
    cases opened with
    | nil =>
      simp only [List.length_nil]
      omega
    | cons opener outer =>
      simp only [List.length_cons]
      omega
  · simp only [if_neg isOpening, if_neg isClosing]

/-- The counter is what is open less what was closed without being open. -/
theorem Parentheses.depth_run (met : Parentheses) (place : Nat) (source : List Char) :
    (met.run place source).depth = depthBehind met.depth source := by
  induction source generalizing met place with
  | nil => rfl
  | cons c rest ih => rw [run, ih, depth_take, depthBehind]

theorem declarations_cons_cut {depth : Int} (outside : depth ≤ 0) (rest : List Char) :
    declarations depth (';' :: rest) = [] :: declarations depth rest := by
  rw [declarations, if_pos ⟨rfl, outside⟩]

theorem declarations_cons_kept {depth : Int} {c : Char} (kept : ¬ (c = ';' ∧ depth ≤ 0))
    {rest piece : List Char} {others : List (List Char)}
    (cut : declarations (depthAfter depth c) rest = piece :: others) :
    declarations depth (c :: rest) = (c :: piece) :: others := by
  unfold depthAfter at cut
  rw [declarations, if_neg kept]
  dsimp only
  rw [cut]

theorem declarations_eq_cons (depth : Int) (source : List Char) :
    ∃ piece others, declarations depth source = piece :: others := by
  induction source generalizing depth with
  | nil => exact ⟨[], [], rfl⟩
  | cons c rest ih =>
    by_cases ends : c = ';' ∧ depth ≤ 0
    · obtain ⟨rfl, outside⟩ := ends
      exact ⟨_, _, declarations_cons_cut outside rest⟩
    · obtain ⟨piece, others, cut⟩ := ih (depthAfter depth c)
      exact ⟨_, _, declarations_cons_kept ends cut⟩

/-- Cutting a text goes on where cutting its front has stopped: the last piece of the front and the
first piece of the rest are one. -/
theorem declarations_append (depth : Int) (front rest : List Char) :
    ∃ earlier left right later, declarations depth front = earlier ++ [left] ∧
      declarations (depthBehind depth front) rest = right :: later ∧
      declarations depth (front ++ rest) = earlier ++ (left ++ right) :: later := by
  induction front generalizing depth with
  | nil =>
    obtain ⟨right, later, cut⟩ := declarations_eq_cons depth rest
    exact ⟨[], [], right, later, rfl, cut, cut⟩
  | cons c front ih =>
    by_cases ends : c = ';' ∧ depth ≤ 0
    · obtain ⟨rfl, outside⟩ := ends
      obtain ⟨earlier, left, right, later, cutFront, cutRest, cut⟩ := ih depth
      refine ⟨[] :: earlier, left, right, later, ?_, cutRest, ?_⟩
      · rw [declarations_cons_cut outside, cutFront, List.cons_append]
      · rw [List.cons_append, declarations_cons_cut outside, cut, List.cons_append]
    · obtain ⟨earlier, left, right, later, cutFront, cutRest, cut⟩ := ih (depthAfter depth c)
      cases earlier with
      | nil =>
        exact ⟨[], c :: left, right, later, declarations_cons_kept ends cutFront, cutRest,
          declarations_cons_kept ends cut⟩
      | cons piece earlier =>
        exact ⟨(c :: piece) :: earlier, left, right, later, declarations_cons_kept ends cutFront,
          cutRest, declarations_cons_kept ends cut⟩

/-- A name before the colon makes a declaration of all that follows in the piece; a character
behind the colon that can be seen is in the value. -/
theorem declaration_append {left : List Char} {name value : String}
    (named : declaration? left = some (name, value)) {c : Char} (visible : isBlank c = false)
    (right : List Char) :
    ∃ front rest : String, trimmed front = value ∧
      declaration? (left ++ c :: right) = some (name, front ++ String.ofList [c] ++ rest) := by
  unfold declaration? at named ⊢
  cases cut : cutAt? ':' left with
  | none =>
    rw [cut] at named
    cases named
  | some parts =>
    obtain ⟨key, text⟩ := parts
    have again : cutAt? ':' (left ++ c :: right) = some (key, text ++ c :: right) := by
      have whole := breakAt_eq_some cut
      rw [whole, List.append_assoc]
      exact breakAt_replaced cut _
    rw [cut] at named
    rw [again]
    dsimp only at named ⊢
    split at named
    · cases named
    · next visibleName =>
      simp only [Option.some.injEq, Prod.mk.injEq] at named
      obtain ⟨rfl, rfl⟩ := named
      refine ⟨String.ofList (trimStart text), String.ofList (trimEnd right), ?_, ?_⟩
      · have split : text = text.takeWhile isBlank ++ trimStart text :=
          List.takeWhile_append_dropWhile.symm
        have same := congrArg trim split
        rw [trim_blanks_append (List.all_eq_true.mp List.all_takeWhile)] at same
        rw [trimmed, String.toList_ofList, same]
      · rw [if_neg visibleName, trim_around _ _ visible, ← String.ofList_append,
          ← String.ofList_append, List.append_assoc]
        rfl

/-- The semicolon behind `before` belongs to the declaration in which it stands, and to its value
if the name stands before it. -/
structure IsKept (before after : List Char) : Prop where
  inside : ∃ earlier left right later, declarations 0 before = earlier ++ [left] ∧
    declarations 0 (before ++ ';' :: after) = earlier ++ (left ++ ';' :: right) :: later
  valued : ∀ earlier left name value, declarations 0 before = earlier ++ [left] →
    declaration? left = some (name, value) →
    ∃ front rest, trimmed front = value ∧
      (name, front ++ ";" ++ rest) ∈ parseStyle (String.ofList (before ++ ';' :: after))

/-- The semicolon behind `before` ends the declaration in which it stands. -/
def IsCut (before after : List Char) : Prop :=
  ∃ later, declarations 0 (before ++ ';' :: after) = declarations 0 before ++ later

theorem IsKept.not_isCut {before after : List Char} (kept : IsKept before after) :
    ¬ IsCut before after := by
  rintro ⟨later, cut⟩
  obtain ⟨earlier, left, right, others, cutFront, whole⟩ := kept.inside
  rw [cut, cutFront, List.append_assoc, List.append_cancel_left_eq] at whole
  have same : left = left ++ ';' :: right := (List.cons.inj whole).1
  simp at same

theorem isKept_of_depth {before after : List Char} (enclosed : 0 < depthBehind 0 before) :
    IsKept before after := by
  obtain ⟨earlier, left, right, later, cutFront, cutRest, cut⟩ :=
    declarations_append 0 before (';' :: after)
  have continued : ∃ more, right = ';' :: more := by
    obtain ⟨piece, others, behind⟩ :=
      declarations_eq_cons (depthAfter (depthBehind 0 before) ';') after
    rw [declarations_cons_kept (fun ends => absurd ends.2 (by omega)) behind] at cutRest
    exact ⟨piece, (List.cons.inj cutRest).1.symm⟩
  obtain ⟨more, rfl⟩ := continued
  refine ⟨⟨earlier, left, more, later, cutFront, cut⟩, ?_⟩
  intro others piece name value cutPiece named
  obtain ⟨rfl, same⟩ := List.append_inj' (cutFront.symm.trans cutPiece) rfl
  cases same
  obtain ⟨front, rest, shown, whole⟩ := declaration_append named (c := ';') (by decide) more
  refine ⟨front, rest, shown, List.mem_filterMap.mpr ⟨left ++ ';' :: more, ?_, whole⟩⟩
  rw [String.toList_ofList, cut]
  exact List.mem_append_right _ List.mem_cons_self

theorem isCut_of_depth {before after : List Char} (outside : depthBehind 0 before ≤ 0) :
    IsCut before after := by
  obtain ⟨earlier, left, right, later, cutFront, cutRest, cut⟩ :=
    declarations_append 0 before (';' :: after)
  rw [declarations_cons_cut outside] at cutRest
  obtain ⟨rfl, -⟩ := List.cons.inj cutRest
  exact ⟨later, by rw [cut, cutFront, List.append_nil, List.append_assoc, List.singleton_append]⟩

theorem isKept_iff_depth {before after : List Char} :
    IsKept before after ↔ 0 < depthBehind 0 before := by
  refine ⟨fun kept => ?_, isKept_of_depth⟩
  by_contra outside
  exact kept.not_isCut (isCut_of_depth (by omega))

/-- Between two parentheses that match, a semicolon is kept exactly if more parentheses are open
there than closing ones have been met that close none, and otherwise it ends its declaration.  As
the first of the two is open, it is kept wherever no closing parenthesis before it was in excess. -/
theorem enclosed_isKept_iff {before after : List Char} {opener closer : Nat}
    (paired : (opener, closer) ∈ (Parentheses.of (before ++ ';' :: after)).pairs)
    (opens : opener < before.length) (closes : before.length < closer) :
    opener ∈ (Parentheses.of before).opened ∧
      (IsKept before after ↔ (Parentheses.of before).stray < (Parentheses.of before).opened.length) ∧
      (IsCut before after ↔
        (Parentheses.of before).opened.length ≤ (Parentheses.of before).stray) := by
  have counted : depthBehind 0 before =
      (Parentheses.of before).opened.length - (Parentheses.of before).stray :=
    (Parentheses.depth_run ⟨[], 0, []⟩ 0 before).symm
  have kept : IsKept before after ↔
      (Parentheses.of before).stray < (Parentheses.of before).opened.length := by
    rw [isKept_iff_depth, counted]
    omega
  refine ⟨Parentheses.opened_of_paired paired opens closes.le, kept, ?_⟩
  constructor
  · intro cut
    by_contra majority
    exact (kept.mpr (by omega)).not_isCut cut
  · intro minority
    exact isCut_of_depth (by omega)

/-- An address with parentheses in it, as in the value of a background. -/
theorem address_isKept :
    IsKept "color: red; background: url(a;(b)".toList "c);".toList := by
  have paired : (27, 35) ∈ (Parentheses.of
      ("color: red; background: url(a;(b)".toList ++ ';' :: "c);".toList)).pairs := by decide
  have majority : (Parentheses.of "color: red; background: url(a;(b)".toList).stray <
      (Parentheses.of "color: red; background: url(a;(b)".toList).opened.length := by decide
  exact (enclosed_isKept_iff paired (by decide) (by decide)).2.1.mpr majority

/-- Behind a closing parenthesis in excess, in an earlier declaration, an address is cut. -/
theorem strayed_isCut :
    (10, 14) ∈ (Parentheses.of ("a:b);c:url(x".toList ++ ';' :: "y)".toList)).pairs ∧
      "a:b);c:url(x".length = 12 ∧ ¬ IsKept "a:b);c:url(x".toList "y)".toList ∧
      parseStyle "a:b);c:url(x;y)" = [("a", "b)"), ("c", "url(x")] := by
  refine ⟨by decide, by decide, ?_, by decide⟩
  rw [isKept_iff_depth]
  decide

end Templating.Template
