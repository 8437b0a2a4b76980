import Templating.Proofs.Grammar.Precedence
/-!
# Printed expressions are read back

A form is printed in parentheses where its rank in the table of precedence is too low for
its place: behind an operator and before one, before an access, and as a test.  Operators of
one rank group from the left.  What is printed is read as the same tree.
-/
set_option autoImplicit false

namespace Templating.Expression

open Templating.Text Templating.Data Grammar

/-! ## Ranks -/

/-- The operator with a blank behind it if it is a word. -/
def UnaryOperator.print : UnaryOperator → String
  | .not => "!"
  | .negate => "-"
  | .plus => "+"
  | .typeOf => "typeof "
  | .void => "void "

def BinaryOperator.print : BinaryOperator → String
  | .or => "||"
  | .coalesce => "??"
  | .and => "&&"
  | .strictEqual => "==="
  | .strictUnequal => "!=="
  | .equal => "=="
  | .unequal => "!="
  | .less => "<"
  | .lessEqual => "<="
  | .greater => ">"
  | .greaterEqual => ">="
  | .add => "+"
  | .subtract => "-"
  | .multiply => "*"
  | .divide => "/"
  | .remainder => "%"

def BinaryOperator.rank : BinaryOperator → Nat
  | .or | .coalesce => 1
  | .and => 2
  | .strictEqual | .strictUnequal | .equal | .unequal => 3
  | .less | .lessEqual | .greater | .greaterEqual => 4
  | .add | .subtract => 5
  | .multiply | .divide | .remainder => 6

/-- Where a form stands in the table of precedence; a higher rank binds tighter. -/
def Expr.rank : Expr → Nat
  | .conditional .. => 0
  | .binary operator _ _ => operator.rank
  | .unary .. => 7
  | .member .. | .index .. | .call .. => 8
  | _ => 9

/-! ## Printing -/

/-- Words and texts; a number is not printed. -/
def printLiteral : Value → List Char
  | .string content => Literal.encodeChars content.toList
  | .boolean true => "true".toList
  | .boolean false => "false".toList
  | .null => "null".toList
  | .undefined => "undefined".toList
  | _ => []

def printFunction (parameters : List (List Char)) (body : List Char) : List Char :=
  "function(".toList ++ commaList parameters ++ ")\x7breturn ".toList ++ body ++ ['\x7d']

def Pattern.print : Pattern → List Char
  | .name given => given.toList
  | _ => []

/-- Parentheses around a form whose rank is not above `rank`. -/
def grouped (rank : Nat) (form : Expr) (code : List Char) : List Char :=
  if rank < form.rank then code else '(' :: code ++ [')']

mutual

/-- The source of an expression; a number or a listener gives nothing. -/
def Expr.print : Expr → List Char
  | .literal value => printLiteral value
  | .this => "this".toList
  | .name given => given.toList
  | .member target property => grouped 7 target target.print ++ '.' :: property.toList
  | .index target key => grouped 7 target target.print ++ '[' :: (key.print ++ [']'])
  | .call callee arguments =>
    grouped 7 callee callee.print ++ '(' :: (commaList (printItems arguments) ++ [')'])
  | .unary operator operand => operator.print.toList ++ grouped 6 operand operand.print
  | .binary operator left right =>
    grouped (operator.rank - 1) left left.print ++
      (operator.print.toList ++ grouped operator.rank right right.print)
  | .conditional test whenTrue whenFalse =>
    grouped 0 test test.print ++ '?' :: (whenTrue.print ++ ':' :: whenFalse.print)
  | .list items => '[' :: commaList (printItems items) ++ [']']
  | .record entries => '\x7b' :: commaList (printEntries entries) ++ ['\x7d']
  | .listeners _ => []
  | .function parameters body => printFunction (parameters.map Pattern.print) body.print

def Key.print : Key → List Char
  | .fixed name => Literal.encodeChars name.toList
  | .computed expression => '[' :: expression.print ++ [']']

def printItems : List Expr → List (List Char)
  | [] => []
  | item :: rest => item.print :: printItems rest

def printEntries : List (Key × Expr) → List (List Char)
  | [] => []
  | (key, value) :: rest => (key.print ++ ':' :: value.print) :: printEntries rest

end

def IsVariableName (name : String) : Prop :=
  isIdentifier name.toList = true ∧ name ∉ reserved

instance (name : String) : Decidable (IsVariableName name) := inferInstanceAs (Decidable (_ ∧ _))

/-- The trees that are printed: those without numbers, listeners and patterns of several
parts, in which all names can be written. -/
inductive Expr.Printable : Expr → Prop where
  | text (content : String) : Printable (.literal (.string content))
  | boolean (value : Bool) : Printable (.literal (.boolean value))
  | null : Printable (.literal .null)
  | undefined : Printable (.literal .undefined)
  | this : Printable .this
  | name {name : String} (free : IsVariableName name) : Printable (.name name)
  | member {target : Expr} {property : String} (inner : Printable target)
      (identifier : isIdentifier property.toList = true) : Printable (.member target property)
  | index {target key : Expr} (inner : Printable target) (innerKey : Printable key) :
    Printable (.index target key)
  | call {callee : Expr} {arguments : List Expr} (inner : Printable callee)
      (all : ∀ argument ∈ arguments, Printable argument) : Printable (.call callee arguments)
  | unary (operator : UnaryOperator) {operand : Expr} (inner : Printable operand) :
    Printable (.unary operator operand)
  | binary (operator : BinaryOperator) {left right : Expr} (innerLeft : Printable left)
      (innerRight : Printable right) : Printable (.binary operator left right)
  | conditional {test whenTrue whenFalse : Expr} (innerTest : Printable test)
      (innerTrue : Printable whenTrue) (innerFalse : Printable whenFalse) :
    Printable (.conditional test whenTrue whenFalse)
  | list {items : List Expr} (all : ∀ item ∈ items, Printable item) : Printable (.list items)
  | record {entries : List (Key × Expr)}
      (keys : ∀ key value, (Key.computed key, value) ∈ entries → Printable key)
      (values : ∀ entry ∈ entries, Printable entry.2) : Printable (.record entries)
  | function {names : List String} {body : Expr} (free : ∀ name ∈ names, IsVariableName name)
      (inner : Printable body) : Printable (.function (names.map Pattern.name) body)

/-! ## Levels of operators -/

def tighterLevels (rank : Nat) : List Level := operatorLevels.drop rank

theorem tighterLevels_above {rank : Nat} (above : 6 ≤ rank) : tighterLevels rank = [] :=
  List.drop_eq_nil_of_le (by simpa [operatorLevels] using above)

theorem tighterLevels_below {rank : Nat} (below : rank < 6) :
    ∃ level, tighterLevels rank = level :: tighterLevels (rank + 1) := by
  have short : rank < operatorLevels.length := by simpa [operatorLevels] using below
  exact ⟨operatorLevels[rank], List.drop_eq_getElem_cons short⟩

theorem readsLeft_looser {code : List Char} {result : Expr} {rank other : Nat} (less : other ≤ rank)
    (reads : ReadsLeft (tighterLevels rank) code result) :
    ReadsLeft (tighterLevels other) code result := by
  induction less with
  | refl => exact reads
  | @step rank less ih =>
    apply ih
    by_cases below : rank < 6
    · obtain ⟨level, same⟩ := tighterLevels_below below
      rw [same]
      exact reads.looser
    · rw [tighterLevels_above (by omega)] at reads ⊢
      exact reads

theorem Grammar.Target.readsLeft_at {code : List Char} {result : Expr} (target : Target code result)
    (rank : Nat) : ReadsLeft (tighterLevels rank) code result := by
  have tightest : ReadsLeft (tighterLevels (rank + 6)) code result := by
    rw [tighterLevels_above (Nat.le_add_left 6 rank)]
    exact target.readsLeft
  exact readsLeft_looser (Nat.le_add_right rank 6) tightest

theorem operator_level (operator : BinaryOperator) : ∃ level,
    tighterLevels (operator.rank - 1) = level :: tighterLevels operator.rank ∧
      (∀ rest, Ends (tighterLevels operator.rank) (operator.print.toList ++ rest)) ∧
      ∀ c rest, startsNothing c = false →
        binaryOperator level (operator.print.toList ++ c :: rest) = some (operator, c :: rest) := by
  cases operator
  all_goals
    refine ⟨_, rfl, fun rest => ends_cons (by decide) _, fun c rest starts => ?_⟩
    have differs : '=' ≠ c := by
      rintro rfl
      cases starts
    simp [binaryOperator, BinaryOperator.print, mark?, skipBlanks_cons, isSeparatingBlank, dropLeading?,
      differs]

theorem unary_print (operator : UnaryOperator) (source : List Char) :
    Grammar.unary expression (operator.print.toList ++ source) =
      (Grammar.unary expression source).map fun inner => (.unary operator inner.1, inner.2) := by
  cases operator with
  | not => exact unary_of_operator rfl
  | negate => exact unary_of_operator rfl
  | plus => exact unary_of_operator rfl
  | typeOf =>
    have name := anyName_written "typeof".toList rfl (d := ' ') rfl source
    have found := unaryOperator_of_name name
    rw [← unary_blank source]
    exact unary_of_operator found
  | void =>
    have name := anyName_written "void".toList rfl (d := ' ') rfl source
    have found := unaryOperator_of_name name
    rw [← unary_blank source]
    exact unary_of_operator found

theorem tighterLevels_inner (rank : Nat) :
    ∀ level ∈ tighterLevels rank, ∀ entry ∈ level, isInnerMark entry.1 = true := by
  have all : ∀ level ∈ operatorLevels, ∀ entry ∈ level, isInnerMark entry.1 = true := by decide
  intro level held
  exact all level (List.mem_of_mem_drop held)

theorem BinaryOperator.rank_pos (operator : BinaryOperator) : 0 < operator.rank ∧ operator.rank ≤ 6 := by
  cases operator <;> decide

theorem pattern_reads {name : String} (free : IsVariableName name) :
    Reads pattern endsListener (Pattern.name name).print (.name name) := by
  obtain ⟨identifier, free⟩ := free
  intro d tail ends
  have stops := isNameChar_of_endsOperand (endsOperand_of_endsBlock (endsBlock_of_endsListener ends))
  have found := anyName_written name.toList identifier stops tail
  rw [String.ofList_toList] at found
  refine ⟨[], rfl, ?_⟩
  simp [pattern, patternIn, patternWith, variableName, Pattern.print, found, free]

/-! ## Reading back -/

/-- The printed tree is read as itself: as a whole, at every place where it needs no
parentheses, and before accesses if it can stand there. -/
structure Expr.ReadsBack (tree : Expr) : Prop where
  whole : ReadsWhole tree.print tree
  left : ∀ rank < tree.rank, ReadsLeft (tighterLevels rank) tree.print tree
  target : 7 < tree.rank → Target tree.print tree

namespace Expr.ReadsBack

variable {tree : Expr}

theorem ofTarget (target : Target tree.print tree) : tree.ReadsBack :=
  ⟨(target.readsLeft_at 0).whole, fun rank _ => target.readsLeft_at rank, fun _ => target⟩

theorem ofPrimary (reads : ReadsPrimary tree.print tree) : tree.ReadsBack := .ofTarget reads.target

theorem ofLeft {rank : Nat} (ranked : tree.rank = rank + 1) (low : rank < 7)
    (reads : ReadsLeft (tighterLevels rank) tree.print tree) : tree.ReadsBack := by
  refine ⟨?_, ?_, ?_⟩
  · exact ReadsLeft.whole (readsLeft_looser (Nat.zero_le rank) reads)
  · intro other less
    exact readsLeft_looser (by omega) reads
  · intro high
    omega

section Places

variable (back : tree.ReadsBack)

include back

theorem group : ReadsPrimary ('(' :: tree.print ++ [')']) tree := group_primary back.whole.listed

theorem groupedTarget : Target (grouped 7 tree tree.print) tree := by
  unfold grouped
  split
  · next high => exact back.target high
  · exact back.group.target

theorem groupedLeft (rank : Nat) : ReadsLeft (tighterLevels rank) (grouped rank tree tree.print) tree := by
  unfold grouped
  split
  · next tight => exact back.left rank tight
  · exact back.group.target.readsLeft_at rank

theorem grouped_starts (rank : Nat) :
    ∃ c more, grouped rank tree tree.print = c :: more ∧ startsNothing c = false := by
  unfold grouped
  split
  · exact back.whole.reads.starts rfl
  · exact ⟨'(', tree.print ++ [')'], rfl, by decide⟩

end Places

theorem unary (operator : UnaryOperator) (back : tree.ReadsBack) : (Expr.unary operator tree).ReadsBack := by
  have inner : ReadsLeft [] (grouped 6 tree tree.print) tree := back.groupedLeft 6
  refine @ofLeft _ 6 rfl (by decide) ?_
  rw [Expr.print]
  intro rest ends
  rw [List.append_assoc, unary_print, inner rest ends]
  rfl

theorem binary (operator : BinaryOperator) {left right : Expr} (leftBack : left.ReadsBack)
    (rightBack : right.ReadsBack) : (Expr.binary operator left right).ReadsBack := by
  obtain ⟨positive, low⟩ := operator.rank_pos
  obtain ⟨level, same, stops, read⟩ := operator_level operator
  obtain ⟨c, more, start, starts⟩ := rightBack.grouped_starts operator.rank
  have ranked : (Expr.binary operator left right).rank = operator.rank - 1 + 1 := by
    rw [Expr.rank]
    omega
  refine .ofLeft ranked (by omega) ?_
  have inner := tighterLevels_inner (operator.rank - 1)
  have leftReads := leftBack.groupedLeft (operator.rank - 1)
  rw [Expr.print]
  rw [same] at inner leftReads ⊢
  refine ReadsLeft.binary inner stops ?_ leftReads (rightBack.groupedLeft operator.rank)
  intro rest
  rw [start]
  exact read c (more ++ rest) starts

theorem conditional {test whenTrue whenFalse : Expr} (testBack : test.ReadsBack)
    (trueBack : whenTrue.ReadsBack) (falseBack : whenFalse.ReadsBack) :
    (Expr.conditional test whenTrue whenFalse).ReadsBack := by
  refine ⟨?_, ?_, ?_⟩
  · rw [Expr.print]
    exact ReadsLeft.conditional (testBack.groupedLeft 0) trueBack.whole falseBack.whole
  · intro rank less
    cases less
  · intro high
    cases high

end Expr.ReadsBack

theorem printItems_read {items : List Expr} (all : ∀ item ∈ items, item.ReadsBack) :
    List.Forall₂ (Reads expression endsListener) (printItems items) items := by
  induction items with
  | nil => exact .nil
  | cons item rest ih =>
    obtain ⟨first, others⟩ := List.forall_mem_cons.mp all
    exact .cons first.whole.listed (ih others)

theorem key_reads {given : Key} (computed : ∀ inner, given = .computed inner → inner.ReadsBack) :
    KeyReads given.print given := by
  cases given with
  | fixed name =>
    have reads := KeyReads.ofLiteral name.toList
    rw [String.ofList_toList] at reads
    exact reads
  | computed inner => exact .ofComputed (computed inner rfl).whole.listed

theorem printEntries_read {entries : List (Key × Expr)}
    (keys : ∀ inner value, (Key.computed inner, value) ∈ entries → inner.ReadsBack)
    (values : ∀ entry ∈ entries, entry.2.ReadsBack) :
    List.Forall₂ (Reads (entryWith expression) endsListener) (printEntries entries) entries := by
  induction entries with
  | nil => exact .nil
  | cons entry rest ih =>
    obtain ⟨given, value⟩ := entry
    obtain ⟨first, others⟩ := List.forall_mem_cons.mp values
    have keyReads : KeyReads given.print given := key_reads fun inner same =>
      keys inner value (same ▸ List.mem_cons_self)
    refine .cons (keyReads.entry first.whole.listed) (ih ?_ others)
    intro inner value held
    exact keys inner value (List.mem_cons_of_mem _ held)

theorem parameters_read {names : List String} (free : ∀ name ∈ names, IsVariableName name) :
    List.Forall₂ (Reads pattern endsListener) ((names.map Pattern.name).map Pattern.print)
      (names.map Pattern.name) := by
  induction names with
  | nil => exact .nil
  | cons name rest ih =>
    obtain ⟨first, others⟩ := List.forall_mem_cons.mp free
    exact .cons (pattern_reads first) (ih others)

theorem Expr.Printable.readsBack {tree : Expr} (printable : tree.Printable) : tree.ReadsBack := by
  induction printable with
  | text content =>
    have reads := literal_primary content.toList
    rw [String.ofList_toList] at reads
    exact .ofPrimary reads
  | boolean value =>
    cases value with
    | false => exact .ofPrimary false_primary
    | true => exact .ofPrimary true_primary
  | null => exact .ofPrimary null_primary
  | undefined => exact .ofPrimary undefined_primary
  | this => exact .ofPrimary this_primary
  | @name given free =>
    obtain ⟨identifier, free⟩ := free
    rw [← String.ofList_toList (s := given)] at free
    have reads := name_primary identifier free
    rw [String.ofList_toList] at reads
    exact .ofPrimary reads
  | member inner identifier ih =>
    have reads := ih.groupedTarget.member identifier
    rw [String.ofList_toList] at reads
    refine .ofTarget ?_
    rw [Expr.print]
    exact reads
  | index inner innerKey ih ihKey =>
    refine .ofTarget ?_
    rw [Expr.print]
    exact ih.groupedTarget.index ihKey.whole.listed
  | call inner all ih ihAll =>
    refine .ofTarget ?_
    rw [Expr.print]
    exact ih.groupedTarget.call (printItems_read ihAll)
  | unary operator inner ih => exact .unary operator ih
  | binary operator innerLeft innerRight ihLeft ihRight => exact .binary operator ihLeft ihRight
  | conditional innerTest innerTrue innerFalse ihTest ihTrue ihFalse =>
    exact .conditional ihTest ihTrue ihFalse
  | list all ih =>
    refine .ofPrimary ?_
    rw [Expr.print]
    exact list_primary (printItems_read ih)
  | record keys values ihKeys ihValues =>
    refine .ofPrimary ?_
    rw [Expr.print]
    exact record_primary (printEntries_read ihKeys ihValues)
  | function free inner ih =>
    refine .ofPrimary ?_
    rw [Expr.print]
    exact function_primary (parameters_read free) ih.whole.reads

/-- Printing and reading gives back the same tree. -/
theorem parse_print {tree : Expr} (printable : tree.Printable) :
    parseExpression? (String.ofList tree.print) = some tree := by
  have read := printable.readsBack.whole [] ends_nil rfl
  rw [List.append_nil] at read
  unfold parseExpression? whole?
  rw [String.toList_ofList, read]
  rfl

/-- A literal is read as the text that it was written for: as an expression, as an operand and
as a key of an object, whatever follows it. -/
theorem encoded_reads (content : String) :
    parseExpression? (Literal.encode content) = some (.literal (.string content)) ∧
      ∀ rest, textLiteral ((Literal.encode content).toList ++ rest) = some (content, rest) ∧
        ∀ nested : Reader Expr,
          primary nested ((Literal.encode content).toList ++ rest) =
              some (.literal (.string content), rest) ∧
            keyWith nested ((Literal.encode content).toList ++ rest) = some (.fixed content, rest) ∧
            entryWith nested ((Literal.encode content).toList ++ rest) =
              ((mark? ":" rest).bind nested).map
                fun found => ((.fixed content, found.1), found.2) := by
  have code : (Literal.encode content).toList = Literal.encodeChars content.toList :=
    String.toList_ofList
  have literal := textLiteral_encodeChars content.toList
  have operand := fun nested => @primary_literal nested content.toList
  have key := fun nested => keyWith_literal nested content.toList
  have entry := fun nested => entryWith_literal nested content.toList
  have whole : expression (Literal.encodeChars content.toList) =
      some (.literal (.string content), []) := by
    have alone := (Expr.Printable.text content).readsBack.whole [] ends_nil rfl
    rwa [List.append_nil] at alone
  rw [String.ofList_toList] at literal
  simp only [String.ofList_toList] at operand key entry
  rw [parseExpression?, whole_eq_some_iff, code]
  exact ⟨⟨[], whole, rfl⟩, fun rest => ⟨literal rest, fun nested =>
    ⟨operand nested rest, key nested rest, entry nested rest⟩⟩⟩

/-- Forms of every rank in places that are too tight for them. -/
def nestedTree : Expr :=
  .conditional (.conditional .this (.name "a") (.literal (.boolean true)))
    (.binary .subtract (.binary .subtract (.name "a") (.literal .null))
      (.binary .coalesce (.unary .negate (.unary .negate (.name "b"))) (.literal .undefined)))
    (.call (.member (.unary .typeOf (.binary .unequal (.name "c") (.unary .not (.name "d")))) "void")
      [.list [.index (.name "on") (.literal (.string "\"]"))],
        .record [(.fixed "on", .record []), (.computed (.name "e"), .literal (.boolean false))],
        .call (.function (["f", "g"].map Pattern.name) (.name "f")) []])

theorem nestedTree_parses :
    nestedTree.Printable ∧
      String.ofList nestedTree.print = "(this?a:true)?a-null-(--b??undefined):" ++
        "(typeof (c!=!d)).void([on[\"\\\"]\"]],\x7b\"on\":\x7b\x7d,[e]:false\x7d," ++
        "function(f,g)\x7breturn f\x7d())" ∧
      parseExpression? (String.ofList nestedTree.print) = some nestedTree := by
  have name (given : String) (free : IsVariableName given) : (Expr.name given).Printable := .name free
  have difference := Expr.Printable.binary .subtract
    (.binary .subtract (name "a" (by decide)) .null)
    (.binary .coalesce (.unary .negate (.unary .negate (name "b" (by decide)))) .undefined)
  have member := @Expr.Printable.member _ "void"
    (.unary .typeOf (.binary .unequal (name "c" (by decide)) (.unary .not (name "d" (by decide)))))
    (by decide)
  have list : (Expr.list [.index (.name "on") (.literal (.string "\"]"))]).Printable :=
    .list (List.forall_mem_singleton.mpr (.index (name "on" (by decide)) (.text "\"]")))
  have record : (Expr.record [(.fixed "on", .record []),
      (.computed (.name "e"), .literal (.boolean false))]).Printable := by
    refine .record ?_ ?_
    · intro key value held
      simp only [List.mem_cons, Prod.mk.injEq, reduceCtorEq, false_and, false_or, List.not_mem_nil,
        or_false, Key.computed.injEq] at held
      rw [held.1]
      exact name "e" (by decide)
    · refine List.forall_mem_cons.mpr ⟨.record ?_ ?_, List.forall_mem_singleton.mpr (.boolean false)⟩
      · intro key value held
        cases held
      · intro entry held
        cases held
  have called : (Expr.call (.function (["f", "g"].map Pattern.name) (.name "f")) []).Printable :=
    .call (.function (by decide) (name "f" (by decide))) (List.forall_mem_nil _)
  have printable : nestedTree.Printable :=
    .conditional (.conditional .this (name "a" (by decide)) (.boolean true)) difference
      (.call member (List.forall_mem_cons.mpr ⟨list, List.forall_mem_cons.mpr
        ⟨record, List.forall_mem_singleton.mpr called⟩⟩))
  exact ⟨printable, by decide +kernel, parse_print printable⟩

end Templating.Expression
