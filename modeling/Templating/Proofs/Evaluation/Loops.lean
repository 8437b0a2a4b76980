import Templating.Proofs.Evaluation.Cache
import Templating.Proofs.Template.LoopHeaders
import Templating.Tree.Markup
/-!
# Loop variables

Each turn of a loop hands three values to the body: the item, its key or else its position,
and behind a key the position.  The variables take them by their places, from the text of
the loop through the parameters of the generated function to the scope of the body.

A place that is left empty in the text is not kept in the parameters: a second variable
without a first one takes the value of the first.
-/
set_option autoImplicit false

namespace Templating.Evaluation

open Templating.Text Templating.Data Templating.Expression Templating.Expression.Grammar
open Templating.Template Templating.Rendering

/-! ## Turns -/

structure Turn where
  item : Datum
  first : Datum
  second : Datum

namespace Turn

/-- An item of a list is followed by its position. -/
def ofItem (item : Datum) (position : Nat) : Turn := ⟨item, .ofCount position, .undefined⟩

/-- The value of a field is followed by the field's name and its position. -/
def ofField (field : String × Datum) (position : Nat) : Turn :=
  ⟨field.2, .ofString field.1, .ofCount position⟩

/-- The turns of a loop over `source`: over items, over fields, over the numbers from one up
to a number, or over the characters of a text; over anything else there are none. -/
def sequence : Datum → List Turn
  | .list items => items.mapIdx fun position item => ofItem item position
  | .plain (.list items) => items.mapIdx fun position item => ofItem (.plain item) position
  | .record fields => fields.mapIdx fun position field => ofField field position
  | .plain (.record fields) =>
    fields.mapIdx fun position field => ofField (field.1, .plain field.2) position
  | .plain (.number limit) =>
    (List.range (if 0 < limit then Number.wholePart limit else 0)).map fun position =>
      ofItem (.ofCount (position + 1)) position
  | .plain (.string content) =>
    content.toList.mapIdx fun position c => ofItem (.ofString (String.singleton c)) position
  | _ => []

def arguments (turn : Turn) : List Datum := [turn.item, turn.first, turn.second]

end Turn

/-- Two rows of arguments bind alike: they differ in arguments that are not given. -/
def BindAlike (row other : List Datum) : Prop :=
  ∀ patterns, bindParameters patterns row = bindParameters patterns other

theorem bindParameters_undefined (patterns : List Pattern) :
    bindParameters patterns [.undefined] = bindParameters patterns [] := by
  cases patterns with
  | nil => rfl
  | cons pattern patterns => rfl

theorem bindAlike_ofItem (item : Datum) (position : Nat) :
    BindAlike [item, .ofCount position] (Turn.ofItem item position).arguments := by
  intro patterns
  cases patterns with
  | nil => rfl
  | cons first patterns =>
    cases patterns with
    | nil => rfl
    | cons second patterns =>
      simp only [Turn.ofItem, Turn.arguments, bindParameters, bindParameters_undefined]

theorem rows_alike {α : Type} {row : α → Nat → List Datum} {turn : α → Nat → Turn}
    (each : ∀ item position, BindAlike (row item position) (turn item position).arguments)
    (items : List α) :
    List.Forall₂ BindAlike (items.zipIdx.map fun (item, position) => row item position)
      ((items.mapIdx fun position item => turn item position).map Turn.arguments) := by
  rw [List.mapIdx_eq_zipIdx_map, List.map_map]
  generalize items.zipIdx = entries
  induction entries with
  | nil => exact .nil
  | cons entry entries ih => exact .cons (each entry.1 entry.2) ih

/-- The rows of a loop are its turns, one for each and in order. -/
theorem rowsOf_sequence (source : Datum) :
    List.Forall₂ BindAlike (rowsOf source) ((Turn.sequence source).map Turn.arguments) := by
  have same (row : List Datum) : BindAlike row row := fun _ => rfl
  cases source with
  | list items => exact rows_alike bindAlike_ofItem items
  | record fields =>
    exact rows_alike (fun field position => same (Turn.ofField field position).arguments) fields
  | plain value =>
    cases value with
    | list items => exact rows_alike (fun item => bindAlike_ofItem (.plain item)) items
    | record fields =>
      exact rows_alike (fun field position =>
        same (Turn.ofField (field.1, .plain field.2) position).arguments) fields
    | string content =>
      exact rows_alike (fun c => bindAlike_ofItem (.ofString (String.singleton c))) content.toList
    | number limit =>
      rw [rowsOf, Turn.sequence, List.map_map, List.forall₂_map_left_iff, List.forall₂_map_right_iff,
        List.forall₂_same]
      intro position _
      exact bindAlike_ofItem (.ofCount (position + 1)) position
    | undefined => exact .nil
    | null => exact .nil
    | boolean value => exact .nil
  | node node => exact .nil
  | listeners entries => exact .nil
  | closure parameters body scope => exact .nil

theorem renderRows_eq {enter : Entrance} {parameters : List Pattern} {body : Expr} {scope : Scope}
    {rows : List (List Datum)} {turns : List Turn}
    (alike : List.Forall₂ BindAlike rows (turns.map Turn.arguments)) :
    renderRows (applyClosure enter parameters body scope) rows = turns.mapM fun turn =>
      enter.body ((bindParameters parameters turn.arguments).reverse ++ scope) body := by
  induction turns generalizing rows with
  | nil =>
    cases alike
    rfl
  | cons turn turns ih =>
    cases alike with
    | cons here others =>
      rw [renderRows, List.mapM_cons, ih others, applyClosure, here parameters]

/-! ## Bindings -/

/-- The bindings of a variable, or of the variables in a pattern. -/
def bindVariable (target : String) (value : Datum) : List (String × Datum) :=
  match parsePattern? target with
  | some pattern => bindPattern value pattern
  | none => []

/-- In one turn each variable that is given takes the value of its place. -/
def Turn.bindings (header : Loop) (turn : Turn) : List (String × Datum) :=
  bindVariable header.item turn.item ++
    header.first.toList.flatMap (fun target => bindVariable target turn.first) ++
    header.second.toList.flatMap (fun target => bindVariable target turn.second)

/-- Without a gap, the parameters of the function stand in the places of the variables. -/
theorem bindParameters_targets {header : Loop} (placed : header.first = none → header.second = none)
    (patterns : ∀ target ∈ header.targets, (parsePattern? target).isSome = true) (turn : Turn) :
    bindParameters (targetsMeaning header) turn.arguments = turn.bindings header := by
  obtain ⟨source, item, first, second⟩ := header
  simp only [Loop.targets, List.forall_mem_cons] at patterns
  obtain ⟨itemRead, others⟩ := patterns
  obtain ⟨itemPattern, itemParsed⟩ := Option.isSome_iff_exists.mp itemRead
  cases first with
  | none =>
    obtain rfl := placed rfl
    simp [targetsMeaning, Loop.targets, Turn.bindings, Turn.arguments, bindVariable, itemParsed,
      bindParameters]
  | some first =>
    obtain ⟨firstPattern, firstParsed⟩ := Option.isSome_iff_exists.mp (others first (by simp))
    cases second with
    | none =>
      simp [targetsMeaning, Loop.targets, Turn.bindings, Turn.arguments, bindVariable, itemParsed,
        firstParsed, bindParameters]
    | some second =>
      obtain ⟨secondPattern, secondParsed⟩ := Option.isSome_iff_exists.mp (others second (by simp))
      simp [targetsMeaning, Loop.targets, Turn.bindings, Turn.arguments, bindVariable, itemParsed,
        firstParsed, secondParsed, bindParameters]

/-! ## Loops -/

/-- Loop variables bind by position.  Where the second variable is not given without the first,
what is written for a loop is read as a call that evaluates the source, and then the body once
for each turn in order, with each variable bound to the value of its place.  The source is any
code that is read as an expression where it stands. -/
theorem loop_binds {value : String} {header : Loop} (parsed : Loop.parse? value = some header)
    (patterns : ∀ target ∈ header.targets, (parsePattern? target).isSome = true)
    (placed : header.first = none → header.second = none) {source body : Expr}
    (sourceReads : Reads expression endsListener ("(" ++ header.source ++ ")").toList source)
    {context : Context} {head : Head} (repeated : head.loop = some header)
    (branches : List (Option String × Writer)) {inner : Writer} {loops : List (Option String)}
    {draft : Draft}
    (bodyReads : BlockReads ((inner (head.key :: loops)).run { draft with
      diagnostics := draft.diagnostics ++ loopDiagnostics context.settings head header }).1 body) :
    header.StandsIn value.toList ∧
    ∃ call, BlockReads ((Layer.loop.write context head branches inner loops).run draft).1 call ∧
      ∀ (environment : Environment) (enter : Entrance) (scope : Scope), scope.lookup "_l" = none →
        evaluate environment enter scope call = (do
          let datum ← evaluate environment enter scope source
          let items ← (Turn.sequence datum).mapM fun turn =>
            enter.body ((turn.bindings header).reverse ++ scope) body
          pure (.list items)) := by
  refine ⟨Loop.standsIn_of_parse parsed,
    helperCall "_l" [source, .function (targetsMeaning header) body], ?_, ?_⟩
  · simp only [Layer.write, repeated]
    exact loopCode_reads sourceReads patterns bodyReads
  · intro environment enter scope unhidden
    rw [evaluate_helperCall (by decide) unhidden]
    simp only [evaluateAll, evaluate, bind_assoc, pure_bind]
    congr 1
    funext datum
    have rows : renderList enter [datum, .closure (targetsMeaning header) body scope] = (do
        let items ← (Turn.sequence datum).mapM fun turn =>
          enter.body ((turn.bindings header).reverse ++ scope) body
        pure (.list items)) := by
      rw [renderList, renderRows_eq (rowsOf_sequence datum)]
      simp only [bindParameters_targets placed patterns]
    exact rows

def fieldsHead : Head :=
  { Head.new 0 "li" [] ⟨0, 0⟩ with loop := some ⟨"o", "v", some "k", some "i"⟩ }

def fieldsEnvironment : Environment :=
  ⟨.record [("o", .record [("a", .boolean true), ("b", .boolean false)])], [], []⟩

theorem fields_bind :
    Loop.parse? "(v, k, i) in o" = fieldsHead.loop ∧
    ∃ call, BlockReads ((Layer.loop.write ⟨Web.settings, .empty⟩ fieldsHead []
        (fun _ => return .ofSource "i") []).run .empty).1 call ∧
      evaluate fieldsEnvironment
          ⟨evaluateCalls fieldsEnvironment (fun _ => throw .tooDeep) 0, fun _ => throw .tooDeep⟩ []
          call [] =
        (.ok (.list [.ofCount 0, .ofCount 1]), []) := by
  have parsed : Loop.parse? "(v, k, i) in o" = some ⟨"o", "v", some "k", some "i"⟩ := by
    decide +kernel
  have source : Reads expression endsListener "(o)".toList (.name "o") :=
    (group_operand (captured_reads (by decide +kernel : readsAlone "o" = true))).listed
  have body : BlockReads (.ofSource "i") (.name "i") :=
    (name_primary (by decide : isIdentifier ['i'] = true) (by decide)).operand.reads
  obtain ⟨-, call, reads, evaluates⟩ := @loop_binds _ _ parsed (by decide +kernel)
    (fun impossible => by cases impossible) _ _ source ⟨Web.settings, .empty⟩ fieldsHead rfl []
    (fun _ => return .ofSource "i") [] .empty body
  refine ⟨parsed, call, reads, ?_⟩
  rw [evaluates _ _ [] rfl]
  rfl

/-- A loop over the fields of an object with an empty place before its last variable. -/
def gappedLoop : String :=
  "<ul><li v-for=\"(v,,i) in \x7ba:10,b:20\x7d\">\x7b\x7b i \x7d\x7d</li></ul>"

/-- The last variable stands in the third place, but takes the names of the fields, and not the
positions behind them. -/
theorem gappedLoop_shifts :
    Loop.parse? "(v,,i) in \x7ba:10,b:20\x7d" = some ⟨"\x7ba:10,b:20\x7d", "v", none, some "i"⟩ ∧
    givenName? (Loop.pieces 0 "v,,i".toList)[2]? = some "i" ∧
    (Turn.sequence (.record [("a", .ofCount 10), ("b", .ofCount 20)])).map Turn.second =
      [.ofCount 0, .ofCount 1] ∧
    (firstRender (Web.settings.overlaid .empty) gappedLoop .undefined).map Tree.Node.markup =
      some "<ul><li>a</li><li>b</li></ul>" :=
  ⟨by decide +kernel, by decide +kernel, rfl, by decide +kernel⟩

end Templating.Evaluation
