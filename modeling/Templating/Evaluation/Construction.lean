import Templating.Evaluation.Datum
import Templating.Template.Styling
/-!
# Construction of nodes

Elements are made from a tag, a data object and children; the data object also
takes in the fields of an object that is spread over it.
-/
set_option autoImplicit false

namespace Templating.Evaluation

open Templating.Text Templating.Data

/-! ## Children -/

mutual

def nodesOfValue : Value → List Tree.Node
  | .list items => nodesOfValues items
  | .string content => [.text content]
  | .number x => [.text (Number.display x)]
  | _ => []

def nodesOfValues : List Value → List Tree.Node
  | [] => []
  | item :: rest => nodesOfValue item ++ nodesOfValues rest

end

mutual

def nodesOf : Datum → List Tree.Node
  | .node node => [node]
  | .list items => nodesOfAll items
  | .plain value => nodesOfValue value
  | _ => []

def nodesOfAll : List Datum → List Tree.Node
  | [] => []
  | item :: rest => nodesOf item ++ nodesOfAll rest

end

/-! ## Classes and styles -/

mutual

/-- The class names that a value asks for: a text, those in a list, or the
names of an object whose values hold. -/
def classNames : Value → String
  | .string content => trimmed content
  | .list items => join " " (classNamesOfAll items)
  | .record fields => join " " ((fields.filter fun field => field.2.isTruthy).map Prod.fst)
  | _ => ""

def classNamesOfAll : List Value → List String
  | [] => []
  | item :: rest =>
    let names := classNames item
    if names == "" then classNamesOfAll rest else names :: classNamesOfAll rest

end

abbrev Styles := List (String × String)

/-- The styles with `value` for `name`, in its place or behind the others. -/
def putStyle (styles : Styles) (name value : String) : Styles :=
  match styles with
  | [] => [(name, value)]
  | (other, held) :: rest =>
    if other = name then (other, value) :: rest else (other, held) :: putStyle rest name value

mutual

def addStyles (styles : Styles) : Value → Styles
  | .record fields =>
    fields.foldl
      (fun styles (name, value) =>
        if value.isNullish then styles else putStyle styles name value.shown) styles
  | .string source =>
    (Template.parseStyle source).foldl (fun styles (name, value) => putStyle styles name value)
      styles
  | .list items => addAllStyles styles items
  | _ => styles

def addAllStyles (styles : Styles) : List Value → Styles
  | [] => styles
  | item :: rest => addAllStyles (addStyles styles item) rest

end

/-! ## Props -/

/-- What a data object says, before class names and styles become attributes. -/
structure PropsDraft where
  props : Tree.Props
  classes : List String
  styles : Styles

def isFalse : Value → Bool
  | .boolean false => true
  | _ => false

/-- The texts of the fields that are there and do not say no. -/
def textFields (value : Value) : List (String × String) :=
  match value with
  | .record fields =>
    (fields.filter fun field => !field.2.isNullish && !isFalse field.2).map fun (name, value) =>
      (name, value.shown)
  | _ => []

def setDirectiveField (directive : Tree.Directive) (entry : String × Datum) : Tree.Directive :=
  let value := entry.2.toValue
  match entry.1 with
  | "name" => { directive with name := value.shown }
  | "rawName" => { directive with rawName := value.shown }
  | "value" => { directive with value := value }
  | "expression" => { directive with expression := some value.shown }
  | "arg" => { directive with argument := some value.shown }
  | "modifiers" =>
    match value with
    | .record fields => { directive with modifiers := fields.map Prod.fst }
    | _ => directive
  | _ => directive

def directiveOf (datum : Datum) : Tree.Directive :=
  let blank : Tree.Directive :=
    { name := "", rawName := "", value := .undefined, expression := none, argument := none
      modifiers := [] }
  match datum with
  | .record entries => entries.foldl setDirectiveField blank
  | _ => blank

def setProp (draft : PropsDraft) (entry : String × Datum) : PropsDraft :=
  let props := draft.props
  let value := entry.2.toValue
  match entry.1 with
  | "attrs" =>
    { draft with
      props := { props with attributes := Dictionary.merge props.attributes (textFields value) } }
  | "domProps" =>
    { draft with
      props := { props with domProps := Dictionary.merge props.domProps (textFields value) } }
  | "staticClass" | "class" => { draft with classes := draft.classes ++ [classNames value] }
  | "staticStyle" | "style" => { draft with styles := addStyles draft.styles value }
  | "on" =>
    match entry.2 with
    | .listeners entries =>
      { draft with props := { props with listeners := Dictionary.merge props.listeners entries } }
    | _ => draft
  | "nativeOn" =>
    match entry.2 with
    | .listeners entries =>
      { draft with
        props := { props with
          nativeListeners := Dictionary.merge props.nativeListeners entries } }
    | _ => draft
  | "directives" =>
    match entry.2 with
    | .list items => { draft with props := { props with directives := items.map directiveOf } }
    | _ => draft
  | "key" => { draft with props := { props with key := some value.shown } }
  | "ref" => { draft with props := { props with ref := some value.shown } }
  | "slot" => { draft with props := { props with slot := some value.shown } }
  | _ => draft

def propsOf (entries : List (String × Datum)) : Tree.Props :=
  let draft := entries.foldl setProp ⟨.empty, [], []⟩
  let names := join " " (draft.classes.filter fun name => name != "")
  let style := join ";" (draft.styles.map fun (name, value) => name ++ ":" ++ value)
  let classed :=
    if names == "" then draft.props.attributes
    else Dictionary.insert "class" names draft.props.attributes
  let styled :=
    if draft.styles.isEmpty then classed else Dictionary.insert "style" style classed
  { draft.props with attributes := styled }

/-! ## Elements -/

/-- The element for a tag, perhaps a data object, and perhaps children.  An
absent tag leaves a comment in its place. -/
def createElement (arguments : List Datum) : Except Fault Datum :=
  let build (tag : String) (rest : List Datum) : Datum :=
    match rest with
    | .record entries :: others =>
      .node (.element tag (propsOf entries) ((others.head?.map nodesOf).getD []))
    | others => .node (.element tag .empty ((others.head?.map nodesOf).getD []))
  let illegal : Except Fault Datum := .error (.illegalArguments "_c" "a tag name")
  match arguments with
  | .plain (.string tag) :: rest => if tag == "" then illegal else .ok (build tag rest)
  | .plain .undefined :: _ | .plain .null :: _ => .ok (.node (.comment ""))
  | _ => illegal

mutual

/-- Marks a node, or each node of a list by its position, as static with a key
of its own. -/
def markStatic (key : String) : Datum → Datum
  | .node (.element tag props children) =>
    .node (.element tag { props with isStatic := true, key := some key } children)
  | .list items => .list (markAllStatic key 0 items)
  | other => other

def markAllStatic (key : String) (position : Nat) : List Datum → List Datum
  | [] => []
  | item :: rest =>
    markStatic (key ++ "_" ++ toString position) item :: markAllStatic key (position + 1) rest

end

/-! ## Spreading objects -/

def ownFields : List String := ["class", "style", "key", "ref", "slot"]

def hasEntry (name : String) (entries : List (String × Datum)) : Bool :=
  (entries.lookup name).isSome

def addIfAbsent (name : String) (value : Datum) (entries : List (String × Datum)) :
    List (String × Datum) :=
  if hasEntry name entries then entries else entries ++ [(name, value)]

/-- Adds a field to the bucket among the entries of a data object; a bucket that
is no object takes none. -/
def addToBucket (name : String) (value : Datum) : Datum → Datum
  | .record entries => .record (addIfAbsent name value entries)
  | other => other

def changeEntry (name : String) (change : Datum → Datum) :
    List (String × Datum) → List (String × Datum)
  | [] => []
  | (other, held) :: rest =>
    if other = name then (other, change held) :: rest
    else (other, held) :: changeEntry name change rest

def spreadField (bucket : String) (entries : List (String × Datum)) (field : String × Value) :
    List (String × Datum) :=
  if ownFields.contains field.1 then addIfAbsent field.1 (.plain field.2) entries
  else
    changeEntry bucket (addToBucket field.1 (.plain field.2))
      (addIfAbsent bucket (.record []) entries)

/-- Spreads an object over a data object.  What is there already stays. -/
def spreadObject (arguments : List Datum) : Except Fault Datum :=
  match arguments with
  | .record entries :: rest =>
    let bucket := if rest[2]?.any Datum.isTruthy then "domProps" else "attrs"
    match (rest[1]?.map Datum.toValue).getD .undefined with
    | .record fields => .ok (.record (fields.foldl (spreadField bucket) entries))
    | _ => .ok (.record entries)
  | _ => .error (.illegalArguments "_b" "a data object")

end Templating.Evaluation
