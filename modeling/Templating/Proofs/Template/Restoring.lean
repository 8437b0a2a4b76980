import Templating.Proofs.Data.Dictionary
import Templating.Proofs.Template.Ordinary
/-!
# Trees are read back from their markup

A tree of elements with attributes, texts and comments is read from its markup
as it was, where its texts are visible and apart from each other, and no name
means more to a template than to markup.
-/
set_option autoImplicit false

namespace Templating.Tree

open Templating.Text Templating.Data Templating.Markup Templating.Template

structure Props.IsPlain (props : Props) : Prop where
  alone : props = { Props.empty with attributes := props.attributes }
  sorted : props.attributes.Sorted
  named : ∀ pair ∈ props.attributes, IsOrdinaryName pair.1

/-- The tag of an element that markup ends, and that a template takes for no
more than it is. -/
structure IsOrdinaryTag (tag : String) : Prop where
  named : IsTagText tag
  markup : isPlainTextTag tag = false
  noOutlet : tag ≠ "slot"
  noTemplate : tag ≠ "template"
  ended : voidTags.contains tag = false

instance (tag : String) : Decidable (IsOrdinaryTag tag) :=
  decidable_of_iff (IsTagText tag ∧ isPlainTextTag tag = false ∧ tag ≠ "slot" ∧ tag ≠ "template" ∧
      voidTags.contains tag = false)
    ⟨fun ⟨named, markup, noOutlet, noTemplate, ended⟩ =>
        ⟨named, markup, noOutlet, noTemplate, ended⟩,
      fun ordinary => ⟨ordinary.named, ordinary.markup, ordinary.noOutlet, ordinary.noTemplate,
        ordinary.ended⟩⟩

namespace Node

def isText : Node → Bool
  | .text _ => true
  | _ => false

mutual

/-- The tree can be told from its markup. -/
def IsPlain : Node → Prop
  | .element tag props children => IsOrdinaryTag tag ∧ props.IsPlain ∧ ArePlain children
  | .text content => allBlank content = false ∧ contains ['\x7b', '\x7b'] content.toList = false
  | .comment content =>
    contains ['-', '-', '>'] content.toList = false ∧ startsWith ['>'] content.toList = false ∧
      startsWith ['-', '>'] content.toList = false

/-- No text stands beside another. -/
def ArePlain : List Node → Prop
  | [] => True
  | node :: rest =>
    IsPlain node ∧ (node.isText && rest.head?.any isText) = false ∧ ArePlain rest

end

end Node

end Templating.Tree

namespace Templating.Template

open Templating.Text Templating.Data Templating.Markup Templating.Tree

mutual

/-- The tree of tags, literal attributes, texts and comments. -/
def Element.shape : Element → Tree.Node
  | ⟨head, children, _⟩ =>
    .element head.tag
      { Props.empty with attributes := head.attributes.map fun item => (item.name, item.value) }
      (shapes children)

def Node.shape : Node → Tree.Node
  | .element element => element.shape
  | .text run => .text run.content
  | .comment comment => .comment comment.content

def shapes : List Node → List Tree.Node
  | [] => []
  | node :: rest => node.shape :: shapes rest

end

/-! ## Heads of tags that are written -/

/-- The head of a start tag of which nothing has been taken. -/
structure IsStart (tag : String) (pairs : List (String × String)) (head : Head) : Prop where
  tag : head.tag = tag
  pending : List.Forall₂ Says head.pending pairs
  bare : head.attributes = []
  literal : head.isLiteral = true
  allowed : head.isForbidden = false
  alone : head.isBranch = false

/-- The head has the literal attributes that the tag was written with. -/
structure IsRestored (tag : String) (pairs : List (String × String)) (head : Head) : Prop where
  tag : head.tag = tag
  attributes : (head.attributes.map fun item => (item.name, item.value)) = pairs
  literal : head.isLiteral = true
  allowed : head.isForbidden = false
  alone : head.isBranch = false

theorem isPlainTextTag_false {tag : String} (markup : isPlainTextTag tag = false) :
    tag ≠ "script" ∧ tag ≠ "style" := by
  constructor <;> rintro rfl <;> exact absurd markup (by decide)

theorem freshHead_isStart {tag : String} (ordinary : IsOrdinaryTag tag) {items : List SourceAttribute}
    {pairs : List (String × String)} (said : List.Forall₂ Says items pairs) (settings : Settings)
    (span : Span) (outside : Builder) :
    IsStart tag pairs (outside.freshHead settings tag items span) := by
  obtain ⟨noScript, noStyle⟩ := isPlainTextTag_false ordinary.markup
  refine ⟨rfl, said, rfl, ?_, ?_, rfl⟩
  · have noOutlet := ordinary.noOutlet
    have noTemplate := ordinary.noTemplate
    simp [Builder.freshHead, Head.new, Head.isLiteral, Head.hasBindings, noOutlet, noTemplate]
  · simp [Builder.freshHead, Builder.isForbiddenTag, Head.new, noScript, noStyle]

section Start

variable {tag : String} {pairs : List (String × String)} {head : Head}
  (start : IsStart tag pairs head)

include start

theorem IsStart.spanned (span : Span) : IsStart tag pairs { head with span } :=
  ⟨start.tag, start.pending, start.bare, start.literal, start.allowed, start.alone⟩

theorem IsStart.isOrdinary (named : ∀ pair ∈ pairs, IsOrdinaryName pair.1) : IsOrdinary head :=
  ordinary_of_said start.pending named

theorem IsStart.completed {settings : Settings} (bare : settings.extensions = [])
    (noOutlet : tag ≠ "slot") (named : ∀ pair ∈ pairs, IsOrdinaryName pair.1) :
    IsRestored tag pairs (head.complete settings).1 := by
  rw [complete_ordinary bare (start.isOrdinary named) (start.tag ▸ noOutlet)]
  have literal := start.literal
  refine ⟨start.tag, ?_, ?_, start.allowed, start.alone⟩
  · rw [Head.takeVerbatim, start.bare, List.nil_append, List.map_map]
    exact literals_of_said start.pending
  · simpa [Head.takeVerbatim, Head.isLiteral, Head.hasBindings, Attribute.isDynamic,
      Attribute.literal, start.bare] using literal

end Start

/-! ## Steps of reading -/

namespace Builder

/-- Reading stands inside the elements `opened`, with no root yet and in no
region of its own. -/
structure At (opened : List Element) (builder : Builder) : Prop where
  opened : builder.opened = opened
  rootless : builder.root = none
  plain : builder.verbatimRoot = none
  free : builder.isPreformatted = false

/-- The element has been put among the children of its parent, or at the root. -/
def Placed (opened : List Element) (element : Element) (builder : Builder) : Prop :=
  match opened with
  | [] => builder.opened = [] ∧ builder.root = some element
  | parent :: outer => builder.At (parent.addChild (.element element) :: outer)

end Builder

/-- No tag, comment or text needs other rules than those of markup. -/
structure Settings.IsBare (settings : Settings) : Prop where
  platform : settings.platform = .neutral
  extensions : settings.extensions = []
  whitespace : settings.whitespace = .preserve
  delimiters : settings.delimiters = .standard

section Steps

variable {settings : Settings} (bare : settings.IsBare) {builder : Builder} {opened : List Element}

include bare

theorem startTag_at (here : builder.At opened) {tag : String} (ordinary : IsOrdinaryTag tag)
    {items : List SourceAttribute} {pairs : List (String × String)}
    (written : List.Forall₂ IsWritten items pairs) (names : (pairs.map Prod.fst).Nodup)
    (named : ∀ pair ∈ pairs, IsOrdinaryName pair.1) (span : Span) :
    ∃ head, IsStart tag pairs head ∧
      (builder.startTag settings tag items false span).At (⟨head, [], []⟩ :: opened) := by
  have said := distinctAttributes_written tag written names [] fun _ _ => by simp
  have outside : builder.closeBefore settings tag span = builder := by
    simp [Builder.closeBefore, bare.platform, Platform.neutral]
  have start := freshHead_isStart ordinary said settings span builder
  refine ⟨_, start, ?_⟩
  have entered := enter_ordinary (start.isOrdinary named) here.plain
  rw [Builder.startTag]
  simp only [outside, entered, bare.platform, Platform.neutral, Bool.or_false, Bool.false_eq_true,
    if_false]
  exact ⟨by rw [← here.opened]; rfl, here.rootless, rfl, here.free⟩

omit bare in
theorem withoutTrailingSpaces_eq {children : List Node}
    (visible : ∀ child ∈ children, child.isBlankSpace = false) :
    withoutTrailingSpaces children = children := by
  have kept : children.reverse.dropWhile Node.isBlankSpace = children.reverse := by
    rcases reversed : children.reverse with _ | ⟨last, earlier⟩
    · rfl
    · have shown := visible last (List.mem_reverse.mp (reversed ▸ List.mem_cons_self))
      rw [List.dropWhile_cons_of_neg (by simp [shown])]
  rw [withoutTrailingSpaces, kept, List.reverse_reverse]

theorem interpolations_none {content : String}
    (closed : contains ['\x7b', '\x7b'] content.toList = false) :
    interpolations? settings.delimiters content = none := by
  have nowhere : breakAt? ['\x7b', '\x7b'] content.toList = none := by
    simpa [contains] using closed
  have split : Segment.splitFrom ['\x7b', '\x7b'] ['\x7d', '\x7d'] content.toList.length []
      content.toList = Segment.ofLiteral content.toList := by
    cases content.toList.length with
    | zero => rfl
    | succ fuel => rw [Segment.splitFrom, nowhere, List.nil_append]
  have literal : (Segment.ofLiteral content.toList).any Segment.isBinding = false := by
    unfold Segment.ofLiteral
    split <;> rfl
  rw [bare.delimiters, interpolations?, if_pos (by decide)]
  exact if_neg (by rw [← Bool.not_eq_true] at literal; exact split ▸ literal)

theorem text_at {parent : Element} (here : builder.At (parent :: opened))
    (decodes : Builder.isRawTextTag parent.head.tag = false) {content : String}
    (visible : allBlank content = false) (closed : contains ['\x7b', '\x7b'] content.toList = false)
    (source : String) (span : Span) :
    ∃ run, run.content = content ∧ run.segments = [] ∧
      (builder.text settings source (escape false content) span).At
        (parent.addChild (.text run) :: opened) := by
  have shown := allBlank_escape visible false
  have nonempty : content ≠ "" := by
    rintro rfl
    cases visible
  have noSpace : content ≠ " " := by
    rintro rfl
    exact absurd visible (by decide)
  have plain : Builder.textContent settings parent false (escape false content) = content := by
    simp only [Builder.textContent, shown, Bool.not_false, Bool.or_true, if_true, decodes,
      Bool.false_eq_true, if_false, decodeText_escape]
  have preserved : (settings.whitespace == .condense) = false := by
    rw [bare.whitespace]
    rfl
  have whole := interpolations_none bare closed
  refine ⟨⟨builder.nextId, content, [], span⟩, rfl, rfl, ?_⟩
  rw [Builder.text]
  simp only [here.opened, Builder.innerText, here.free, plain, preserved, Bool.and_false,
    Bool.false_eq_true, if_false, beq_eq_false_iff_ne.mpr nonempty, beq_eq_false_iff_ne.mpr noSpace,
    Bool.false_and, Builder.isVerbatim, here.plain, Option.isSome_none, Bool.or_false, whole,
    Option.getD_none, Builder.updateParent, Builder.report]
  exact ⟨rfl, here.rootless, rfl, rfl⟩

omit bare in
theorem comment_at (keeps : settings.keepsComments = true) {parent : Element}
    (here : builder.At (parent :: opened)) (content : String) (span : Span) :
    ∃ comment, comment.content = content ∧
      (builder.comment settings content span).At (parent.addChild (.comment comment) :: opened) := by
  refine ⟨⟨builder.nextId, content, span⟩, rfl, ?_⟩
  rw [Builder.comment, keeps, here.opened]
  exact ⟨by simp [Builder.updateParent], here.rootless, here.plain, here.free⟩

theorem endTag_at {head : Head} {children : List Node}
    (here : builder.At (⟨head, children, []⟩ :: opened)) {tag : String}
    {pairs : List (String × String)} (start : IsStart tag pairs head) (noOutlet : tag ≠ "slot")
    (named : ∀ pair ∈ pairs, IsOrdinaryName pair.1)
    (visible : ∀ child ∈ children, child.isBlankSpace = false) (span : Span) :
    ∃ restored, IsRestored tag pairs restored ∧
      (builder.endTag settings tag span).Placed opened ⟨restored, children, []⟩ := by
  have depth : builder.depthOf? tag = some 0 := by
    simp [Builder.depthOf?, here.opened, List.findIdx?_cons, start.tag, sameIgnoringAsciiCase]
  have restored := (start.spanned ⟨head.span.start, span.stop⟩).completed bare.extensions noOutlet named
  refine ⟨_, restored, ?_⟩
  rw [Builder.endTag, depth, Option.isSome_some, if_pos rfl, Builder.closeThrough, depth]
  simp only [Builder.closeAllUnmatched, Builder.closeMatched, here.opened, Builder.close,
    here.free, Bool.false_eq_true, if_false, withoutTrailingSpaces_eq visible, Builder.isVerbatim,
    here.plain, Option.isSome_none, Builder.place, Builder.report, restored.allowed, restored.alone]
  cases opened with
  | nil => exact ⟨by simp only [here.rootless]; rfl, by simp only [here.rootless]; rfl⟩
  | cons parent outer =>
    refine ⟨rfl, here.rootless, ?_, ?_⟩
    · simp [Builder.leave]
    · simp [Builder.leave, bare.platform, Platform.neutral]

end Steps

/-! ## Runs of reading -/

def Builder.readFrom (settings : Settings) (source : String) (fuel : Nat) (cursor : Cursor)
    (builder : Builder) : Builder :=
  (scanFrom fuel none cursor).foldl (Builder.token settings source) builder

/-- From `builder` reading passes from the characters `chars` to their end
`rest`, where `holds` is true. -/
def Reads (settings : Settings) (source : String) (chars rest : List Char) (builder : Builder)
    (holds : Builder → Prop) : Prop :=
  ∀ fuel offset, chars.length < fuel → ∃ fuel' offset' after, rest.length < fuel' ∧ holds after ∧
    builder.readFrom settings source fuel ⟨chars, offset⟩ =
      after.readFrom settings source fuel' ⟨rest, offset'⟩

section Reads

variable {settings : Settings} {source : String} {chars middle rest : List Char} {builder : Builder}
  {holds inner : Builder → Prop}

theorem Reads.here (held : holds builder) : Reads settings source rest rest builder holds :=
  fun fuel offset enough => ⟨fuel, offset, builder, enough, held, rfl⟩

theorem Reads.trans (first : Reads settings source chars middle builder inner)
    (second : ∀ between, inner between → Reads settings source middle rest between holds) :
    Reads settings source chars rest builder holds := by
  intro fuel offset enough
  obtain ⟨left, stop, between, enoughLeft, held, run⟩ := first fuel offset enough
  obtain ⟨last, behind, after, enoughLast, goal, runOn⟩ := second between held left stop enoughLeft
  exact ⟨last, behind, after, enoughLast, goal, run.trans runOn⟩

theorem Reads.mono (run : Reads settings source chars rest builder inner)
    (implied : ∀ after, inner after → holds after) :
    Reads settings source chars rest builder holds :=
  run.trans fun after held => .here (implied after held)

theorem Reads.step (nonempty : chars ≠ [])
    (emits : ∀ offset, ∃ token after,
      scanStep ⟨chars ++ rest, offset⟩ = .emitted token ⟨rest, after⟩ ∧
        token.plainTextTag? = none ∧ holds (builder.token settings source token)) :
    Reads settings source (chars ++ rest) rest builder holds := by
  intro fuel offset enough
  have shorter := List.length_pos_iff.mpr nonempty
  rw [List.length_append] at enough
  obtain ⟨fuel, rfl⟩ := Nat.exists_eq_succ_of_ne_zero (Nat.ne_zero_of_lt enough)
  obtain ⟨token, after, step, marked, held⟩ := emits offset
  refine ⟨fuel, after, _, by omega, held, ?_⟩
  rw [Builder.readFrom, scanFrom]
  simp only [Option.elim_none, List.isEmpty_nil, if_true, step, marked, List.foldl_cons]
  rfl

end Reads

section Pieces

variable {settings : Settings} (bare : settings.IsBare) {source : String} {builder : Builder}
  {opened : List Element} {rest : List Char}

include bare

theorem startTag_reads (here : builder.At opened) {tag : String} (ordinary : IsOrdinaryTag tag)
    {props : Props} (plain : props.IsPlain) :
    Reads settings source ((Tree.startTag tag props).toList ++ rest) rest builder fun after =>
      ∃ head, IsStart tag props.attributes head ∧ after.At (⟨head, [], []⟩ :: opened) := by
  have texts : ∀ pair ∈ props.attributes, IsPlainText pair.1 := fun pair held =>
    ⟨(plain.named pair held).nonempty, (plain.named pair held).plain⟩
  rw [startTag_toList]
  refine .step (List.cons_ne_nil _ _) fun offset => ?_
  obtain ⟨items, span, after, written, step⟩ := scanStep_startTag ordinary.named texts rest offset
  refine ⟨_, after, step, ?_, ?_⟩
  · simp [Token.plainTextTag?, ordinary.markup]
  · exact startTag_at bare here ordinary written plain.sorted.names_nodup plain.named span

theorem endTag_reads {head : Head} {children : List Node}
    (here : builder.At (⟨head, children, []⟩ :: opened)) {tag : String}
    {pairs : List (String × String)} (start : IsStart tag pairs head) (ordinary : IsOrdinaryTag tag)
    (named : ∀ pair ∈ pairs, IsOrdinaryName pair.1)
    (visible : ∀ child ∈ children, child.isBlankSpace = false) :
    Reads settings source (endTagChars tag ++ rest) rest builder fun after =>
      ∃ restored, IsRestored tag pairs restored ∧ after.Placed opened ⟨restored, children, []⟩ := by
  refine .step (List.cons_ne_nil _ _) fun offset => ?_
  obtain ⟨span, after, step⟩ := scanStep_endTag ordinary.named rest offset
  exact ⟨_, after, step, rfl, endTag_at bare here start ordinary.noOutlet named visible span⟩

theorem text_reads {parent : Element} (here : builder.At (parent :: opened))
    (decodes : Builder.isRawTextTag parent.head.tag = false) {content : String}
    (visible : allBlank content = false) (closed : contains ['\x7b', '\x7b'] content.toList = false)
    (opens : opensTag rest = true) :
    Reads settings source ((escape false content).toList ++ rest) rest builder fun after =>
      ∃ run, run.content = content ∧ run.segments = [] ∧
        after.At (parent.addChild (.text run) :: opened) := by
  have nonempty : (escape false content).toList ≠ [] := by
    intro none
    have shown := allBlank_escape visible false
    rw [allBlank, none] at shown
    cases shown
  refine .step nonempty fun offset => ?_
  have unmarked : ∀ c ∈ (escape false content).toList, c ≠ '<' := fun c held =>
    ne_less_of_mem_escape (by simpa [escape] using held)
  obtain ⟨span, after, step⟩ := scanStep_text nonempty unmarked opens offset
  rw [String.ofList_toList] at step
  exact ⟨_, after, step, rfl, text_at bare here decodes visible closed source span⟩

omit bare in
theorem comment_reads (keeps : settings.keepsComments = true) {parent : Element}
    (here : builder.At (parent :: opened)) {content : String}
    (closed : contains ['-', '-', '>'] content.toList = false) :
    Reads settings source (commentChars content ++ rest) rest builder fun after =>
      ∃ comment, comment.content = content ∧
        after.At (parent.addChild (.comment comment) :: opened) := by
  refine .step (List.cons_ne_nil _ _) fun offset => ?_
  obtain ⟨span, after, step⟩ := scanStep_comment closed rest offset
  exact ⟨_, after, step, rfl, comment_at keeps here content span⟩

end Pieces

/-! ## Trees -/

/-- A literal child that is no space of its own. -/
structure IsShown (child : Node) : Prop where
  literal : child.isLiteral = true
  visible : child.isBlankSpace = false

theorem allLiteral_of_shown {children : List Node} (shown : ∀ child ∈ children, IsShown child) :
    allLiteral children = true := by
  induction children with
  | nil => rfl
  | cons child others ih =>
    obtain ⟨first, behind⟩ := List.forall_mem_cons.mp shown
    exact allLiteral_cons.mpr ⟨first.literal, ih behind⟩

theorem IsRestored.element {tag : String} {props : Props} (plain : props.IsPlain) {head : Head}
    (restored : IsRestored tag props.attributes head) {children : List Node}
    (shown : ∀ child ∈ children, IsShown child) {nodes : List Tree.Node}
    (same : shapes children = nodes) :
    (Element.mk head children []).isLiteral = true ∧
      (Element.mk head children []).shape = .element tag props nodes := by
  constructor
  · exact Element.isLiteral_iff.mpr ⟨restored.literal, rfl, allLiteral_of_shown shown⟩
  · rw [Element.shape, restored.tag, restored.attributes, same, ← plain.alone]

/-! ### Markup of trees -/

theorem markup_element {tag : String} (ordinary : IsOrdinaryTag tag) {props : Props}
    (plain : props.IsPlain) (nodes : List Tree.Node) :
    (Tree.Node.element tag props nodes).markup.toList =
      (Tree.startTag tag props).toList ++ (Tree.Node.joinedMarkup nodes).toList ++ endTagChars tag := by
  have noProps : props.domProps = [] := by rw [plain.alone]; rfl
  rw [Tree.Node.markup, ordinary.ended, noProps]
  simp [Dictionary.find?, endTagChars]

theorem comment_toList (content : String) :
    ("<!--" ++ content ++ "-->").toList = commentChars content := by
  simp [commentChars]

theorem opensTag_node {node : Tree.Node} (plain : node.IsPlain) (noText : node.isText = false)
    (rest : List Char) : opensTag (node.markup.toList ++ rest) = true := by
  cases node with
  | text content => cases noText
  | comment content => simp [Tree.Node.markup, opensTag, isAsciiLetter]
  | element tag props children =>
    obtain ⟨c, others, begins, letter, -⟩ := plain.1.named
    rw [markup_element plain.1 plain.2.1 children, startTag_toList]
    simp only [startTagChars, begins, List.cons_append]
    exact opensTag_letter letter _

theorem opensTag_nodes {nodes : List Tree.Node} (plain : Tree.Node.ArePlain nodes)
    (noText : nodes.head?.any Tree.Node.isText = false) {rest : List Char}
    (opens : opensTag rest = true) :
    opensTag ((Tree.Node.joinedMarkup nodes).toList ++ rest) = true := by
  cases nodes with
  | nil => exact opens
  | cons node others =>
    rw [Tree.Node.joinedMarkup, String.toList_append, List.append_assoc]
    exact opensTag_node plain.1 noText _

/-! ### Runs over trees -/

/-- Reading the node adds a child of its shape to the innermost element, if a
tag opens behind a text. -/
def ReadsNode (settings : Settings) (source : String) (node : Tree.Node) : Prop :=
  ∀ (builder : Builder) (head : Head) (children : List Node) (opened : List Element)
    (rest : List Char), Builder.isRawTextTag head.tag = false →
    (node.isText = true → opensTag rest = true) →
    builder.At (⟨head, children, []⟩ :: opened) →
    Reads settings source (node.markup.toList ++ rest) rest builder fun after =>
      ∃ child, IsShown child ∧ child.shape = node ∧
        after.At (⟨head, children ++ [child], []⟩ :: opened)

def ReadsNodes (settings : Settings) (source : String) (nodes : List Tree.Node) : Prop :=
  ∀ (builder : Builder) (head : Head) (children : List Node) (opened : List Element)
    (rest : List Char), Builder.isRawTextTag head.tag = false → opensTag rest = true →
    builder.At (⟨head, children, []⟩ :: opened) →
    Reads settings source ((Tree.Node.joinedMarkup nodes).toList ++ rest) rest builder fun after =>
      ∃ others, (∀ child ∈ others, IsShown child) ∧ shapes others = nodes ∧
        after.At (⟨head, children ++ others, []⟩ :: opened)

section Trees

variable {settings : Settings} (bare : settings.IsBare) {source : String}

include bare

theorem element_reads {tag : String} (ordinary : IsOrdinaryTag tag) {props : Props}
    (plain : props.IsPlain) {nodes : List Tree.Node} (below : ReadsNodes settings source nodes)
    {builder : Builder} {opened : List Element} (here : builder.At opened) (rest : List Char) :
    Reads settings source ((Tree.Node.element tag props nodes).markup.toList ++ rest) rest builder
      fun after => ∃ element : Element, element.isLiteral = true ∧
        element.shape = .element tag props nodes ∧ after.Placed opened element := by
  have ends : opensTag (endTagChars tag ++ rest) = true := by
    obtain ⟨c, others, begins, letter, -⟩ := ordinary.named
    simp [endTagChars, begins, opensTag, letter]
  rw [markup_element ordinary plain, List.append_assoc, List.append_assoc]
  refine (startTag_reads bare here ordinary plain).trans ?_
  rintro inside ⟨head, start, opens⟩
  have decodes : Builder.isRawTextTag head.tag = false := by
    obtain ⟨noScript, noStyle⟩ := isPlainTextTag_false ordinary.markup
    rw [Builder.isRawTextTag, start.tag, beq_eq_false_iff_ne.mpr noScript,
      beq_eq_false_iff_ne.mpr noStyle]
    rfl
  refine (below inside head [] opened _ decodes ends opens).trans ?_
  rintro between ⟨children, shown, same, within⟩
  have visible : ∀ child ∈ children, child.isBlankSpace = false := fun child held =>
    (shown child held).visible
  refine (endTag_reads bare within start ordinary plain.named visible).mono ?_
  rintro after ⟨restored, whole, placed⟩
  obtain ⟨literal, shape⟩ := whole.element plain shown same
  exact ⟨_, literal, shape, placed⟩

omit bare in
theorem nodes_cons_reads {node : Tree.Node} (first : ReadsNode settings source node)
    {nodes : List Tree.Node} (behind : ReadsNodes settings source nodes)
    (plain : Tree.Node.ArePlain nodes) (apart : (node.isText && nodes.head?.any Tree.Node.isText) = false) :
    ReadsNodes settings source (node :: nodes) := by
  intro builder head children opened rest decodes opens here
  rw [Tree.Node.joinedMarkup, String.toList_append, List.append_assoc]
  have opensBehind : node.isText = true →
      opensTag ((Tree.Node.joinedMarkup nodes).toList ++ rest) = true := by
    intro text
    rw [text, Bool.true_and] at apart
    exact opensTag_nodes plain apart opens
  refine (first builder head children opened _ decodes opensBehind here).trans ?_
  rintro between ⟨child, shown, shape, within⟩
  refine (behind between head (children ++ [child]) opened rest decodes opens within).mono ?_
  rintro after ⟨others, allShown, same, final⟩
  refine ⟨child :: others, List.forall_mem_cons.mpr ⟨shown, allShown⟩, ?_, ?_⟩
  · rw [shapes, shape, same]
  · rw [List.append_assoc, List.singleton_append] at final
    exact final

end Trees

mutual

theorem node_reads {settings : Settings} (bare : settings.IsBare) (keeps : settings.keepsComments = true)
    (source : String) (node : Tree.Node) (plain : node.IsPlain) : ReadsNode settings source node := by
  match node with
  | .element tag props nodes =>
    obtain ⟨ordinary, plainProps, plainBelow⟩ := plain
    intro builder head children opened rest decodes _ here
    refine (element_reads bare ordinary plainProps
      (nodes_read bare keeps source nodes plainBelow) here rest).mono ?_
    rintro after ⟨element, literal, shape, placed⟩
    exact ⟨.element element, ⟨literal, rfl⟩, shape, placed⟩
  | .text content =>
    obtain ⟨visible, closed⟩ := plain
    intro builder head children opened rest decodes opens here
    refine (text_reads bare here decodes visible closed (opens rfl)).mono ?_
    rintro after ⟨run, rfl, whole, final⟩
    refine ⟨.text run, ⟨List.isEmpty_iff.mpr whole, beq_eq_false_iff_ne.mpr ?_⟩, rfl, final⟩
    intro space
    rw [space] at visible
    exact absurd visible (by decide)
  | .comment content =>
    intro builder head children opened rest decodes _ here
    rw [Tree.Node.markup, comment_toList]
    refine (comment_reads keeps here plain.1).mono ?_
    rintro after ⟨comment, rfl, final⟩
    exact ⟨.comment comment, ⟨rfl, rfl⟩, rfl, final⟩

theorem nodes_read {settings : Settings} (bare : settings.IsBare) (keeps : settings.keepsComments = true)
    (source : String) (nodes : List Tree.Node) (plain : Tree.Node.ArePlain nodes) :
    ReadsNodes settings source nodes := by
  match nodes with
  | [] =>
    intro builder head children opened rest _ _ here
    exact .here ⟨[], by simp, rfl, by rwa [List.append_nil]⟩
  | node :: others =>
    obtain ⟨first, apart, behind⟩ := plain
    exact nodes_cons_reads (node_reads bare keeps source node first)
      (nodes_read bare keeps source others behind) behind apart

end

theorem finish_placed {settings : Settings} {source : String} {element : Element} {after : Builder}
    (placed : after.Placed [] element) {fuel : Nat} (enough : 0 < fuel) (offset : Nat) :
    ((after.readFrom settings source fuel ⟨[], offset⟩).finish settings).root = some element := by
  obtain ⟨closed, root⟩ := placed
  obtain ⟨fuel, rfl⟩ := Nat.exists_eq_succ_of_ne_zero (Nat.ne_of_gt enough)
  have finished : after.readFrom settings source (fuel + 1) ⟨[], offset⟩ = after := by
    simp [Builder.readFrom, scanFrom, scanStep]
  rw [finished, Builder.finish, closed]
  exact root

/-- A tree that can be told from its markup is read from it as it was: its tags,
its attributes with their values in the order of their names, its texts and its
comments. -/
theorem parse_markup (tag : String) (props : Props) (children : List Tree.Node)
    (plain : (Tree.Node.element tag props children).IsPlain) :
    ∃ root, (Document.parse { Settings.neutral with keepsComments := true }
        (Tree.Node.element tag props children).markup).1.root = some root ∧
      root.isLiteral = true ∧ root.shape = .element tag props children := by
  obtain ⟨ordinary, plainProps, plainBelow⟩ := plain
  generalize settingsEq : { Settings.neutral with keepsComments := true } = settings
  have bare : settings.IsBare := by
    rw [← settingsEq]
    exact ⟨rfl, rfl, rfl, rfl⟩
  have keeps : settings.keepsComments = true := by rw [← settingsEq]
  generalize sourceEq : (Tree.Node.element tag props children).markup = source
  have initial : Builder.initial.At [] := ⟨rfl, rfl, rfl, rfl⟩
  have run := element_reads bare ordinary plainProps
    (nodes_read bare keeps source children plainBelow) initial []
  rw [sourceEq, List.append_nil] at run
  obtain ⟨fuel, offset, after, enough, ⟨element, literal, shape, placed⟩, reads⟩ :=
    run (source.toList.length + 1) 0 (Nat.lt_succ_self _)
  refine ⟨element, ?_, literal, shape⟩
  rw [Document.parse]
  exact (congrArg (fun builder => (builder.finish settings).root) reads).trans
    (finish_placed placed enough offset)

/-- A list with marks, quotes and references in its attributes and texts. -/
def quotedList : Tree.Node :=
  .element "ul" { Props.empty with attributes := [("data-x", "a\"<&amp;"), ("id", "l")] }
    [.comment " one - two ", .element "li" Props.empty [.text " 1 < 2 & \x7d\x7d"],
      .element "x-y:z.w" { Props.empty with attributes := [("title", "")] } []]

theorem quotedList_restored : quotedList.IsPlain ∧
    ∃ root, (Document.parse { Settings.neutral with keepsComments := true }
        quotedList.markup).1.root = some root ∧ root.isLiteral = true ∧ root.shape = quotedList := by
  have sorted : Dictionary.Sorted [("data-x", "a\"<&amp;"), ("id", "l")] := by
    unfold Dictionary.Sorted
    decide +kernel
  have list : IsOrdinaryTag "ul" ∧ ∀ pair ∈ [("data-x", "a\"<&amp;"), ("id", "l")],
      IsOrdinaryName pair.1 := by decide +kernel
  have entry : IsOrdinaryTag "li" ∧ allBlank " 1 < 2 & \x7d\x7d" = false ∧
      contains ['\x7b', '\x7b'] " 1 < 2 & \x7d\x7d".toList = false := by decide +kernel
  have last : IsOrdinaryTag "x-y:z.w" ∧ IsOrdinaryName "title" := by decide +kernel
  have comment : Tree.Node.IsPlain (.comment " one - two ") := by
    unfold Tree.Node.IsPlain
    decide +kernel
  have plain : quotedList.IsPlain :=
    ⟨list.1, ⟨rfl, sorted, list.2⟩, comment, rfl,
      ⟨entry.1, ⟨rfl, .nil, fun _ held => by cases held⟩, entry.2, rfl, trivial⟩, rfl,
      ⟨last.1, ⟨rfl, List.pairwise_singleton _ _, List.forall_mem_singleton.mpr last.2⟩, trivial⟩,
      rfl, trivial⟩
  exact ⟨plain, parse_markup _ _ _ plain⟩

end Templating.Template
