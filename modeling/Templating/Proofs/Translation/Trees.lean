import Templating.Proofs.Number.Numerals
import Templating.Proofs.Translation.Agreement
/-!
# Source of trees is read back

Layer after layer the source of an element is read as its meaning, and so is the
source of a whole document with all its fragments.
-/
set_option autoImplicit false

namespace Templating.Rendering

open Templating.Text Templating.Template Templating.Expression Templating.Expression.Grammar

/-! ## Layers -/

theorem numeral_reads (value : Nat) : ReadsOperand (toString value).toList (numberExpr value) := by
  have digits : (toString value).toList = Nat.toDigits 10 value := Nat.toList_repr
  have read := number_operand Nat.toDigits_ne_nil (toDigits_isAsciiDigit value)
  rw [Number.read_toDigits] at read
  rw [digits]
  exact read

theorem keepFragment_agrees {code : Code} {meaning : Expr} (reads : BlockReads code meaning) :
    Agrees Eq (Gen.keepFragment code.wrapped) (Translation.keepFragment meaning) :=
  fun _ _ alike => ⟨alike.fragments.length_eq, List.rel_append alike.fragments
    (.cons (wrapped_reads reads) .nil), alike.onceCount⟩

theorem nextOnce_agrees : Agrees Eq Gen.nextOnce Translation.nextOnce := fun _ _ alike =>
  ⟨alike.onceCount, alike.fragments, congrArg (· + 1) alike.onceCount⟩

theorem fragmentCall_reads (index : Nat) (inLoop : Bool) :
    BlockReads [.fragment index inLoop]
      (helperCall "_m" (numberExpr index :: if inLoop then [booleanExpr true] else [])) := by
  cases inLoop with
  | false =>
    refine .ofOperand (helperCall_reads "_m" (by decide) (by decide)
      (.cons (numeral_reads index).listed .nil)) ?_
    simp [Code.text, Piece.text, commaList, commaTail]
  | true =>
    refine .ofOperand (helperCall_reads "_m" (by decide) (by decide)
      (.cons (numeral_reads index).listed (.cons true_operand.listed .nil))) ?_
    simp [Code.text, Piece.text, commaList, commaTail]

structure BranchAgrees (write : Option String × Writer) (translate : Option String × Translator) :
    Prop where
  condition : write.1 = translate.1
  sound : ∀ code ∈ write.1, readsAlone code = true
  block : WriterAgrees write.2 translate.2

theorem conditional_agrees {whenTrue whenFalse : Code} {condition : String}
    {trueMeaning falseMeaning : Expr}
    (sound : readsAlone condition = true) (trueReads : BlockReads whenTrue trueMeaning)
    (falseReads : BlockReads whenFalse falseMeaning) :
    BlockReads (.source ("(" ++ condition ++ ")?") :: whenTrue ++ .source ":" :: whenFalse)
      (.conditional (captured condition) trueMeaning falseMeaning) := by
  have read := conditional_reads (captured_reads sound) trueReads falseReads
  unfold BlockReads
  simpa [text_append, text_source_cons] using read

theorem branches_agree {writers : List (Option String × Writer)}
    {translators : List (Option String × Translator)}
    (agree : List.Forall₂ BranchAgrees writers translators) {loops : List (Option String)}
    (soundLoops : SoundLoops loops) :
    Agrees BlockReads (writeBranches loops writers) (branchesMeaning loops translators) := by
  induction agree with
  | nil =>
    refine .pure (.ofOperand (helperCall_reads "_e" (by decide) (by decide) .nil) rfl)
  | @cons write translate writers translators first others ih =>
    obtain ⟨condition, writer⟩ := write
    obtain ⟨same, translator⟩ := translate
    obtain ⟨rfl, sound, block⟩ := first
    cases condition with
    | none => exact block loops soundLoops
    | some condition =>
      refine (block loops soundLoops).bind fun code meaning reads => ?_
      exact ih.bind fun rest meanings readsRest =>
        .pure (conditional_agrees (sound condition rfl) reads readsRest)

theorem targets_read {header : Loop}
    (sound : ∀ name ∈ header.targets, (parsePattern? name).isSome = true) :
    List.Forall₂ (Reads pattern endsListener) (header.targets.map String.toList)
      (targetsMeaning header) := by
  unfold targetsMeaning
  generalize header.targets = names at sound ⊢
  induction names with
  | nil => exact .nil
  | cons name others ih =>
    obtain ⟨pattern, parsed⟩ := Option.isSome_iff_exists.mp (sound name List.mem_cons_self)
    rw [List.filterMap_cons_some parsed]
    exact .cons (parsePattern_reads parsed) (ih fun other held =>
      sound other (List.mem_cons_of_mem name held))

theorem loopCode_reads {header : Loop} {source body : Expr} {code : Code}
    (sourceReads : Reads expression endsListener ("(" ++ header.source ++ ")").toList source)
    (targets : ∀ name ∈ header.targets, (parsePattern? name).isSome = true)
    (reads : BlockReads code body) :
    BlockReads (.source ("_l((" ++ header.source ++ "),function(" ++ join "," header.targets ++
        ")\x7breturn ") :: code ++ [.source "\x7d)"])
      (helperCall "_l" [source, .function (targetsMeaning header) body]) := by
  refine .ofOperand (helperCall_reads "_l" (by decide) (by decide)
    (.cons sourceReads (.cons (function_operand (targets_read targets) reads).listed .nil))) ?_
  simp [text_append, text_source_cons, text_nil, join_toList, commaList, commaTail]

section Layers

variable {context : Context} {head : Head} (sound : SoundHead head)
  {writers : List (Option String × Writer)} {translators : List (Option String × Translator)}
  (branches : List.Forall₂ BranchAgrees writers translators)

include sound branches

theorem layer_agrees {write : Writer} {translate : Translator} (inner : WriterAgrees write translate)
    (layer : Layer) (chooses : layer = .choose → head.condition.isSome = true) :
    WriterAgrees (layer.write context head writers write)
      (layer.meaning context head translators translate) := by
  intro loops soundLoops
  cases layer with
  | hoist =>
    refine (inner loops soundLoops).bind fun code meaning reads => ?_
    refine (keepFragment_agrees reads).bind fun index other same => ?_
    subst same
    exact .pure (fragmentCall_reads index _)
  | once =>
    cases around : loops.head?.join with
    | some key =>
      simp only [Layer.write, Layer.meaning, around]
      refine (inner loops soundLoops).bind fun code meaning reads => ?_
      refine nextOnce_agrees.bind fun id other same => ?_
      subst same
      have held : some key ∈ loops := by
        cases loops with
        | nil => cases around
        | cons first others =>
          rw [List.head?_cons, Option.join_some] at around
          exact around ▸ List.mem_cons_self
      refine .pure (.ofOperand (helperCall_reads "_o" (by decide) (by decide)
        (.cons reads.listed (.cons (numeral_reads id).listed
          (.cons (captured_reads (soundLoops key held)) .nil)))) ?_)
      simp [Code.text, Piece.text, commaList, commaTail]
    | none =>
      simp only [Layer.write, Layer.meaning, around]
      exact Agrees.report _ (inner loops soundLoops)
  | loop =>
    cases repeated : head.loop with
    | some header =>
      simp only [Layer.write, Layer.meaning, repeated]
      refine Agrees.report _ ?_
      have soundInside : SoundLoops (head.key :: loops) := by
        intro key held
        rcases List.mem_cons.mp held with same | held
        · exact sound.key key same.symm
        · exact soundLoops key held
      refine (inner _ soundInside).bind fun code meaning reads => ?_
      have source := group_operand (captured_reads (sound.source header repeated))
      exact .pure (loopCode_reads (by simpa using source.listed) (sound.targets header repeated) reads)
    | none =>
      simp only [Layer.write, Layer.meaning, repeated]
      exact inner loops soundLoops
  | choose =>
    refine (inner loops soundLoops).bind fun code meaning reads => ?_
    refine (branches_agree branches soundLoops).bind fun rest meanings readsRest => ?_
    obtain ⟨condition, given⟩ := Option.isSome_iff_exists.mp (chooses rfl)
    rw [given, Option.getD_some]
    exact .pure (conditional_agrees (sound.condition condition given) reads readsRest)

omit sound branches in
theorem choose_mem_layers {flags : Flags} (held : Layer.choose ∈ layers flags head) :
    head.condition.isSome = true := by
  by_contra none
  cases repeated : head.loop.isSome <;> simp [layers, none, repeated] at held <;> grind

theorem layers_agree {write : Writer} {translate : Translator} (inner : WriterAgrees write translate)
    (all : List Layer) (chooses : .choose ∈ all → head.condition.isSome = true) :
    WriterAgrees (all.foldr (fun layer inner => layer.write context head writers inner) write)
      (all.foldr (fun layer inner => layer.meaning context head translators inner) translate) := by
  induction all with
  | nil => exact inner
  | cons layer others ih =>
    exact layer_agrees sound branches
      (ih fun held => chooses (List.mem_cons_of_mem layer held)) layer
      fun same => chooses (same ▸ List.mem_cons_self)

end Layers

/-! ## Trees -/

/-- All that an interpolated text contributes is read as it is meant. -/
def SoundSegment : Segment → Prop
  | .literal _ => True
  | .binding expression => readsAlone expression = true

mutual

def SoundElement : Element → Prop
  | ⟨head, children, branches⟩ =>
    SoundHead head ∧ SoundNodes children ∧ SoundBranches branches

def SoundNode : Node → Prop
  | .element element => SoundElement element
  | .text run => ∀ segment ∈ run.segments, SoundSegment segment
  | .comment _ => True

def SoundNodes : List Node → Prop
  | [] => True
  | node :: rest => SoundNode node ∧ SoundNodes rest

def SoundBranches : List Branch → Prop
  | [] => True
  | ⟨condition, block⟩ :: rest =>
    (∀ code ∈ condition, readsAlone code = true) ∧ SoundElement block ∧
      SoundBranches rest

end

theorem segment_reads {segment : Segment} (sound : SoundSegment segment) :
    ReadsOperand segment.code.toList (segmentMeaning segment) := by
  cases segment with
  | literal content => exact encode_reads content
  | binding expression =>
    have call := helperCall_reads "_s" (by decide) (by decide)
      (.cons (captured_reads sound) .nil)
    simpa [Segment.code, segmentMeaning, commaList, commaTail] using call

theorem join_plus_toList (first : String) (others : List String) :
    (join "+" (first :: others)).toList = first.toList ++ plusTail (others.map String.toList) := by
  induction others generalizing first with
  | nil => simp [join, plusTail]
  | cons second others ih => simp [join, ih, plusTail]

theorem concatenation_reads {segments : List Segment} (given : segments ≠ [])
    (sound : ∀ segment ∈ segments, SoundSegment segment) :
    Reads expression endsListener (Segment.concatenation segments).toList
      (segmentsMeaning segments) := by
  cases segments with
  | nil => exact absurd rfl given
  | cons first others =>
    obtain ⟨soundFirst, soundOthers⟩ := List.forall_mem_cons.mp sound
    have terms : List.Forall₂ ReadsOperand ((others.map Segment.code).map String.toList)
        (others.map segmentMeaning) :=
      forall₂_map _ _ _ fun segment held => segment_reads (soundOthers segment held)
    have read := (sum_reads (segment_reads soundFirst) terms).weaken fun _ ends =>
      endsBlock_of_endsListener ends
    simpa [Segment.concatenation, join_plus_toList, segmentsMeaning, addAll] using read

theorem run_reads {run : TextRun} (sound : ∀ segment ∈ run.segments, SoundSegment segment) :
    BlockReads (.ofSource ("_v(" ++ run.expression?.getD (Literal.encode run.content) ++ ")"))
      (runMeaning run) := by
  have content : Reads expression endsListener
      (run.expression?.getD (Literal.encode run.content)).toList
      (if run.segments.isEmpty then textExpr run.content else segmentsMeaning run.segments) := by
    unfold TextRun.expression?
    cases given : run.segments with
    | nil => exact (encode_reads run.content).listed
    | cons first others =>
      rw [given] at sound
      simpa using concatenation_reads (List.cons_ne_nil first others) sound
  refine .ofOperand (helperCall_reads "_v" (by decide) (by decide) (.cons content .nil)) ?_
  simp [Code.text, Code.ofSource, Piece.text, commaList, commaTail]

theorem nodeWriters_length (context : Context) (children : List Node) :
    (nodeWriters context children).length = children.length := by
  induction children with
  | nil => rfl
  | cons node rest ih => rw [nodeWriters, List.length_cons, List.length_cons, ih]

mutual

theorem element_agrees {context : Context} (standard : StandardSettings context.settings)
    (element : Element) (sound : SoundElement element) :
    WriterAgrees (writeElement context element) (elementMeaning context element) := by
  match element, sound with
  | ⟨head, children, branches⟩, ⟨soundHead, soundChildren, soundBranches⟩ =>
    have inside := core_agrees standard soundHead (nodes_agree standard children soundChildren)
      (nodeWriters_length context children)
    exact layers_agree soundHead (elementBranches_agree standard branches soundBranches) inside _
      choose_mem_layers

theorem node_agrees {context : Context} (standard : StandardSettings context.settings)
    (node : Node) (sound : SoundNode node) :
    WriterAgrees (writeNode context node) (nodeMeaning context node) := by
  match node, sound with
  | .element element, sound => exact element_agrees standard element sound
  | .text run, sound => exact fun _ _ => .pure (run_reads sound)
  | .comment comment, _ =>
    refine fun _ _ => .pure (.ofOperand (helperCall_reads "_e" (by decide) (by decide)
      (.cons (encode_reads comment.content).listed .nil)) ?_)
    simp [Code.text, Code.ofSource, Piece.text, commaList, commaTail]

theorem nodes_agree {context : Context} (standard : StandardSettings context.settings)
    (nodes : List Node) (sound : SoundNodes nodes) :
    List.Forall₂ WriterAgrees (nodeWriters context nodes) (nodeMeanings context nodes) := by
  match nodes, sound with
  | [], _ => exact .nil
  | node :: rest, ⟨first, others⟩ =>
    exact .cons (node_agrees standard node first) (nodes_agree standard rest others)

theorem elementBranches_agree {context : Context} (standard : StandardSettings context.settings)
    (branches : List Branch) (sound : SoundBranches branches) :
    List.Forall₂ BranchAgrees (branchWriters context branches) (branchMeanings context branches) := by
  match branches, sound with
  | [], _ => exact .nil
  | ⟨condition, block⟩ :: rest, ⟨soundCondition, soundBlock, others⟩ =>
    exact .cons ⟨rfl, soundCondition, element_agrees standard block soundBlock⟩
      (elementBranches_agree standard rest others)

end

def SoundDocument (document : Document) : Prop :=
  ∀ root ∈ document.root, SoundElement root

theorem document_agrees {context : Context} (standard : StandardSettings context.settings)
    {document : Document} (sound : SoundDocument document) :
    Agrees BlockReads (writeDocument context document) (documentMeaning context document) := by
  unfold writeDocument documentMeaning
  cases given : document.root with
  | none =>
    exact .pure (.ofOperand (helperCall_reads "_c" (by decide) (by decide)
      (.cons (encode_reads "div").listed .nil)) rfl)
  | some root =>
    simp only
    split
    · exact .pure (.ofOperand null_operand rfl)
    · exact element_agrees standard root (sound root given) [] fun _ held => by cases held

/-- The program of a document whose captured code is sound is read as the
meaning of the document. -/
theorem program_eq_meaning {settings : Settings} (standard : StandardSettings settings)
    (annotations : Annotations) {document : Document} (sound : SoundDocument document) :
    let program := (generate settings annotations document).1
    let found := (documentMeaning ⟨settings, annotations⟩ document).run .empty
    parseProgram? program.render.text = some found.1 ∧
      List.Forall₂ (fun (code : Code) fragment => parseProgram? code.text = some fragment)
        program.fragments found.2.fragments := by
  have agrees : Agrees BlockReads (writeDocument ⟨settings, annotations⟩ document)
      (documentMeaning ⟨settings, annotations⟩ document) := document_agrees standard sound
  obtain ⟨reads, alike⟩ := agrees .empty .empty ⟨.nil, rfl⟩
  exact ⟨wrapped_reads reads, alike.fragments⟩

end Templating.Rendering
