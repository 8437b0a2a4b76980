import Templating.Proofs.Translation.Heads
/-!
# Writing agrees with meaning

Writing a tree and translating it go through the same steps.  Each step keeps the
fragments alike, and what it has written is read as what it has translated.
-/
set_option autoImplicit false

namespace Templating.Rendering

open Templating.Text Templating.Template Templating.Expression Templating.Expression.Grammar

/-! ## Side by side -/

/-- The fragments written are read as the fragments translated. -/
structure Alike (draft : Draft) (kept : Kept) : Prop where
  fragments : List.Forall₂ (fun (code : Code) fragment => parseProgram? code.text = some fragment)
    draft.fragments kept.fragments
  onceCount : draft.onceCount = kept.onceCount

/-- Writing and translating end with related results and stay alike. -/
def Agrees {α β : Type} (related : α → β → Prop) (write : Gen α) (translate : Translation β) : Prop :=
  ∀ draft kept, Alike draft kept →
    related (write.run draft).1 (translate.run kept).1 ∧
      Alike (write.run draft).2 (translate.run kept).2

section Agrees

variable {α β γ δ : Type} {related : α → β → Prop} {relatedThen : γ → δ → Prop}

theorem Agrees.pure {written : α} {meant : β} (holds : related written meant) :
    Agrees related (return written) (return meant) := fun _ _ alike => ⟨holds, alike⟩

theorem Agrees.bind {write : Gen α} {translate : Translation β} {writeThen : α → Gen γ}
    {translateThen : β → Translation δ} (first : Agrees related write translate)
    (second : ∀ written meant, related written meant →
      Agrees relatedThen (writeThen written) (translateThen meant)) :
    Agrees relatedThen (write >>= writeThen) (translate >>= translateThen) := by
  intro draft kept alike
  obtain ⟨holds, still⟩ := first draft kept alike
  exact second _ _ holds _ _ still

theorem Agrees.weaken {weaker : α → β → Prop} {write : Gen α} {translate : Translation β}
    (agrees : Agrees related write translate)
    (weakened : ∀ written meant, related written meant → weaker written meant) :
    Agrees weaker write translate := fun draft kept alike =>
  ⟨weakened _ _ (agrees draft kept alike).1, (agrees draft kept alike).2⟩

theorem Agrees.report {write : Gen α} {translate : Translation β} (diagnostics : List Diagnostic)
    (agrees : Agrees related write translate) :
    Agrees related (do Gen.report diagnostics; write) translate :=
  fun _ kept alike => agrees _ kept ⟨alike.fragments, alike.onceCount⟩

end Agrees

/-! ## Pieces of source -/

theorem text_append (first second : Code) : Code.text (first ++ second) = first.text ++ second.text := by
  simp [Code.text, String.join_append]

theorem text_source_cons (source : String) (code : Code) :
    Code.text (.source source :: code) = source ++ code.text := by
  simp [Code.text, String.join_cons, Piece.text]

theorem text_nil : Code.text [] = "" := rfl

theorem commaSeparated_toList (codes : List Code) :
    (Code.commaSeparated codes).text.toList = commaList (codes.map fun code => code.text.toList) := by
  have tail : ∀ (first : Code) (others : List Code),
      (Code.commaSeparated (first :: others)).text.toList =
        first.text.toList ++ commaTail (others.map fun code => code.text.toList) := by
    intro first others
    induction others generalizing first with
    | nil => simp [Code.commaSeparated, commaTail]
    | cons second others ih => simp [Code.commaSeparated, text_append, text_source_cons, ih, commaTail]
  cases codes with
  | nil => rfl
  | cons first others => exact tail first others

def BlockReads (code : Code) (meaning : Expr) : Prop :=
  Reads expression endsBlock code.text.toList meaning

theorem BlockReads.ofOperand {code : Code} {source : List Char} {meaning : Expr}
    (read : ReadsOperand source meaning) (text : code.text.toList = source) : BlockReads code meaning := by
  unfold BlockReads
  rw [text]
  exact read.reads

theorem BlockReads.listed {code : Code} {meaning : Expr} (reads : BlockReads code meaning) :
    Reads expression endsListener code.text.toList meaning :=
  reads.weaken fun _ ends => endsBlock_of_endsListener ends

theorem wrapped_reads {code : Code} {meaning : Expr} (reads : BlockReads code meaning) :
    parseProgram? code.wrapped.text = some meaning := by
  refine (whole_eq_some_iff program _ meaning).mpr ⟨[], ?_, rfl⟩
  have source : code.wrapped.text.toList =
      "with(this)\x7breturn ".toList ++ code.text.toList ++ ['\x7d'] := by
    simp [Code.wrapped, text_append, text_source_cons, text_nil]
  rw [source]
  exact program_reads reads

/-! ## Children -/

def SoundLoops (loops : List (Option String)) : Prop :=
  ∀ key, some key ∈ loops → readsAlone key = true

/-- Under every choice of loops around, the writer writes what the translator
means. -/
def WriterAgrees (write : Writer) (translate : Translator) : Prop :=
  ∀ loops, SoundLoops loops → Agrees BlockReads (write loops) (translate loops)

theorem Agrees.mapM {writers : List Writer} {translators : List Translator}
    (agree : List.Forall₂ WriterAgrees writers translators) {loops : List (Option String)}
    (sound : SoundLoops loops) :
    Agrees (fun codes meanings => List.Forall₂ BlockReads codes meanings ∧
        codes.length = writers.length)
      (writers.mapM fun writer => writer loops)
      (translators.mapM fun translator => translator loops) := by
  induction agree with
  | nil => exact .pure ⟨.nil, rfl⟩
  | cons first others ih =>
    rw [List.mapM_cons, List.mapM_cons]
    refine (first loops sound).bind fun code meaning read => ?_
    refine ih.bind fun codes meanings reads => .pure ⟨.cons read reads.1, ?_⟩
    rw [List.length_cons, List.length_cons, reads.2]

def ArgumentReads : Option Code → Option Expr → Prop
  | none, none => True
  | some code, some meaning => BlockReads code meaning
  | _, _ => False

theorem listed_reads {codes : List Code} {meanings : List Expr}
    (reads : List.Forall₂ BlockReads codes meanings) :
    BlockReads (.source "[" :: Code.commaSeparated codes ++ [.source "]"]) (.list meanings) := by
  have items : List.Forall₂ (Reads expression endsListener)
      (codes.map fun code => code.text.toList) meanings := by
    rw [List.forall₂_map_left_iff]
    exact reads.imp fun _ _ read => read.listed
  refine .ofOperand (list_operand items) ?_
  simp [text_append, text_source_cons, text_nil, commaSeparated_toList]

theorem children_agree {children : List Node} {writers : List Writer} {translators : List Translator}
    (agree : List.Forall₂ WriterAgrees writers translators) (counted : writers.length = children.length)
    {loops : List (Option String)} (sound : SoundLoops loops) :
    Agrees ArgumentReads (writeChildren children writers loops)
      (childrenMeaning children translators loops) := by
  refine (Agrees.mapM agree sound).bind fun codes meanings ⟨reads, lengths⟩ => ?_
  cases reads with
  | nil => exact .pure trivial
  | @cons code meaning codes meanings read reads =>
    cases reads with
    | nil =>
      cases lone : isLoneLoop children with
      | true =>
        simp only [List.isEmpty_cons, Bool.false_eq_true, if_false, if_true, List.flatten_singleton]
        exact .pure read
      | false =>
        simp only [List.isEmpty_cons, Bool.false_eq_true, if_false]
        exact .pure (listed_reads (.cons read .nil))
    | @cons other second codes meanings next reads =>
      have several : isLoneLoop children = false := by
        match children, lengths.trans counted with
        | first :: _ :: _, _ => cases first <;> rfl
      simp only [List.isEmpty_cons, several, Bool.false_eq_true, if_false]
      exact .pure (listed_reads (.cons read (.cons next reads)))

/-! ## Elements -/

def argumentCodes (argument : Option Code) : List (List Char) :=
  argument.toList.map fun code => code.text.toList

theorem argument_reads {code : Option Code} {meaning : Option Expr} (reads : ArgumentReads code meaning) :
    List.Forall₂ (Reads expression endsListener) (argumentCodes code) meaning.toList := by
  cases code with
  | none =>
    cases meaning with
    | none => exact .nil
    | some _ => cases reads
  | some code =>
    cases meaning with
    | none => cases reads
    | some meaning => exact .cons (BlockReads.listed reads) .nil

theorem furtherArgument_toList (argument : Option Code) :
    (furtherArgument argument).text.toList = commaTail (argumentCodes argument) := by
  cases argument <;> simp [furtherArgument, argumentCodes, text_source_cons, text_nil, commaTail]

section Core

variable {settings : Settings} {head : Head}

theorem tag_reads (sound : SoundHead head) :
    ReadsOperand ('\x27' :: head.tag.toList ++ ['\x27']) (textExpr head.tag) := by
  have read := quoted_operand sound.tag
  rwa [String.ofList_toList] at read

theorem outletProps_sound (sound : SoundHead head) :
    ∀ item ∈ outletProps head, SoundAttribute item := by
  intro item held
  obtain ⟨given, inside, rfl⟩ := List.mem_map.mp held
  intro code spliced
  refine sound.attributes given inside code ?_
  cases named : given.hasNameExpression <;> simpa [attributeSplices, named] using spliced

def ArgumentsRead (text : List Char) (meanings : List Expr) : Prop :=
  ∃ codes : List (List Char), text = commaTail codes ∧
    List.Forall₂ (Reads expression endsListener) codes meanings

theorem ArgumentsRead.none : ArgumentsRead [] [] := ⟨[], rfl, .nil⟩

theorem ArgumentsRead.single {code : List Char} {meaning : Expr}
    (reads : Reads expression endsListener code meaning) : ArgumentsRead (',' :: code) [meaning] :=
  ⟨[code], by simp [commaTail], .cons reads .nil⟩

theorem ArgumentsRead.append {first second : List Char} {firstMeanings secondMeanings : List Expr}
    (start : ArgumentsRead first firstMeanings) (behind : ArgumentsRead second secondMeanings) :
    ArgumentsRead (first ++ second) (firstMeanings ++ secondMeanings) := by
  obtain ⟨firstCodes, rfl, firstRead⟩ := start
  obtain ⟨secondCodes, rfl, secondRead⟩ := behind
  exact ⟨firstCodes ++ secondCodes, List.flatMap_append.symm, List.rel_append firstRead secondRead⟩

theorem ArgumentsRead.argument {code : Option Code} {meaning : Option Expr}
    (reads : ArgumentReads code meaning) :
    ArgumentsRead (furtherArgument code).text.toList meaning.toList :=
  ⟨argumentCodes code, furtherArgument_toList code, argument_reads reads⟩

theorem ArgumentsRead.call (name : String) (identifier : isIdentifier name.toList = true)
    (free : name ∉ reserved) {first : List Char} {meaning : Expr} {others : List Char}
    {meanings : List Expr} (start : Reads expression endsListener first meaning)
    (reads : ArgumentsRead others meanings) :
    ReadsOperand (name.toList ++ '(' :: (first ++ others) ++ [')'])
      (helperCall name (meaning :: meanings)) := by
  obtain ⟨codes, rfl, items⟩ := reads
  exact helperCall_reads _ identifier free (.cons start items)

theorem null_reads (isNeeded : Bool) :
    ArgumentsRead (Code.text (if isNeeded then [.source ",null"] else [])).toList
      (if isNeeded then [.literal .null] else []) := by
  cases isNeeded with
  | false => exact .none
  | true => exact .single null_operand.listed

theorem outlet_call (sound : SoundHead head) {fallback : List Char} {meanings : List Expr}
    (reads : ArgumentsRead fallback meanings) :
    ReadsOperand
      ("_t".toList ++ '(' :: ((head.outletName.getD "\"default\"").toList ++
        (fallback ++
          (if !(outletProps head).isEmpty then "," ++ attributesCode (outletProps head)
            else if head.spread.isSome then ",null" else "").toList ++
          ((head.spread.map fun object => "," ++ object).getD "").toList)) ++ [')'])
      (helperCall "_t" ((head.outletName.map captured).getD (textExpr "default") ::
        (meanings ++
          (if !(outletProps head).isEmpty then [attributesMeaning (outletProps head)]
            else if head.spread.isSome then [.literal .null] else []) ++
          head.spread.toList.map captured))) := by
  have name : Reads expression endsListener (head.outletName.getD "\"default\"").toList
      ((head.outletName.map captured).getD (textExpr "default")) := by
    cases given : head.outletName with
    | none => exact (encode_reads "default").listed
    | some name => exact captured_reads (sound.outletName name given)
  have given : ArgumentsRead
      (if !(outletProps head).isEmpty then "," ++ attributesCode (outletProps head)
        else if head.spread.isSome then ",null" else "").toList
      (if !(outletProps head).isEmpty then [attributesMeaning (outletProps head)]
        else if head.spread.isSome then [.literal .null] else []) := by
    split
    · simpa using ArgumentsRead.single (attributesCode_reads (outletProps_sound sound)).listed
    · split
      · exact .single null_operand.listed
      · exact .none
  have spread : ArgumentsRead ((head.spread.map fun object => "," ++ object).getD "").toList
      (head.spread.toList.map captured) := by
    cases held : head.spread with
    | none => exact .none
    | some object => simpa using ArgumentsRead.single (captured_reads (sound.spread object held))
  exact ArgumentsRead.call _ (by decide) (by decide) name ((reads.append given).append spread)

theorem outlet_reads (sound : SoundHead head) {code : Option Code} {meaning : Option Expr}
    (reads : ArgumentReads code meaning) :
    BlockReads (outletCode head code) (outletMeaning head meaning) := by
  cases code with
  | none =>
    cases meaning with
    | some _ => cases reads
    | none =>
      have call := outlet_call sound
        (null_reads (!(outletProps head).isEmpty || head.spread.isSome))
      refine .ofOperand call ?_
      simp [outletCode, outletProps, text_append, text_source_cons, text_nil]
  | some code =>
    cases meaning with
    | none => cases reads
    | some inner =>
      have body := function_operand (List.Forall₂.nil (R := Reads pattern endsListener)) reads
      have call := outlet_call sound (.single body.listed)
      refine .ofOperand call ?_
      simp [outletCode, outletProps, text_append, text_source_cons, text_nil, commaList]

theorem element_reads {context : Context} (standard : StandardSettings context.settings)
    (sound : SoundHead head) (inLoop : Bool) {code : Option Code}
    {meaning : Option Expr} (reads : ArgumentReads code meaning) :
    BlockReads
      (match head.component with
        | some component =>
          .source ("_c(" ++ component ++ "," ++ dataCode context.settings inLoop head) ::
            furtherArgument code ++ [.source ")"]
        | none =>
          .source ("_c('" ++ head.tag ++ "'" ++
            if dataCode context.settings inLoop head == "\x7b\x7d" then ""
            else "," ++ dataCode context.settings inLoop head) ::
            furtherArgument code ++ [.source ")"])
      (helperCall "_c" ((match head.component with
        | some component => [captured component, dataObject context.settings inLoop head]
        | none =>
          if needsData context.settings inLoop head then
            [textExpr head.tag, dataObject context.settings inLoop head]
          else [textExpr head.tag]) ++ meaning.toList)) := by
  have data := dataCode_reads standard inLoop sound
  have children := ArgumentsRead.argument reads
  cases given : head.component with
  | some component =>
    refine .ofOperand (ArgumentsRead.call "_c" (by decide) (by decide)
      (captured_reads (sound.component component given))
      ((ArgumentsRead.single data.listed).append children)) ?_
    simp [text_append, text_source_cons, text_nil]
  | none =>
    have tag := tag_reads sound
    simp only [dataCode_eq_empty_iff standard inLoop sound]
    cases needed : needsData context.settings inLoop head with
    | true =>
      refine .ofOperand (ArgumentsRead.call "_c" (by decide) (by decide) tag.listed
        ((ArgumentsRead.single data.listed).append children)) ?_
      simp [text_append, text_source_cons, text_nil]
    | false =>
      refine .ofOperand (ArgumentsRead.call "_c" (by decide) (by decide) tag.listed
        children) ?_
      simp [text_append, text_source_cons, text_nil]

theorem core_agrees {context : Context} (standard : StandardSettings context.settings)
    (sound : SoundHead head) {children : List Node} {writers : List Writer}
    {translators : List Translator} (agree : List.Forall₂ WriterAgrees writers translators)
    (counted : writers.length = children.length) :
    WriterAgrees (writeCore context head children writers)
      (coreMeaning context.settings head children translators) := by
  intro loops soundLoops
  have inner := children_agree agree counted soundLoops
  unfold writeCore coreMeaning
  split
  · refine inner.bind fun code meaning reads => ?_
    refine .pure ?_
    cases code with
    | none =>
      cases meaning with
      | none => exact .ofOperand undefined_operand rfl
      | some _ => cases reads
    | some code =>
      cases meaning with
      | none => cases reads
      | some meaning => exact reads
  · split
    · refine inner.bind fun code meaning reads => ?_
      exact .pure (outlet_reads sound reads)
    · refine Agrees.report _ ?_
      refine inner.bind fun code meaning reads => ?_
      have read := element_reads standard sound (!loops.isEmpty) reads
      cases given : head.component with
      | some component =>
        simp only [given] at read
        exact .pure read
      | none =>
        simp only [given] at read
        exact .pure read

end Core

end Templating.Rendering
