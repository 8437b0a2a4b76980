import Templating.Proofs.Template.AllHeads
import Templating.Proofs.Template.Numbering
import Templating.Proofs.Text.Search
import Templating.Proofs.Translation.Agreement
/-!
# Fragments put back in place

Where nothing is rendered once, hoisting moves source and changes none of it:
each call of a fragment, replaced by what the fragment holds, gives the source
that is written without hoisting, and the reports are the same.

A writer without hoisting is a constant.  A writer with hoisting is compared
with it over all drafts, given the bodies of the fragments kept so far.
-/
set_option autoImplicit false

namespace Templating.Template

/-! ## Nothing below a static root is a root -/

mutual

theorem annotate_underRoot (settings : Settings) (around : Surroundings)
    (under : around.underRoot = true) (element : Element) :
    ∀ entry ∈ element.annotate settings around, entry.2.isRoot = false := by
  match element with
  | ⟨head, children, branches⟩ =>
    intro entry held
    rw [Element.annotate, List.mem_append, List.mem_cons] at held
    rcases held with (rfl | inside) | beside
    · simp [Head.flags, under]
    · exact annotateNodes_underRoot settings _ (by simp [Head.surroundChildren, under]) children
        entry inside
    · exact annotateBranches_underRoot settings _ (by simp [under]) branches entry beside

theorem annotateNodes_underRoot (settings : Settings) (around : Surroundings)
    (under : around.underRoot = true) (nodes : List Node) :
    ∀ entry ∈ annotateNodes settings around nodes, entry.2.isRoot = false := by
  match nodes with
  | [] => exact fun _ held => by cases held
  | node :: rest =>
    intro entry held
    rw [annotateNodes, List.mem_append] at held
    rcases held with here | inside
    · match node with
      | .element element => exact annotate_underRoot settings around under element entry here
      | .text run =>
        rw [List.mem_singleton.mp here]
      | .comment comment =>
        rw [List.mem_singleton.mp here]
    · exact annotateNodes_underRoot settings around under rest entry inside

theorem annotateBranches_underRoot (settings : Settings) (around : Surroundings)
    (under : around.underRoot = true) (branches : List Branch) :
    ∀ entry ∈ annotateBranches settings around branches, entry.2.isRoot = false := by
  match branches with
  | [] => exact fun _ held => by cases held
  | ⟨_, block⟩ :: rest =>
    intro entry held
    rw [annotateBranches, List.mem_append] at held
    rcases held with here | inside
    · exact annotate_underRoot settings around under block entry here
    · exact annotateBranches_underRoot settings around under rest entry inside

end

end Templating.Template

namespace Templating.Rendering

open Templating.Text Templating.Template

/-! ## Replacing calls -/

/-- The source that a function without parameters returns. -/
def bodyText? (function : String) : Option String :=
  ((dropLeading? "with(this)\x7breturn ".toList function.toList).bind
    (dropTrailing? ['\x7d'])).map String.ofList

/-- The text of a piece, where the call of a fragment stands for what the
fragment returns. -/
def Piece.inlinedText? (fragments : List Code) : Piece → Option String
  | .fragment index _ => (fragments[index]?).bind fun code => bodyText? code.text
  | .source text => some text
  | .onceId id => some (toString id)

/-- The source of the render function with each call of a fragment replaced by
what the fragment returns. -/
def Program.inlinedText? (program : Program) : Option String :=
  (program.render.mapM (Piece.inlinedText? program.fragments)).map String.join

/-- The fragments that are called, in the order of their calls. -/
def Code.calls (code : Code) : List Nat :=
  code.filterMap fun piece =>
    match piece with
    | .fragment index _ => some index
    | _ => none

@[simp] theorem Code.calls_append (first second : Code) :
    Code.calls (first ++ second) = first.calls ++ second.calls := List.filterMap_append

@[simp] theorem Code.calls_source (text : String) (rest : Code) :
    Code.calls (.source text :: rest) = rest.calls := rfl

@[simp] theorem Code.calls_nil : Code.calls [] = [] := rfl

/-- Each call in `code`, replaced by the body that it calls, gives `plain`. -/
inductive Inlines (bodies : List Code) : Code → Code → Prop where
  | nil : Inlines bodies [] []
  | source (text : String) {code plain : Code} (rest : Inlines bodies code plain) :
      Inlines bodies (.source text :: code) (.source text :: plain)
  | fragment (inLoop : Bool) {index : Nat} {body code plain : Code}
      (found : bodies[index]? = some body) (rest : Inlines bodies code plain) :
      Inlines bodies (.fragment index inLoop :: code) (body ++ plain)

section Inlines

variable {bodies : List Code}

theorem Inlines.append {code plain others plainOthers : Code} (first : Inlines bodies code plain)
    (second : Inlines bodies others plainOthers) :
    Inlines bodies (code ++ others) (plain ++ plainOthers) := by
  induction first with
  | nil => exact second
  | source text _ ih => exact .source text ih
  | fragment inLoop found _ ih =>
    rw [List.append_assoc]
    exact .fragment inLoop found ih

theorem Inlines.widen {wider : List Code} {code plain : Code} (inlines : Inlines bodies code plain)
    (kept : bodies <+: wider) : Inlines wider code plain := by
  obtain ⟨further, rfl⟩ := kept
  induction inlines with
  | nil => exact .nil
  | source text _ ih => exact .source text ih
  | fragment inLoop found _ ih =>
    refine .fragment inLoop ?_ ih
    rw [List.getElem?_append_left (List.getElem?_eq_some_iff.mp found).1, found]

theorem Inlines.single (text : String) : Inlines bodies [.source text] [.source text] :=
  .source text .nil

theorem Inlines.commaSeparated {codes plains : List Code}
    (same : List.Forall₂ (Inlines bodies) codes plains) :
    Inlines bodies (Code.commaSeparated codes) (Code.commaSeparated plains) := by
  induction same with
  | nil => exact .nil
  | cons first others ih =>
    cases others with
    | nil => exact first
    | cons second rest => exact first.append (.source "," ih)

theorem Inlines.flatten {codes plains : List Code}
    (same : List.Forall₂ (Inlines bodies) codes plains) :
    Inlines bodies codes.flatten plains.flatten := by
  induction same with
  | nil => exact .nil
  | cons first others ih => exact first.append ih

end Inlines

/-! ## Texts of calls -/

theorem bodyText_wrapped (body : Code) : bodyText? body.wrapped.text = some body.text := by
  have whole : body.wrapped.text.toList =
      "with(this)\x7breturn ".toList ++ (body.text.toList ++ ['\x7d']) := by
    simp [Code.wrapped, text_append, text_source_cons, text_nil]
  have inside : dropLeading? "with(this)\x7breturn ".toList body.wrapped.text.toList =
      some (body.text.toList ++ ['\x7d']) :=
    (dropLeading_eq_some_iff _ _ _).mpr whole
  have ended : dropTrailing? ['\x7d'] (body.text.toList ++ ['\x7d']) = some body.text.toList := by
    simp [dropTrailing?, dropLeading?]
  rw [bodyText?, inside, Option.bind_some, ended, Option.map_some, String.ofList_toList]

theorem Inlines.text {bodies : List Code} {code plain : Code}
    (inlines : Inlines bodies code plain) :
    (code.mapM (Piece.inlinedText? (bodies.map Code.wrapped))).map String.join =
      some plain.text := by
  have step (piece : Piece) (rest : Code) (here : String)
      (found : piece.inlinedText? (bodies.map Code.wrapped) = some here) {others : String}
      (ih : (rest.mapM (Piece.inlinedText? (bodies.map Code.wrapped))).map String.join =
        some others) :
      ((piece :: rest).mapM (Piece.inlinedText? (bodies.map Code.wrapped))).map String.join =
        some (here ++ others) := by
    obtain ⟨texts, read, joined⟩ := Option.map_eq_some_iff.mp ih
    rw [List.mapM_cons, found, read, ← joined]
    simp [String.join_cons]
  induction inlines with
  | nil => rfl
  | source text _ ih =>
    rw [text_source_cons]
    exact step (.source text) _ text rfl ih
  | @fragment inLoop index body _ _ found _ ih =>
    rw [text_append]
    refine step (.fragment index inLoop) _ body.text ?_ ih
    rw [Piece.inlinedText?, List.getElem?_map, found]
    exact bodyText_wrapped body

/-! ## Writers with and without hoisting -/

/-- The writer is a constant: it keeps nothing, and what it writes and reports
does not depend on the draft. -/
def Settles {α : Type} (plain : Gen α) (result : α) (diagnostics : List Diagnostic) : Prop :=
  ∀ draft : Draft,
    plain.run draft = (result, { draft with diagnostics := draft.diagnostics ++ diagnostics })

/-- `write` hoists what `plain` writes in place: over every draft that keeps the
fragments with bodies `known`, and maybe more, it reports the same, the
fragments that it adds call nothing, and with all their bodies what it writes
is `related` to what `plain` writes. -/
def Hoists {α : Type} (known : List Code) (related : List Code → α → α → Prop)
    (write plain : Gen α) : Prop :=
  ∃ result diagnostics, Settles plain result diagnostics ∧
    ∀ (draft : Draft) (bodies : List Code), known <+: bodies →
      draft.fragments = bodies.map Code.wrapped →
        ∃ written further, (∀ body ∈ further, Code.calls body = []) ∧
          related (bodies ++ further) written result ∧
          write.run draft = (written,
            { draft with
              fragments := (bodies ++ further).map Code.wrapped
              diagnostics := draft.diagnostics ++ diagnostics })

section Hoists

variable {α β : Type} {known : List Code}

theorem Settles.unique {plain : Gen α} {result other : α} {diagnostics others : List Diagnostic}
    (first : Settles plain result diagnostics) (second : Settles plain other others) :
    result = other ∧ diagnostics = others := by
  have same := (first .empty).symm.trans (second .empty)
  exact ⟨congrArg Prod.fst same, congrArg (fun pair => pair.2.diagnostics) same⟩

theorem Hoists.pure {related : List Code → α → α → Prop} {written result : α}
    (same : ∀ bodies, known <+: bodies → related bodies written result) :
    Hoists known related (return written) (return result) := by
  refine ⟨result, [], fun draft => ?_, fun draft bodies inside kept => ?_⟩
  · rw [List.append_nil]
    rfl
  · refine ⟨written, [], by simp, ?_, ?_⟩
    · rw [List.append_nil]
      exact same bodies inside
    · rw [List.append_nil, List.append_nil, ← kept]
      rfl

theorem Hoists.report (diagnostics : List Diagnostic) :
    Hoists known (fun _ _ _ => True) (Gen.report diagnostics) (Gen.report diagnostics) := by
  refine ⟨(), diagnostics, fun draft => rfl, fun draft bodies inside kept => ?_⟩
  refine ⟨(), [], by simp, trivial, ?_⟩
  rw [List.append_nil, ← kept]
  rfl

theorem Hoists.bind {first : List Code → α → α → Prop} {second : List Code → β → β → Prop}
    {write plain : Gen α} {next plainNext : α → Gen β} (one : Hoists known first write plain)
    (two : ∀ bodies written result, known <+: bodies → first bodies written result →
      Hoists bodies second (next written) (plainNext result)) :
    Hoists known second (write >>= next) (plain >>= plainNext) := by
  obtain ⟨result, diagnostics, settles, hoists⟩ := one
  obtain ⟨written, further, -, same, -⟩ :=
    hoists ⟨known.map Code.wrapped, 0, []⟩ known (List.prefix_refl known) rfl
  obtain ⟨final, others, settlesNext, -⟩ := two _ _ _ (List.prefix_append known further) same
  refine ⟨final, diagnostics ++ others, fun draft => ?_, fun draft bodies inside kept => ?_⟩
  · have run : (plain >>= plainNext).run draft =
        (plainNext (plain.run draft).1).run (plain.run draft).2 := rfl
    rw [run, settles, settlesNext, List.append_assoc]
  · obtain ⟨written, further, calls, same, ran⟩ := hoists draft bodies inside kept
    have wider : known <+: bodies ++ further := inside.trans (List.prefix_append bodies further)
    obtain ⟨finalToo, othersToo, settlesToo, hoistsNext⟩ := two _ _ _ wider same
    obtain ⟨rfl, rfl⟩ := settlesToo.unique settlesNext
    obtain ⟨last, rest, callsNext, sameNext, ranNext⟩ :=
      hoistsNext { draft with
          fragments := (bodies ++ further).map Code.wrapped
          diagnostics := draft.diagnostics ++ diagnostics }
        (bodies ++ further) (List.prefix_refl _) rfl
    refine ⟨last, further ++ rest, ?_, by rwa [← List.append_assoc], ?_⟩
    · intro body held
      exact (List.mem_append.mp held).elim (calls body) (callsNext body)
    · have run : (write >>= next).run draft = (next (write.run draft).1).run (write.run draft).2 :=
        rfl
      rw [run, ran, ranNext]
      simp only [List.append_assoc]

end Hoists

/-! ## Elements without their layers -/

def WritersHoist (write plain : Writer) : Prop :=
  ∀ loops known, Hoists known Inlines (write loops) (plain loops)

theorem codes_hoist {writers plains : List Writer} (same : List.Forall₂ WritersHoist writers plains)
    (loops : List (Option String)) (known : List Code) :
    Hoists known (fun bodies => List.Forall₂ (Inlines bodies))
      (writers.mapM fun writer => writer loops) (plains.mapM fun writer => writer loops) := by
  induction same generalizing known with
  | nil => exact .pure fun _ _ => .nil
  | cons first _ ih =>
    rw [List.mapM_cons, List.mapM_cons]
    refine (first loops known).bind fun bodies code plain _ here => ?_
    refine (ih bodies).bind fun wider codes plains further there => ?_
    refine .pure fun widest beyond => .cons (here.widen (further.trans beyond)) ?_
    exact there.imp fun _ _ inlines => inlines.widen beyond

theorem children_hoist {writers plains : List Writer}
    (same : List.Forall₂ WritersHoist writers plains) (children : List Node)
    (loops : List (Option String)) (known : List Code) :
    Hoists known (fun bodies => Option.Rel (Inlines bodies)) (writeChildren children writers loops)
      (writeChildren children plains loops) := by
  refine (codes_hoist same loops known).bind fun bodies codes plains _ inlines => ?_
  have widened (wider : List Code) (further : bodies <+: wider) :
      List.Forall₂ (Inlines wider) codes plains := inlines.imp fun _ _ here => here.widen further
  have alike : codes.isEmpty = plains.isEmpty := by
    cases inlines <;> rfl
  rw [alike]
  split
  · exact .pure fun _ _ => .none
  · split
    · exact .pure fun wider further => .some (Inlines.flatten (widened wider further))
    · refine .pure fun wider further => .some (.source "[" ?_)
      exact (Inlines.commaSeparated (widened wider further)).append (.single "]")

theorem outlet_inlines {bodies : List Code} {inner plainInner : Option Code} (head : Head)
    (same : Option.Rel (Inlines bodies) inner plainInner) :
    Inlines bodies (outletCode head inner) (outletCode head plainInner) := by
  unfold outletCode
  refine .source _ (Inlines.append ?_ (.single _))
  cases same with
  | none =>
    dsimp only
    split
    · exact .single _
    · exact .nil
  | some code => exact .source _ (code.append (.single _))

theorem furtherArgument_inlines {bodies : List Code} {inner plainInner : Option Code}
    (same : Option.Rel (Inlines bodies) inner plainInner) :
    Inlines bodies (furtherArgument inner) (furtherArgument plainInner) := by
  cases same with
  | none => exact .nil
  | some code => exact .source _ code

theorem Rel.widen {bodies wider : List Code} {inner plainInner : Option Code}
    (same : Option.Rel (Inlines bodies) inner plainInner) (kept : bodies <+: wider) :
    Option.Rel (Inlines wider) inner plainInner := by
  cases same with
  | none => exact .none
  | some code => exact .some (code.widen kept)

theorem core_hoists (settings : Settings) (annotations others : Annotations) (head : Head)
    (children : List Node) {writers plains : List Writer}
    (same : List.Forall₂ WritersHoist writers plains) :
    WritersHoist (writeCore ⟨settings, annotations⟩ head children writers)
      (writeCore ⟨settings, others⟩ head children plains) := by
  intro loops known
  unfold writeCore
  split
  · refine (children_hoist same children loops known).bind fun bodies inner plainInner _ inlines => ?_
    refine .pure fun wider kept => ?_
    cases inlines with
    | none => exact .single _
    | some code => exact code.widen kept
  · split
    · refine (children_hoist same children loops known).bind fun bodies inner plainInner _ inlines => ?_
      exact .pure fun wider kept => outlet_inlines head (Rel.widen inlines kept)
    · have data : Hoists known (fun _ => Eq) (writeData ⟨settings, annotations⟩ head loops)
          (writeData ⟨settings, others⟩ head loops) :=
        (Hoists.report _).bind fun _ _ _ _ _ => .pure fun _ _ => rfl
      refine data.bind fun bodies object _ _ equal => ?_
      cases equal
      refine (children_hoist same children loops bodies).bind fun wider inner plainInner _ inlines => ?_
      have arguments (widest : List Code) (kept : wider <+: widest) (start : String) :
          Inlines widest (.source start :: furtherArgument inner ++ [.source ")"])
            (.source start :: furtherArgument plainInner ++ [.source ")"]) :=
        .source start ((furtherArgument_inlines (Rel.widen inlines kept)).append (.single ")"))
      split
      · exact .pure fun widest kept => arguments widest kept _
      · exact .pure fun widest kept => arguments widest kept _

/-! ## Layers -/

theorem branches_hoist {branches plains : List (Option String × Writer)}
    (same : List.Forall₂ (fun branch plain => branch.1 = plain.1 ∧ WritersHoist branch.2 plain.2)
      branches plains) (loops : List (Option String)) (known : List Code) :
    Hoists known Inlines (writeBranches loops branches) (writeBranches loops plains) := by
  induction same generalizing known with
  | nil => exact .pure fun _ _ => .single _
  | @cons branch plain rest plainRest both _ ih =>
    obtain ⟨equal, writes⟩ := both
    obtain ⟨condition, writer⟩ := branch
    obtain ⟨other, plainWriter⟩ := plain
    cases equal
    cases condition with
    | none => exact writes loops known
    | some condition =>
      refine (writes loops known).bind fun bodies block plainBlock _ here => ?_
      refine (ih bodies).bind fun wider others plainOthers further there => ?_
      refine .pure fun widest beyond => .source _ ?_
      exact (here.widen (further.trans beyond)).append (.source ":" (there.widen beyond))

theorem loop_hoists (settings : Settings) (annotations others : Annotations) (head : Head)
    (branches plains : List (Option String × Writer)) {inner plainInner : Writer}
    (same : WritersHoist inner plainInner) :
    WritersHoist (Layer.loop.write ⟨settings, annotations⟩ head branches inner)
      (Layer.loop.write ⟨settings, others⟩ head plains plainInner) := by
  intro loops known
  unfold Layer.write
  cases head.loop with
  | none => exact same loops known
  | some header =>
    refine (Hoists.report _).bind fun bodies _ _ _ _ => ?_
    refine (same (head.key :: loops) bodies).bind fun wider body plainBody _ inlines => ?_
    exact .pure fun widest beyond => .source _ ((inlines.widen beyond).append (.single _))

theorem choose_hoists (settings : Settings) (annotations others : Annotations) (head : Head)
    {branches plains : List (Option String × Writer)}
    (blocks : List.Forall₂ (fun branch plain => branch.1 = plain.1 ∧ WritersHoist branch.2 plain.2)
      branches plains) {inner plainInner : Writer} (same : WritersHoist inner plainInner) :
    WritersHoist (Layer.choose.write ⟨settings, annotations⟩ head branches inner)
      (Layer.choose.write ⟨settings, others⟩ head plains plainInner) := by
  intro loops known
  refine (same loops known).bind fun bodies block plainBlock _ here => ?_
  refine (branches_hoist blocks loops bodies).bind fun wider rest plainRest further there => ?_
  refine .pure fun widest beyond => .source _ ?_
  exact (here.widen (further.trans beyond)).append (.source ":" (there.widen beyond))

theorem Inlines.calls_eq_nil {code plain : Code} (inlines : Inlines [] code plain) :
    code.calls = [] := by
  induction inlines with
  | nil => rfl
  | source text _ ih => exact ih
  | fragment inLoop found _ _ => cases found

/-- What is written without hoisting calls nothing, so it can be a fragment. -/
theorem hoist_hoists {settings : Settings} {annotations : Annotations} (head : Head)
    {branches : List (Option String × Writer)} {inner : Writer} (same : WritersHoist inner inner) :
    WritersHoist (Layer.hoist.write ⟨settings, annotations⟩ head branches inner) inner := by
  intro loops known
  obtain ⟨result, diagnostics, settles, hoists⟩ := same loops []
  have plain : result.calls = [] := by
    obtain ⟨written, further, -, inlines, ran⟩ := hoists .empty [] (List.prefix_refl []) rfl
    rw [settles] at ran
    have none : further = [] := by
      have kept := congrArg (fun pair => pair.2.fragments) ran
      simpa [Draft.empty] using kept.symm
    have wrote : result = written := congrArg Prod.fst ran
    rw [none] at inlines
    rw [wrote]
    exact inlines.calls_eq_nil
  refine ⟨result, diagnostics, settles, fun draft bodies _ kept => ?_⟩
  refine ⟨[.fragment bodies.length (annotations.get head.id).isInLoop], [result], by simpa using plain,
    ?_, ?_⟩
  · have called : Inlines (bodies ++ [result])
        [.fragment bodies.length (annotations.get head.id).isInLoop] (result ++ []) :=
      .fragment _ (by simp) .nil
    rwa [List.append_nil] at called
  · have run : (Layer.hoist.write ⟨settings, annotations⟩ head branches inner loops).run draft =
        ([.fragment ((inner loops).run draft).2.fragments.length (annotations.get head.id).isInLoop],
          { ((inner loops).run draft).2 with
            fragments := ((inner loops).run draft).2.fragments ++
              [((inner loops).run draft).1.wrapped] }) := rfl
    rw [run, settles]
    simp [kept]

/-! ## Trees -/

theorem layers_plain {flags : Flags} {head : Head} (unhoisted : flags.isRoot = false)
    (repeatable : head.isOnce = false) : layers flags head = layers .none head := by
  simp [layers, unhoisted, repeatable, Flags.none]

/-- A static root is a fragment, and what is inside is written as it is without
hoisting. -/
theorem layers_hoisted {flags : Flags} {head : Head} (hoisted : flags.isRoot = true)
    (repeatable : head.isOnce = false) : layers flags head = .hoist :: layers .none head := by
  simp [layers, hoisted, repeatable, Flags.none]

theorem layers_cases {head : Head} (repeatable : head.isOnce = false) {layer : Layer}
    (held : layer ∈ layers .none head) : layer = .loop ∨ layer = .choose := by
  simp only [layers, Flags.none, repeatable, Bool.false_eq_true, if_false, List.nil_append,
    List.mem_append] at held
  rcases held with held | held <;> split at held <;> simp_all

theorem layers_hoist (settings : Settings) (annotations others : Annotations) (head : Head)
    {branches plains : List (Option String × Writer)}
    (blocks : List.Forall₂ (fun branch plain => branch.1 = plain.1 ∧ WritersHoist branch.2 plain.2)
      branches plains) {core plainCore : Writer} (same : WritersHoist core plainCore)
    {around : List Layer} (known : ∀ layer ∈ around, layer = .loop ∨ layer = .choose) :
    WritersHoist
      (around.foldr (fun layer inner => layer.write ⟨settings, annotations⟩ head branches inner) core)
      (around.foldr (fun layer inner => layer.write ⟨settings, others⟩ head plains inner)
        plainCore) := by
  induction around with
  | nil => exact same
  | cons layer inside ih =>
    have inner := ih fun other held => known other (List.mem_cons_of_mem layer held)
    rcases known layer List.mem_cons_self with rfl | rfl
    · exact loop_hoists settings annotations others head branches plains inner
    · exact choose_hoists settings annotations others head blocks inner

theorem layers_unrooted (settings : Settings) (annotations others : Annotations) (head : Head)
    (branches : List (Option String × Writer)) (core : Writer) {around : List Layer}
    (known : ∀ layer ∈ around, layer = .loop ∨ layer = .choose) :
    around.foldr (fun layer inner => layer.write ⟨settings, annotations⟩ head branches inner) core =
      around.foldr (fun layer inner => layer.write ⟨settings, others⟩ head branches inner) core := by
  induction around with
  | nil => rfl
  | cons layer inside ih =>
    rw [List.foldr_cons, List.foldr_cons, ih fun other held => known other (List.mem_cons_of_mem layer held)]
    rcases known layer List.mem_cons_self with rfl | rfl <;> rfl

section Trees

variable {settings : Settings} {annotations : Annotations}

def Unrooted (annotations : Annotations) (numbers : List Nat) : Prop :=
  ∀ number ∈ numbers, (annotations.get number).isRoot = false

theorem Unrooted.left {first second : List Nat} (unrooted : Unrooted annotations (first ++ second)) :
    Unrooted annotations first := fun number held => unrooted number (List.mem_append_left second held)

theorem Unrooted.right {first second : List Nat} (unrooted : Unrooted annotations (first ++ second)) :
    Unrooted annotations second := fun number held => unrooted number (List.mem_append_right first held)

mutual

theorem writeElement_unrooted (element : Element) (unrooted : Unrooted annotations element.numbers)
    (repeatable : ∀ head ∈ element.heads, head.isOnce = false) :
    writeElement ⟨settings, annotations⟩ element = writeElement ⟨settings, .empty⟩ element := by
  match element with
  | ⟨head, children, branches⟩ =>
    rw [Element.numbers] at unrooted
    rw [Element.heads] at repeatable
    have once : head.isOnce = false :=
      repeatable head (List.mem_append_left _ List.mem_cons_self)
    have here : (annotations.get head.id).isRoot = false :=
      unrooted.left head.id List.mem_cons_self
    have below := nodeWriters_unrooted children
      (fun number held => unrooted.left number (List.mem_cons_of_mem _ held))
      fun other held => repeatable other (List.mem_append_left _ (List.mem_cons_of_mem _ held))
    have beside := branchWriters_unrooted branches unrooted.right
      fun other held => repeatable other (List.mem_append_right _ held)
    rw [writeElement, writeElement, layers_plain here once, @layers_plain (Annotations.empty.get head.id) head rfl once,
      below, beside, layers_unrooted settings annotations .empty head _ _ fun layer held => layers_cases once held]
    rfl

theorem nodeWriters_unrooted (nodes : List Node) (unrooted : Unrooted annotations (numbersOfNodes nodes))
    (repeatable : ∀ head ∈ headsOfNodes nodes, head.isOnce = false) :
    nodeWriters ⟨settings, annotations⟩ nodes = nodeWriters ⟨settings, .empty⟩ nodes := by
  match nodes with
  | [] => rfl
  | .element element :: rest =>
    rw [numbersOfNodes] at unrooted
    rw [headsOfNodes, Node.heads] at repeatable
    rw [nodeWriters, nodeWriters, writeNode, writeNode,
      writeElement_unrooted element unrooted.left fun head held =>
        repeatable head (List.mem_append_left _ held),
      nodeWriters_unrooted rest unrooted.right fun head held =>
        repeatable head (List.mem_append_right _ held)]
  | .text run :: rest =>
    rw [numbersOfNodes] at unrooted
    rw [nodeWriters, nodeWriters, nodeWriters_unrooted rest unrooted.right repeatable]
    rfl
  | .comment comment :: rest =>
    rw [numbersOfNodes] at unrooted
    rw [nodeWriters, nodeWriters, nodeWriters_unrooted rest unrooted.right repeatable]
    rfl

theorem branchWriters_unrooted (branches : List Branch)
    (unrooted : Unrooted annotations (numbersOfBranches branches))
    (repeatable : ∀ head ∈ headsOfBranches branches, head.isOnce = false) :
    branchWriters ⟨settings, annotations⟩ branches = branchWriters ⟨settings, .empty⟩ branches := by
  match branches with
  | [] => rfl
  | ⟨condition, block⟩ :: rest =>
    rw [numbersOfBranches] at unrooted
    rw [headsOfBranches] at repeatable
    rw [branchWriters, branchWriters,
      writeElement_unrooted block unrooted.left fun head held =>
        repeatable head (List.mem_append_left _ held),
      branchWriters_unrooted rest unrooted.right fun head held =>
        repeatable head (List.mem_append_right _ held)]

end

theorem unrooted_of_holds {entries : List (Nat × Flags)} (holds : annotations.Holds entries)
    (none : ∀ entry ∈ entries, entry.2.isRoot = false) :
    Unrooted annotations (entries.map Prod.fst) := by
  intro number held
  obtain ⟨entry, inside, rfl⟩ := List.mem_map.mp held
  rw [holds entry inside]
  exact none entry inside

mutual

/-- The induction is on the tree and carries what is around it, since that says
where the static roots are. -/
theorem element_hoists (element : Element) (around : Surroundings)
    (holds : annotations.Holds (element.annotate settings around))
    (repeatable : ∀ head ∈ element.heads, head.isOnce = false) :
    WritersHoist (writeElement ⟨settings, annotations⟩ element)
      (writeElement ⟨settings, .empty⟩ element) := by
  match element with
  | ⟨head, children, branches⟩ =>
    rw [Element.annotate] at holds
    rw [Element.heads] at repeatable
    have once : head.isOnce = false :=
      repeatable head (List.mem_append_left _ List.mem_cons_self)
    have repeatableBelow : ∀ other ∈ headsOfNodes children, other.isOnce = false := fun other held =>
      repeatable other (List.mem_append_left _ (List.mem_cons_of_mem _ held))
    have repeatableBeside : ∀ other ∈ headsOfBranches branches, other.isOnce = false :=
      fun other held => repeatable other (List.mem_append_right _ held)
    have flags := holds _ (List.mem_append_left _ List.mem_cons_self)
    have holdsBelow := fun entry held =>
      holds entry (List.mem_append_left _ (List.mem_cons_of_mem _ held))
    have holdsBeside := fun entry held => holds entry (List.mem_append_right _ held)
    have inner := layers_hoist settings annotations .empty head
      (branches_hoist_of_holds branches _ holdsBeside repeatableBeside)
      (core_hoists settings annotations .empty head children
        (nodes_hoist children _ holdsBelow repeatableBelow))
      fun layer held => layers_cases once held
    rw [writeElement, writeElement, @layers_plain (Annotations.empty.get head.id) head rfl once]
    cases hoisted : (annotations.get head.id).isRoot with
    | false =>
      rw [layers_plain hoisted once]
      exact inner
    | true =>
      -- below a static root nothing is hoisted, so all inside is written in place
      have under : (around.underRoot || (head.flags around
          (Element.isStatic settings around.inTemplateLoop ⟨head, children, branches⟩)
          (!children.isEmpty)).isRoot) = true := by
        rw [flags] at hoisted
        rw [hoisted, Bool.or_true]
      have below := unrooted_of_holds holdsBelow (annotateNodes_underRoot settings _ under children)
      have beside := unrooted_of_holds holdsBeside
        (annotateBranches_underRoot settings _ under branches)
      rw [annotateNodes_numbers] at below
      rw [annotateBranches_numbers] at beside
      rw [nodeWriters_unrooted children below repeatableBelow,
        branchWriters_unrooted branches beside repeatableBeside] at inner ⊢
      rw [layers_unrooted settings annotations .empty head _ _ fun layer held =>
        layers_cases once held] at inner
      rw [layers_hoisted hoisted once, List.foldr_cons,
        layers_unrooted settings annotations .empty head _ _ fun layer held =>
          layers_cases once held]
      exact hoist_hoists head inner

theorem nodes_hoist (nodes : List Node) (around : Surroundings)
    (holds : annotations.Holds (annotateNodes settings around nodes))
    (repeatable : ∀ head ∈ headsOfNodes nodes, head.isOnce = false) :
    List.Forall₂ WritersHoist (nodeWriters ⟨settings, annotations⟩ nodes)
      (nodeWriters ⟨settings, .empty⟩ nodes) := by
  match nodes with
  | [] => exact .nil
  | .element element :: rest =>
    rw [annotateNodes] at holds
    rw [headsOfNodes] at repeatable
    refine .cons ?_ ?_
    · exact element_hoists element around
        (fun entry held => holds entry (List.mem_append_left _ held))
        fun head held => repeatable head (List.mem_append_left _ held)
    · exact nodes_hoist rest around (fun entry held => holds entry (List.mem_append_right _ held))
        fun head held => repeatable head (List.mem_append_right _ held)
  | .text run :: rest =>
    rw [annotateNodes] at holds
    refine .cons (fun _ _ => .pure fun _ _ => .single _) ?_
    exact nodes_hoist rest around (fun entry held => holds entry (List.mem_append_right _ held))
      repeatable
  | .comment comment :: rest =>
    rw [annotateNodes] at holds
    refine .cons (fun _ _ => .pure fun _ _ => .single _) ?_
    exact nodes_hoist rest around (fun entry held => holds entry (List.mem_append_right _ held))
      repeatable

theorem branches_hoist_of_holds (branches : List Branch) (around : Surroundings)
    (holds : annotations.Holds (annotateBranches settings around branches))
    (repeatable : ∀ head ∈ headsOfBranches branches, head.isOnce = false) :
    List.Forall₂ (fun branch plain => branch.1 = plain.1 ∧ WritersHoist branch.2 plain.2)
      (branchWriters ⟨settings, annotations⟩ branches)
      (branchWriters ⟨settings, .empty⟩ branches) := by
  match branches with
  | [] => exact .nil
  | ⟨condition, block⟩ :: rest =>
    rw [annotateBranches] at holds
    rw [headsOfBranches] at repeatable
    refine .cons ⟨rfl, ?_⟩ ?_
    · exact element_hoists block around
        (fun entry held => holds entry (List.mem_append_left _ held))
        fun head held => repeatable head (List.mem_append_left _ held)
    · exact branches_hoist_of_holds rest around
        (fun entry held => holds entry (List.mem_append_right _ held))
        fun head held => repeatable head (List.mem_append_right _ held)

end

end Trees

/-! ## Documents -/

/-- The two programs, with what is reported about them, differ in hoisting only:
no fragment calls another, and the first render function is the second where
each call stands for what the fragment returns. -/
structure DiffersInHoisting (hoisted plain : Program × List Diagnostic) : Prop where
  diagnostics : hoisted.2 = plain.2
  fragments : ∀ code ∈ hoisted.1.fragments, code.calls = []
  render : hoisted.1.inlinedText? = some plain.1.render.text
  unhoisted : plain.1.fragments = []

/-- An extension may change what it likes about an element but its number, by
which the flags are looked up. -/
theorem generate_differsInHoisting {settings : Settings}
    (keeps : ∀ extension ∈ settings.extensions, extension.KeepsNumber) (source : String)
    (repeatable : ∀ head ∈ (Document.parse settings source).1.heads, head.isOnce = false) :
    DiffersInHoisting
      (generate settings ((Document.parse settings source).1.analyze settings)
        (Document.parse settings source).1)
      (generate settings .empty (Document.parse settings source).1) := by
  have holds := analyze_holds keeps source
  generalize (Document.parse settings source).1 = document at holds repeatable ⊢
  have writes : Hoists [] Inlines
      (writeDocument ⟨settings, document.analyze settings⟩ document)
      (writeDocument ⟨settings, .empty⟩ document) := by
    unfold writeDocument
    cases given : document.root with
    | none => exact .pure fun _ _ => .single _
    | some root =>
      simp only
      split
      · exact .pure fun _ _ => .single _
      · have heads : ∀ head ∈ root.heads, head.isOnce = false := by
          rw [Document.heads, given] at repeatable
          exact repeatable
        exact element_hoists root _ (holds root given) heads [] []
  obtain ⟨code, diagnostics, settles, hoists⟩ := writes
  obtain ⟨written, further, calls, inlines, ran⟩ := hoists .empty [] (List.prefix_refl []) rfl
  have plainRan := settles .empty
  have plainIs : generate settings .empty document = (⟨code.wrapped, []⟩, diagnostics) := by
    simp only [generate, plainRan]
    rfl
  have hoistedIs : generate settings (document.analyze settings) document =
      (⟨written.wrapped, further.map Code.wrapped⟩, diagnostics) := by
    simp only [generate, ran]
    rfl
  rw [plainIs, hoistedIs]
  refine ⟨rfl, ?_, ?_, rfl⟩
  · intro fragment held
    obtain ⟨body, inside, rfl⟩ := List.mem_map.mp held
    simp [Code.wrapped, calls body inside]
  · have wrapped : Inlines further written.wrapped code.wrapped :=
      .source _ (inlines.append (.single _))
    exact wrapped.text

/-- Takes the attribute `mark`. -/
def markExtension : Extension :=
  { name := "mark", staticKeys := ["mark"], fields := Web.fieldCode "mark"
    transform := fun _ head =>
      match head.take? "mark" with
      | some (_, rest) => ({ rest with extensions := Data.Dictionary.insert "mark" "true" rest.extensions }, [])
      | none => (head, []) }

def markedSettings : Settings :=
  Web.settings.overlaid
    { Overlay.empty with
      extensions := [markExtension]
      directives := [("focus", fun directive => ⟨false, [("focus", directive.value)], []⟩)] }

/-- A list with fragments in a loop and in a branch. -/
def markedList : String :=
  "<ul><li v-for='x in xs'><b mark><i>a</i></b><p v-if='x' v-focus='x'></p><p v-else>b</p></li></ul>"

theorem markedList_differsInHoisting :
    (∀ extension ∈ markedSettings.extensions, extension.KeepsNumber) ∧
      (∀ head ∈ (Document.parse markedSettings markedList).1.heads, head.isOnce = false) ∧
      DiffersInHoisting
        (generate markedSettings ((Document.parse markedSettings markedList).1.analyze markedSettings)
          (Document.parse markedSettings markedList).1)
        (generate markedSettings .empty (Document.parse markedSettings markedList).1) ∧
      (generate markedSettings ((Document.parse markedSettings markedList).1.analyze markedSettings)
        (Document.parse markedSettings markedList).1).1.fragments.length = 2 := by
  have keeps : ∀ extension ∈ markedSettings.extensions, extension.KeepsNumber := by
    have listed : markedSettings.extensions =
        [Web.classExtension, Web.styleExtension, markExtension] := rfl
    rw [listed]
    intro extension held
    rcases List.mem_cons.mp held with rfl | held
    · exact takeBoth_id _ _ _ _
    · rcases List.mem_cons.mp held with rfl | held
      · exact takeBoth_id _ _ _ _
      · rw [List.mem_singleton.mp held]
        intro delimiters head
        simp only [markExtension]
        split
        · next taken => exact ((Head.takeFirst_leaves taken).id :)
        · rfl
  have repeatable : ∀ head ∈ (Document.parse markedSettings markedList).1.heads,
      head.isOnce = false := by decide +kernel
  exact ⟨keeps, repeatable, generate_differsInHoisting keeps markedList repeatable,
    by decide +kernel⟩

end Templating.Rendering
