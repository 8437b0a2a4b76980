import Templating.Proofs.Evaluation.Frozen
import Templating.Proofs.Evaluation.Keys
/-!
# Keys of what a fragment answers

Whatever has been rendered before, and however a render has ended, all that is kept was marked when
it was built.  So each element in the list that a fragment answers has a key of its own, and none
that an element of another fragment has.
-/
set_option autoImplicit false

namespace Templating.Evaluation

open Templating.Data Templating.Expression Templating.Rendering Templating.Tree Templating.Tree.Node

/-! ## Marked lists -/

def IsMarked : Node → Prop
  | .element _ props _ => props.isStatic = true
  | .text _ => True
  | .comment _ => True

mutual

theorem markStatic_isMarked (key : String) (datum : Datum) :
    ∀ node ∈ nodesOf (markStatic key datum), IsMarked node := by
  match datum with
  | .node (.element _ _ _) | .node (.text _) | .node (.comment _) =>
    intro node held
    obtain rfl := List.mem_singleton.mp held
    trivial
  | .list items => exact markAllStatic_isMarked key 0 items
  | .plain value =>
    intro node held
    obtain ⟨content, rfl⟩ := nodesOfValue_text value node held
    trivial
  | .record _ | .listeners _ | .closure _ _ _ => exact fun _ held => by cases held

theorem markAllStatic_isMarked (key : String) (position : Nat) (items : List Datum) :
    ∀ node ∈ nodesOfAll (markAllStatic key position items), IsMarked node := by
  match items with
  | [] => exact fun _ held => by cases held
  | item :: rest =>
    exact List.forall_mem_append.mpr
      ⟨markStatic_isMarked _ item, markAllStatic_isMarked key (position + 1) rest⟩

end

theorem ofDatum_list {index : Nat} {datum : Datum} {nodes : List Node}
    (made : Fragment.ofDatum index datum = .ok (.nodes nodes)) :
    ∃ items, nodes = nodesOfAll (markAllStatic (fragmentKey [index]) 0 items) := by
  rw [Fragment.ofDatum, ← fragmentKey_single] at made
  cases datum with
  | list items =>
    cases made
    exact ⟨items, rfl⟩
  | node root => cases root <;> cases made
  | plain _ | record _ | listeners _ | closure _ _ _ =>
    simp only [markStatic] at made
    split at made <;> cases made

theorem fragmentKey_within (index position : Nat) (way : List Nat) :
    ∃ rest, fragmentKey (index :: position :: way) = "__static__" ++ toString index ++ "_" ++ rest := by
  refine ⟨String.ofList (Nat.toDigits 10 position ++ wayDigits way), String.toList_inj.mp ?_⟩
  rw [← fragmentKey_single]
  simp [fragmentKey_toList, wayDigits]

/-! ## What is kept was marked -/

/-- All that is kept was marked with the number under which it is kept. -/
def AllMade (cache : FragmentCache) : Prop :=
  ∀ entry ∈ cache, ∃ datum, Fragment.ofDatum entry.1 datum = .ok entry.2

theorem AllMade.nil : AllMade [] := fun _ held => by cases held

theorem AllMade.cons {cache : FragmentCache} (made : AllMade cache) {index : Nat} {datum : Datum}
    {kept : Fragment} (marked : Fragment.ofDatum index datum = .ok kept) :
    AllMade ((index, kept) :: cache) :=
  List.forall_mem_cons.mpr ⟨⟨datum, marked⟩, made⟩

theorem AllMade.lookup {cache : FragmentCache} (made : AllMade cache) {index : Nat} {kept : Fragment}
    (found : cache.lookup index = some kept) : ∃ datum, Fragment.ofDatum index datum = .ok kept := by
  obtain ⟨front, back, rfl, -⟩ := List.lookup_eq_some_iff.mp found
  exact made (index, kept) (by simp)

section Steps

variable {α : Type}

def KeepsMade (step : Eval α) : Prop := ∀ cache, AllMade cache → AllMade (step cache).2

theorem buildFragment_made {environment : Environment} {enter : Entrance} {index : Nat}
    {cache after : FragmentCache} {kept : Fragment}
    (builds : buildFragment environment enter index cache = (.ok kept, after)) :
    ∃ datum, Fragment.ofDatum index datum = .ok kept := by
  rw [buildFragment] at builds
  cases there : environment.fragments[index]? with
  | none =>
    rw [there] at builds
    cases builds
  | some source =>
    simp only [there, run_bind] at builds
    cases ended : enter.fragment source cache with
    | mk result inner =>
      rw [ended] at builds
      cases result with
      | error halt => cases builds
      | ok datum =>
        dsimp only at builds
        cases made : Fragment.ofDatum index datum with
        | ok fragment =>
          rw [made] at builds
          cases builds
          exact ⟨datum, made⟩
        | error fault =>
          rw [made] at builds
          cases builds

variable {build : Nat → Eval Fragment}
  (makes : ∀ {index cache kept after}, build index cache = (.ok kept, after) →
    ∃ datum, Fragment.ofDatum index datum = .ok kept)
  (keeps : ∀ index, KeepsMade (build index))

include makes keeps

theorem answer_keepsMade (index : Nat) (isKept : Bool) : KeepsMade (answer build index isKept) := by
  intro cache made
  have inside := keeps index cache made
  cases ended : answer build index isKept cache with
  | mk result after =>
    cases answered_iff.mp ended with
    | found => exact made
    | added missing builds =>
      rw [builds] at inside
      obtain ⟨datum, marked⟩ := makes builds
      exact inside.cons marked
    | failed missing builds | anew builds => rwa [builds] at inside

theorem run_keepsMade (source : Script α) : KeepsMade (source.run build) :=
  run_relates (fun before after => AllMade before → AllMade after) (fun _ made => made)
    (fun first second made => second (first made)) (answer_keepsMade makes keeps) source

end Steps

section Renders

variable (environment : Environment) (depth : Nat)

theorem builtOn_keepsMade (level index : Nat) : KeepsMade (builtOn environment depth level index) := by
  have levels := builtOn_levels environment depth
  induction level generalizing index with
  | zero =>
    intro cache made
    obtain ⟨halt, ends⟩ := levels.lowest index cache
    rwa [ends]
  | succ level ih =>
    rw [levels.above]
    exact run_keepsMade buildFragment_made ih (fragmentScript environment depth index)

theorem evaluateCalls_keepsMade (level within : Nat) (scope : Scope) (source : Expr) :
    KeepsMade
      (evaluateCalls environment (fragmentEntrance environment depth level).fragment within scope source) := by
  rw [← run_scriptCalls environment _ within (fragmentEntrance environment depth level).body]
  exact run_keepsMade buildFragment_made (builtOn_keepsMade environment depth level) _

end Renders

/-! ## Answers of fragments -/

/-- What may be kept of these fragments: nothing at first, and then what evaluating some source with
some data leaves, in a render or anywhere inside one, and also where it fails. -/
inductive Reached (fragments : List Expr) : FragmentCache → Prop where
  | nothing : Reached fragments []
  | further {cache : FragmentCache} (before : Reached fragments cache) (data : Value)
      (slots : Dictionary (List Node)) (depth level within : Nat) (scope : Scope) (source : Expr) :
    Reached fragments (evaluateCalls ⟨data, fragments, slots⟩
      (fragmentEntrance ⟨data, fragments, slots⟩ depth level).fragment within scope source cache).2

theorem Reached.allMade {fragments : List Expr} {cache : FragmentCache}
    (reached : Reached fragments cache) : AllMade cache := by
  induction reached with
  | nothing => exact .nil
  | further _ data slots depth level within scope source ih =>
    exact evaluateCalls_keepsMade _ depth level within scope source _ ih

theorem evaluateFragments_eq_entrance (environment : Environment) (depth level : Nat) (source : Expr) :
    evaluateFragments environment depth level source =
      evaluateCalls environment (fragmentEntrance environment depth level).fragment depth [] source := by
  cases level <;> rfl

theorem renderWithin_keeps (environment : Environment) (depth : Nat) (program : Expr)
    (cache : FragmentCache) : (renderWithin environment depth program cache).2 =
      (evaluateFragments environment depth environment.fragments.length program cache).2 := by
  rw [renderWithin, run_bind]
  rcases evaluateFragments environment depth environment.fragments.length program cache with
    ⟨_ | datum, after⟩
  · rfl
  · dsimp only
    cases renderedNode datum <;> rfl

theorem Instance.after_reached (functions : Functions) (slots : Dictionary (List Node)) (data : Value)
    (uses : List Use) : Reached (functions.fragments.map SourceFunction.body)
      ((Instance.fresh functions slots data).after uses).cache := by
  have start : Reached (functions.fragments.map SourceFunction.body)
      (Instance.fresh functions slots data).cache := .nothing
  generalize named : Instance.fresh functions slots data = target at start ⊢
  have bound : target.functions = functions := by rw [← named]; rfl
  clear named
  induction uses generalizing target with
  | nil => exact start
  | cons use rest ih =>
    cases use with
    | setData data => exact ih (target.setData data) start bound
    | render =>
      refine ih target.render.2 ?_ bound
      have kept : target.render.2.cache = (evaluateCalls target.environment
          (fragmentEntrance target.environment standardDepth
            target.environment.fragments.length).fragment standardDepth []
          target.functions.render.body target.cache).2 := by
        rw [← evaluateFragments_eq_entrance, ← renderWithin_keeps]
        rfl
      rw [kept]
      subst bound
      exact start.further target.data target.slots standardDepth _ standardDepth [] _

/-- The call of the fragment `index` gives the datum, with some data and after some evaluations. -/
def Answers (fragments : List Expr) (index : Nat) (datum : Datum) : Prop :=
  ∃ data slots enter arguments cache after, Reached fragments cache ∧
    fragmentIndex? arguments = some index ∧
    renderFragment ⟨data, fragments, slots⟩ enter arguments cache = (.ok datum, after)

theorem Answers.made {fragments : List Expr} {index : Nat} {datum : Datum}
    (answers : Answers fragments index datum) :
    ∃ origin kept, Fragment.ofDatum index origin = .ok kept ∧ datum = kept.toDatum := by
  obtain ⟨data, slots, enter, arguments, cache, after, reached, isIndex, ends⟩ := answers
  have answered : renderFragment ⟨data, fragments, slots⟩ enter arguments =
      answer (buildFragment ⟨data, fragments, slots⟩ enter) index
        (!arguments[1]?.any Datum.isTruthy) >>= fun kept => pure kept.toDatum := by
    rw [renderFragment, isIndex]
    cases arguments[1]?.any Datum.isTruthy <;> rfl
  rw [answered, run_bind] at ends
  generalize (!arguments[1]?.any Datum.isTruthy) = isKept at ends
  cases ended : answer (buildFragment ⟨data, fragments, slots⟩ enter) index isKept cache with
  | mk result left =>
    rw [ended] at ends
    cases result with
    | error halt => cases ends
    | ok kept =>
      cases ends
      suffices made : ∃ origin, Fragment.ofDatum index origin = .ok kept by
        obtain ⟨origin, marked⟩ := made
        exact ⟨origin, kept, marked, rfl⟩
      cases answered_iff.mp ended with
      | found isThere => exact reached.allMade.lookup isThere
      | added missing builds => exact buildFragment_made builds
      | anew builds => exact buildFragment_made builds

/-- The keys of a list of nodes that the fragment `index` answers. -/
structure AreKeyed (fragments : List Expr) (index : Nat) (nodes : List Node) : Prop where
  static : ∀ tag props children, .element tag props children ∈ nodes →
    props.isStatic = true ∧ ∃ rest, props.key = some ("__static__" ++ toString index ++ "_" ++ rest)
  distinct : (staticKeys nodes).Nodup
  apart : ∀ other datum, other ≠ index → Answers fragments other datum →
    ∀ key ∈ staticKeys nodes, key ∉ staticKeys (nodesOf datum)

/-- A fragment that answers a list answers nodes, with keys of their own on all elements. -/
theorem answers_areKeyed {fragments : List Expr} {index : Nat} {items : List Datum}
    (answers : Answers fragments index (.list items)) :
    ∃ nodes : List Node, items = nodes.map .node ∧ AreKeyed fragments index nodes := by
  obtain ⟨origin, kept, marked, same⟩ := answers.made
  cases kept with
  | node node => cases same
  | nodes nodes =>
    obtain ⟨inner, split⟩ := ofDatum_list marked
    have owned := ofDatum_owned marked
    rw [Fragment.toDatum, nodesOf, nodesOfAll_map] at owned
    refine ⟨nodes, Datum.list.inj same, ?_, owned.nodup, ?_⟩
    · intro tag props children held
      have isStatic : props.isStatic = true :=
        markAllStatic_isMarked _ 0 inner (.element tag props children) (split ▸ held)
      have shown : props.key ∈ staticKeys nodes :=
        List.mem_filterMap.mpr ⟨_, held, by rw [staticKey?, if_pos isStatic]⟩
      rw [split, markAllStatic_keys [index] 0 inner] at shown
      obtain ⟨below, way, isKey⟩ := List.mem_map.mp shown
      obtain ⟨position, rest, rfl, -⟩ := le_of_mem_markedWaysFrom way
      obtain ⟨text, written⟩ := fragmentKey_within index position rest
      refine ⟨isStatic, text, ?_⟩
      rw [← isKey, ← written]
      rfl
    · intro other datum differs otherAnswers key held heldToo
      obtain ⟨otherOrigin, otherKept, otherMarked, rfl⟩ := otherAnswers.made
      have otherOwned := ofDatum_owned otherMarked
      rcases Nat.lt_or_gt_of_ne differs with below | above
      · exact (otherOwned.disjoint owned below) heldToo held
      · exact (owned.disjoint otherOwned above) held heldToo

/-- A loop whose turns give lists in lists, and a fragment that calls for it. -/
def listingFragments : List Expr :=
  ["_l((xs),function(x)\x7breturn [_c(x),[_v(x),_c('i')]]\x7d)", "[_m(0),_c('b')]"].map captured

def listing : Environment := ⟨.record [("xs", .list [.string "u", .string "p"])], listingFragments, []⟩

def listingKept : FragmentCache :=
  (evaluateCalls listing (fragmentEntrance listing 2 2).fragment 2 [] (captured "_m(1)") []).2

def listedKeys (answer : Except Halt Datum × FragmentCache) : Option (List (Option String)) :=
  match answer.1 with
  | .ok (.list items) => some (staticKeys (nodesOfAll items))
  | _ => none

/-- The loop was kept while the other fragment was built, and answers without its items, too. -/
theorem listing_areKeyed :
    ∃ nodes : List Node, staticKeys nodes =
        ["0_0_0", "0_0_1_1", "0_1_0", "0_1_1_1"].map (fun way => some ("__static__" ++ way)) ∧
      AreKeyed listingFragments 0 nodes := by
  have reached : Reached listingFragments listingKept :=
    Reached.nothing.further listing.data [] 2 2 2 [] (captured "_m(1)")
  have isIndex : fragmentIndex? [.ofCount 0] = some 0 := by decide +kernel
  have listed : listedKeys (renderFragment ⟨.undefined, listingFragments, []⟩
      (fragmentEntrance listing 0 0) [.ofCount 0] listingKept) =
      some (["0_0_0", "0_0_1_1", "0_1_0", "0_1_1_1"].map fun way => some ("__static__" ++ way)) := by
    decide +kernel
  cases ends : renderFragment ⟨.undefined, listingFragments, []⟩ (fragmentEntrance listing 0 0)
    [.ofCount 0] listingKept with
  | mk result after =>
    rw [ends] at listed
    match result with
    | .ok (.list items) =>
      have answers : Answers listingFragments 0 (.list items) :=
        ⟨.undefined, [], _, [.ofCount 0], listingKept, after, reached, isIndex, ends⟩
      obtain ⟨nodes, rfl, keyed⟩ := answers_areKeyed answers
      have keys := Option.some.inj listed
      rw [nodesOfAll_map] at keys
      exact ⟨nodes, keys, keyed⟩
    | .ok (.node _) | .ok (.plain _) | .ok (.record _) | .ok (.listeners _) | .ok (.closure _ _ _) =>
      cases listed
    | .error _ => cases listed

end Templating.Evaluation
