import Templating.Text.CaseTable
/-!
# Upper and lower case

Full case mapping: a character may map to several, and a capital sigma at the
end of a word has the final form of the small letter.
-/
set_option autoImplicit false

namespace Templating.Text

def inRanges (ranges : List (Nat × Nat)) (code : Nat) : Bool :=
  ranges.any fun range => range.1 ≤ code && code ≤ range.2

def CaseRun.apply? (run : CaseRun) (code : Nat) : Option Nat :=
  if run.first ≤ code ∧ code ≤ run.last ∧ (code - run.first) % run.step = 0 then
    some (run.target + (code - run.first))
  else none

/-- The image of one character under a case mapping; a character that the
mapping does not mention is its own image. -/
def mapCase (sequences : List (Nat × List Nat)) (runs : List CaseRun) (c : Char) : List Char :=
  match sequences.lookup c.toNat with
  | some codes => codes.map Char.ofNat
  | none =>
    match runs.findSome? fun run => run.apply? c.toNat with
    | some code => [Char.ofNat code]
    | none => [c]

def upperChar (c : Char) : List Char := mapCase upperSequences upperRuns c

def lowerChar (c : Char) : List Char := mapCase lowerSequences lowerRuns c

/-- The first character that does not merely accompany a letter is a letter
with case. -/
def meetsCased (source : List Char) : Bool :=
  match source.dropWhile fun c => inRanges caseIgnorableRanges c.toNat with
  | [] => false
  | c :: _ => inRanges casedRanges c.toNat

def upper (source : List Char) : List Char := source.flatMap upperChar

def lower (source : List Char) : List Char := walk [] source
where
  /-- `before` holds the characters already passed, last first. -/
  walk (before : List Char) : List Char → List Char
    | [] => []
    | c :: rest =>
      let image :=
        if c.toNat = 0x3A3 then
          if meetsCased before && !meetsCased rest then [Char.ofNat 0x3C2] else [Char.ofNat 0x3C3]
        else lowerChar c
      image ++ walk (c :: before) rest

end Templating.Text
