/-!
# Blank characters

Three classes of blank are in use.  Text is trimmed by the Unicode property
`White_Space`; inside a tag only the blanks of the first 128 code points
separate; an attribute without quotes ends at one of five characters.
-/
set_option autoImplicit false

namespace Templating.Text

/-- The characters of the Unicode property `White_Space`. -/
def isBlank (c : Char) : Bool :=
  (9 ≤ c.toNat && c.toNat ≤ 13) || c.toNat == 0x20 || c.toNat == 0x85 || c.toNat == 0xA0 ||
    c.toNat == 0x1680 || (0x2000 ≤ c.toNat && c.toNat ≤ 0x200A) || c.toNat == 0x2028 ||
    c.toNat == 0x2029 || c.toNat == 0x202F || c.toNat == 0x205F || c.toNat == 0x3000

/-- Space, tab, line feed, form feed and carriage return. -/
def isAsciiBlank (c : Char) : Bool :=
  c == ' ' || c == '\t' || c == '\n' || c == '\x0c' || c == '\r'

/-- Space and the control characters from tab to carriage return. -/
def isTagBlank (c : Char) : Bool :=
  c == ' ' || (9 ≤ c.toNat && c.toNat ≤ 13)

def trimStart (source : List Char) : List Char := source.dropWhile isBlank

def trimEnd (source : List Char) : List Char := (source.reverse.dropWhile isBlank).reverse

def trim (source : List Char) : List Char := trimEnd (trimStart source)

def trimmed (s : String) : String := String.ofList (trim s.toList)

def allBlank (s : String) : Bool := s.toList.all isBlank

def words (source : List Char) : List (List Char) :=
  collect [] source
where
  /-- `current` holds the characters of the word that is being read, last first. -/
  collect (current : List Char) : List Char → List (List Char)
    | [] => if current.isEmpty then [] else [current.reverse]
    | c :: rest =>
      if isBlank c then
        if current.isEmpty then collect [] rest else current.reverse :: collect [] rest
      else collect (c :: current) rest

end Templating.Text
