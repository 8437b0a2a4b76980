import Templating.Text.Numeral
/-!
# Text literals

`encode` writes a text as a literal in double quotes; `decodeEscapes` reads
what stands between the quotes of a literal back.
-/
set_option autoImplicit false

namespace Templating.Text.Literal

/-- One character inside a literal.  Control characters and the two line
separators are written as escapes. -/
def encodeChar (c : Char) : List Char :=
  if c = '\\' then ['\\', '\\']
  else if c = '\x22' then ['\\', '\x22']
  else if c = '\n' then ['\\', 'n']
  else if c = '\r' then ['\\', 'r']
  else if c = '\t' then ['\\', 't']
  else if c = '\x08' then ['\\', 'b']
  else if c = '\x0c' then ['\\', 'f']
  else if c.toNat = 0x2028 ∨ c.toNat = 0x2029 ∨ c.toNat < 0x20 then
    '\\' :: 'u' :: hexDigits 4 c.toNat
  else [c]

def encodeChars (source : List Char) : List Char :=
  '\x22' :: source.flatMap encodeChar ++ ['\x22']

def encode (s : String) : String := String.ofList (encodeChars s.toList)

/-- A `\u` escape with the given digits; digits that name no character leave
the escape as it is written. -/
def decodeUnicode (digits : List Char) : List Char :=
  match (readNatural? 16 wordBound digits).bind character? with
  | some c => [c]
  | none => '\\' :: 'u' :: digits

def decodeEscape (c : Char) : Char :=
  if c = 'n' then '\n'
  else if c = 'r' then '\r'
  else if c = 't' then '\t'
  else if c = 'b' then '\x08'
  else if c = 'f' then '\x0c'
  else if c = '0' then '\x00'
  else c

def decodeEscapes : List Char → List Char
  | [] => []
  | '\\' :: 'u' :: a :: b :: c :: d :: rest => decodeUnicode [a, b, c, d] ++ decodeEscapes rest
  | '\\' :: 'u' :: digits => decodeUnicode digits
  | '\\' :: c :: rest => decodeEscape c :: decodeEscapes rest
  | c :: rest => c :: decodeEscapes rest

def decode (source : List Char) : String := String.ofList (decodeEscapes source)

end Templating.Text.Literal
