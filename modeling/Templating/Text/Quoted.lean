import Templating.Text.Casing
import Templating.Text.ShapelessTable
/-!
# Quoted text

A text in double quotes as a report shows it: on one line, with every
character that has no shape of its own written as its code point.
-/
set_option autoImplicit false

namespace Templating.Text.Quoted

def encodeChar (c : Char) : List Char :=
  if c = '\x00' then ['\\', '0']
  else if c = '\t' then ['\\', 't']
  else if c = '\r' then ['\\', 'r']
  else if c = '\n' then ['\\', 'n']
  else if c = '\x22' then ['\\', '\x22']
  else if c = '\\' then ['\\', '\\']
  else if inRanges shapelessRanges c.toNat then
    ['\\', 'u', '\x7b'] ++ Nat.toDigits 16 c.toNat ++ ['\x7d']
  else [c]

def encode (s : String) : String :=
  String.ofList ('\x22' :: s.toList.flatMap encodeChar ++ ['\x22'])

end Templating.Text.Quoted
