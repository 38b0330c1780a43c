import FlowGraph.Text.Printable

/-!
Text between double quotes, as it is shown in messages: quotes, backslashes and
characters that would not be visible are escaped.
-/

namespace FlowGraph.Text

def hexDigits (number : Nat) : List Char := Nat.toDigits 16 number

def codePointEscape (char : Char) : List Char :=
  ['\\', 'u', '\x7b'] ++ hexDigits char.toNat ++ ['\x7d']

/-- A character between quotes. Which quotes are escaped is left to the caller. -/
def escape (quotes : List Char) (char : Char) : List Char :=
  if char = '\x00' then ['\\', '0']
  else if char = '\t' then ['\\', 't']
  else if char = '\n' then ['\\', 'n']
  else if char = '\r' then ['\\', 'r']
  else if char = '\\' then ['\\', '\\']
  else if quotes.contains char then ['\\', char]
  else if isPrintable char then [char]
  else codePointEscape char

def quotedWith (quotes : List Char) (text : String) : String :=
  String.ofList ('"' :: text.toList.flatMap (escape quotes) ++ ['"'])

def quoted (text : String) : String := quotedWith ['"'] text

/-- The path of a file between double quotes, in which single quotes are escaped
as well. -/
def quotedPath (path : String) : String := quotedWith ['"', '\''] path

end FlowGraph.Text
