import NonceSearch.Bytes
import NonceSearch.Text.Unprintable

/-!
# Quoted text

A text that is shown to a person as a value stands between double quotes. The quote and the
backslash, the three usual controls and the null character have short escapes; every other character
without a form of its own is written by its code point. Single quotes are left alone.
-/

namespace NonceSearch.Text

/-- A character by its code point in hexadecimal, between braces. -/
def codePointEscape (c : Char) : List Char :=
  '\\' :: 'u' :: '\x7b' :: hexDigits c.toNat ++ ['\x7d']

/-- How a character is written inside double quotes. -/
def quoteChar (c : Char) : List Char :=
  if c = '\x00' then ['\\', '0']
  else if c = '\t' then ['\\', 't']
  else if c = '\r' then ['\\', 'r']
  else if c = '\n' then ['\\', 'n']
  else if c = '"' then ['\\', '"']
  else if c = '\\' then ['\\', '\\']
  else if isUnprintable c then codePointEscape c
  else [c]

def quoted (text : String) : String :=
  String.ofList ('"' :: text.toList.flatMap quoteChar ++ ['"'])

end NonceSearch.Text
