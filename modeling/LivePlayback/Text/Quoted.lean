import LivePlayback.Text.Unseen

/-!
# Quoted text

Text between quotes, as diagnostics show it: quotes and backslashes are escaped, and so is every
character that would not show by itself.
-/

namespace LivePlayback.Text
set_option autoImplicit false

def escape (c : Char) : List Char :=
  if c = '"' then ['\\', '"']
  else if c = '\\' then ['\\', '\\']
  else if c = '\x00' then ['\\', '0']
  else if c = '\t' then ['\\', 't']
  else if c = '\n' then ['\\', 'n']
  else if c = '\r' then ['\\', 'r']
  else if isUnseen c then ['\\', 'u', '{'] ++ Nat.toDigits 16 c.toNat ++ ['}']
  else [c]

def quote (s : String) : String := String.ofList ('"' :: (s.toList.flatMap escape ++ ['"']))

end LivePlayback.Text
