import LivePlayback.Json.Value

/-!
# Compact JSON text

No blanks; in strings only quotes, backslashes and control characters are escaped.
-/

namespace LivePlayback.Json
set_option autoImplicit false

/-- A lower case hexadecimal digit. -/
def hexDigit (n : Nat) : Char :=
  if n < 10 then Char.ofNat ('0'.toNat + n) else Char.ofNat ('a'.toNat + (n - 10))

def escaped (c : Char) : List Char :=
  if c = '"' then ['\\', '"']
  else if c = '\\' then ['\\', '\\']
  else if c = '\x08' then ['\\', 'b']
  else if c = '\t' then ['\\', 't']
  else if c = '\n' then ['\\', 'n']
  else if c = '\x0c' then ['\\', 'f']
  else if c = '\r' then ['\\', 'r']
  else if c.toNat < 0x20 then
    ['\\', 'u', '0', '0', hexDigit (c.toNat / 16), hexDigit (c.toNat % 16)]
  else [c]

def quoted (s : String) : List Char := '"' :: (s.toList.flatMap escaped ++ ['"'])

mutual

def Value.chars : Value → List Char
  | .null => ['n', 'u', 'l', 'l']
  | .bool true => ['t', 'r', 'u', 'e']
  | .bool false => ['f', 'a', 'l', 's', 'e']
  | .number n => n.chars
  | .string s => quoted s
  | .array items => '[' :: (itemChars items ++ [']'])
  | .object fields => '{' :: (fieldChars fields ++ ['}'])

def itemChars : List Value → List Char
  | [] => []
  | [v] => v.chars
  | v :: rest => v.chars ++ ',' :: itemChars rest

def fieldChars : List (String × Value) → List Char
  | [] => []
  | [(key, v)] => quoted key ++ ':' :: v.chars
  | (key, v) :: rest => quoted key ++ ':' :: (v.chars ++ ',' :: fieldChars rest)

end

def Value.text (v : Value) : String := String.ofList v.chars

end LivePlayback.Json
