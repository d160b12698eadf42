import LivePlayback.Yaml.Plain
import LivePlayback.Yaml.Scalar

/-!
# Quoted scalars

Between single quotes a quote is written twice; between double quotes there are escapes, also of a
break. Blanks around other breaks are lost, and the breaks are folded.
-/

namespace LivePlayback.Yaml
set_option autoImplicit false

/-- What a character behind a backslash stands for, if it stands for itself alone. -/
def simpleEscape? (c : Char) : Option Char :=
  match c with
  | '0' => some '\x00'
  | 'a' => some '\x07'
  | 'b' => some '\x08'
  | 't' => some '\t'
  | '\t' => some '\t'
  | 'n' => some '\n'
  | 'v' => some '\x0b'
  | 'f' => some '\x0c'
  | 'r' => some '\r'
  | 'e' => some '\x1b'
  | 'N' => some '\u0085'
  | '_' => some '\u00a0'
  | 'L' => some '\u2028'
  | 'P' => some '\u2029'
  | ' ' | '"' | '/' | '\\' => some c
  | _ => none

/-- How many hexadecimal digits follow a character behind a backslash. -/
def hexLength? (c : Char) : Option Nat :=
  match c with
  | 'x' => some 2
  | 'u' => some 4
  | 'U' => some 8
  | _ => none

namespace Quoted

/-- Where a scan stands. -/
inductive Mode where
  | word
  /-- Behind blanks, newest first. -/
  | blanks (taken : List Char)
  /-- Behind breaks, newest first. An escaped one stands in front of them, or none does. -/
  | breaks (escaped : Bool) (taken : List Char)
  /-- Behind a backslash. -/
  | escape
  /-- In a hexadecimal escape that lacks so many digits. -/
  | hex (owed value : Nat)

namespace Mode

/-- What is kept of blanks and breaks in front of a word or a quote, newest first. -/
def gap : Mode → List Char
  | .blanks taken => taken
  | .breaks true taken => taken
  | .breaks false taken => (foldBreaks taken.reverse).reverse
  | _ => []

def addBlank (m : Mode) (c : Char) : Mode :=
  match m with
  | .blanks taken => .blanks (c :: taken)
  | .breaks escaped taken => .breaks escaped taken
  | _ => .blanks [c]

def addBreak (m : Mode) (c : Char) : Mode :=
  match m with
  | .breaks escaped taken => .breaks escaped (breakChar c :: taken)
  | .escape => .breaks true []
  | _ => .breaks false [breakChar c]

end Mode

/-- The characters up to the closing quote, newest first, and the place behind it. -/
def scan (single : Bool) (line column : Nat) (taken : List Char) (mode : Mode) :
    List Char → Option (List Char × Cursor)
  | [] => none
  | c :: rest =>
    match mode with
    | .hex 0 _ => none
    | .hex (owed + 1) value =>
      let digit := Scalar.digitValue c
      let value := value * 16 + digit
      if 16 ≤ digit then none
      else if 0 < owed then scan single line (column + 1) taken (.hex owed value) rest
      else if value.isValidChar then
        scan single line (column + 1) (Char.ofNat value :: taken) .word rest
      else none
    | mode =>
      if c == '\r' && rest.head? == some '\n' then
        -- The line feed that follows is the break.
        scan single line column taken mode rest
      else if isBreak c then scan single (line + 1) 0 taken (mode.addBreak c) rest
      else match mode with
      | .escape =>
        match hexLength? c with
        | some n => scan single line (column + 1) taken (.hex n 0) rest
        | none =>
          match simpleEscape? c with
          | some e => scan single line (column + 1) (e :: taken) .word rest
          | none => none
      | mode =>
        if isBlank c then scan single line (column + 1) taken (mode.addBlank c) rest
        else if Cursor.atDocumentMark ⟨c :: rest, line, column, false⟩ then none
        else
          let taken := mode.gap ++ taken
          if single && c == '\'' then
            match rest with
            | '\'' :: rest => scan single line (column + 2) ('\'' :: taken) .word rest
            | _ => some (taken, ⟨rest, line, column + 1, false⟩)
          else if !single && c == '"' then some (taken, ⟨rest, line, column + 1, false⟩)
          else if !single && c == '\\' then scan single line (column + 1) taken .escape rest
          else scan single line (column + 1) (c :: taken) .word rest

end Quoted

/-- What stands between quotes; the cursor is in front of the opening one. -/
def quoted? (single : Bool) (c : Cursor) : Option (List Char × Cursor) :=
  (Quoted.scan single c.line (c.column + 1) [] .word c.rest.tail).map fun (text, c) =>
    (text.reverse, c)

end LivePlayback.Yaml
