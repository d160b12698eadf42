import LivePlayback.Proofs.Entries
import LivePlayback.Proofs.Json.Numerals

/-!
# JSON as it is written

The grammar of JSON. Most relations here are between a text and what is left of it after the part
that they are about. A tree keeps what is written: the digits of numbers, and all entries of an
object in their order.
-/

namespace LivePlayback.Json
set_option autoImplicit false

inductive Tree where
  | null
  | bool (b : Bool)
  | number (l : Literal)
  | string (s : String)
  | array (items : List Tree)
  | object (entries : List (String × Tree))

/-! ## Trees -/

mutual

/-- How many containers are in each other. -/
def Tree.depth : Tree → Nat
  | .null | .bool _ | .number _ | .string _ => 0
  | .array items => itemDepth items + 1
  | .object entries => entryDepth entries + 1

def itemDepth : List Tree → Nat
  | [] => 0
  | t :: items => max t.depth (itemDepth items)

def entryDepth : List (String × Tree) → Nat
  | [] => 0
  | (_, t) :: entries => max t.depth (entryDepth entries)

end

mutual

/-- The value of a tree, unless one of its numbers is too large. Of entries with the same key the
last one counts. -/
def Tree.value? : Tree → Option Value
  | .null => some .null
  | .bool b => some (.bool b)
  | .number l => l.value?.map .number
  | .string s => some (.string s)
  | .array items => (itemValues? items).map .array
  | .object entries => (entryValues? entries).map fun fields => .object (Entries.collect fields)

def itemValues? : List Tree → Option (List Value)
  | [] => some []
  | t :: items => t.value?.bind fun v => (itemValues? items).map (v :: ·)

def entryValues? : List (String × Tree) → Option Fields
  | [] => some []
  | (key, t) :: entries =>
    t.value?.bind fun v => (entryValues? entries).map ((key, v) :: ·)

end

section

variable (room : Nat)

/-- The value of a tree, if so many containers may be in each other. -/
def Tree.read? (t : Tree) : Option Value := if t.depth ≤ room then t.value? else none

def readItems? (items : List Tree) : Option (List Value) :=
  if itemDepth items ≤ room then itemValues? items else none

def readEntries? (entries : List (String × Tree)) : Option Fields :=
  if entryDepth entries ≤ room then entryValues? entries else none

variable {room}

theorem readItems?_cons (t : Tree) (items : List Tree) : readItems? room (t :: items) =
    (t.read? room).bind fun v => (readItems? room items).map (v :: ·) := by
  simp only [readItems?, Tree.read?, itemDepth, itemValues?, Nat.max_le]
  by_cases ht : t.depth ≤ room <;> by_cases hi : itemDepth items ≤ room <;> simp [ht, hi]

theorem readEntries?_cons (key : String) (t : Tree) (entries : List (String × Tree)) :
    readEntries? room ((key, t) :: entries) =
      (t.read? room).bind fun v => (readEntries? room entries).map ((key, v) :: ·) := by
  simp only [readEntries?, Tree.read?, entryDepth, entryValues?, Nat.max_le]
  by_cases ht : t.depth ≤ room <;> by_cases he : entryDepth entries ≤ room <;> simp [ht, he]

theorem Tree.read?_array (items : List Tree) :
    Tree.read? (room + 1) (.array items) = (readItems? room items).map .array := by
  simp only [Tree.read?, readItems?, depth, value?, Nat.add_le_add_iff_right]
  split <;> rfl

theorem Tree.read?_object (entries : List (String × Tree)) :
    Tree.read? (room + 1) (.object entries) =
      (readEntries? room entries).map fun fields => .object (Entries.collect fields) := by
  simp only [Tree.read?, readEntries?, depth, value?, Nat.add_le_add_iff_right]
  split <;> rfl

end

namespace Grammar

/-! ## Blanks and text -/

/-- Some blanks, or none. -/
inductive Blanks : List Char → List Char → Prop where
  | nil (cs : List Char) : Blanks cs cs
  | cons {c : Char} {cs rest : List Char} (hc : c = ' ' ∨ c = '\t' ∨ c = '\n' ∨ c = '\r')
      (h : Blanks cs rest) : Blanks (c :: cs) rest

/-- The characters that may follow a backslash, and what they stand for. -/
def shorthands : List (Char × Char) :=
  [('"', '"'), ('\\', '\\'), ('/', '/'), ('b', '\x08'), ('f', '\x0c'), ('n', '\n'), ('r', '\r'),
    ('t', '\t')]

/-- A hexadecimal digit, in either case. -/
def HexDigit (c : Char) (n : Nat) : Prop :=
  n < 16 ∧ (c = Nat.digitChar n ∨ c = (Nat.digitChar n).toUpper)

/-- Four hexadecimal digits. -/
inductive Hex : Nat → List Char → List Char → Prop where
  | mk {c₁ c₂ c₃ c₄ : Char} {n₁ n₂ n₃ n₄ : Nat} (h₁ : HexDigit c₁ n₁) (h₂ : HexDigit c₂ n₂)
      (h₃ : HexDigit c₃ n₃) (h₄ : HexDigit c₄ n₄) (cs : List Char) :
      Hex (((n₁ * 16 + n₂) * 16 + n₃) * 16 + n₄) (c₁ :: c₂ :: c₃ :: c₄ :: cs) cs

/-- A character in a string. One outside the basic plane is escaped as a pair of surrogates. -/
inductive Letter : Char → List Char → List Char → Prop where
  | plain {c : Char} {cs : List Char} (hquote : c ≠ '"') (hbackslash : c ≠ '\\')
      (hcontrol : 0x20 ≤ c.toNat) : Letter c (c :: cs) cs
  | short {c mark : Char} {cs : List Char} (h : (mark, c) ∈ shorthands) :
      Letter c ('\\' :: mark :: cs) cs
  | unit {c : Char} {cs rest : List Char} (h : Hex c.toNat cs rest) :
      Letter c ('\\' :: 'u' :: cs) rest
  | pair {c : Char} {high low : Nat} {cs cs' rest : List Char} (h : Hex high cs ('\\' :: 'u' :: cs'))
      (h' : Hex low cs' rest) (hhigh : 0xD800 ≤ high ∧ high < 0xDC00)
      (hlow : 0xDC00 ≤ low ∧ low < 0xE000)
      (hc : c.toNat = 0x10000 + (high - 0xD800) * 0x400 + (low - 0xDC00)) :
      Letter c ('\\' :: 'u' :: cs) rest

/-- The characters of a string, and the quote at its end. -/
inductive Letters : List Char → List Char → List Char → Prop where
  | nil {cs : List Char} : Letters [] ('"' :: cs) cs
  | cons {c : Char} {s cs cs' rest : List Char} (h : Letter c cs cs') (hs : Letters s cs' rest) :
      Letters (c :: s) cs rest

/-! ## Numbers -/

structure Digits (ds : List Char) : Prop where
  ne_nil : ds ≠ []
  digit : ∀ d ∈ ds, d.isDigit = true

/-- What may stand behind the whole part: digits behind a point, or nothing. -/
inductive Fraction : List Char → List Char → Prop where
  | none : Fraction [] []
  | some {ds : List Char} (h : Digits ds) : Fraction ds ('.' :: ds)

/-- What may stand at the end: an exponent, with or without a sign, or nothing. -/
inductive Exponent : Option Int → List Char → Prop where
  | none : Exponent none []
  | unsigned {mark : Char} {ds : List Char} (hm : mark = 'e' ∨ mark = 'E') (h : Digits ds) :
      Exponent (some (Nat.ofDigitChars 10 ds 0)) (mark :: ds)
  | plus {mark : Char} {ds : List Char} (hm : mark = 'e' ∨ mark = 'E') (h : Digits ds) :
      Exponent (some (Nat.ofDigitChars 10 ds 0)) (mark :: '+' :: ds)
  | minus {mark : Char} {ds : List Char} (hm : mark = 'e' ∨ mark = 'E') (h : Digits ds) :
      Exponent (some (-Nat.ofDigitChars 10 ds 0)) (mark :: '-' :: ds)

/-- A number. Only zero itself is written with a zero in front. -/
inductive Numeral : Literal → List Char → Prop where
  | mk (negative : Bool) {whole fraction point power : List Char} {exponent : Option Int}
      (hw : Digits whole) (hzero : whole.head? = some '0' → whole = ['0'])
      (hf : Fraction fraction point) (he : Exponent exponent power) :
      Numeral ⟨negative, Literal.digits whole, Literal.digits fraction,
          !fraction.isEmpty || exponent.isSome, exponent.getD 0⟩
        ((if negative then ['-'] else []) ++ (whole ++ (point ++ power)))

/-! ## Documents -/

mutual

inductive Written : Tree → List Char → List Char → Prop where
  | null {cs : List Char} : Written .null ('n' :: 'u' :: 'l' :: 'l' :: cs) cs
  | isTrue {cs : List Char} : Written (.bool true) ('t' :: 'r' :: 'u' :: 'e' :: cs) cs
  | isFalse {cs : List Char} : Written (.bool false) ('f' :: 'a' :: 'l' :: 's' :: 'e' :: cs) cs
  | number {l : Literal} {ds cs : List Char} (h : Numeral l ds) : Written (.number l) (ds ++ cs) cs
  | string {s : String} {cs rest : List Char} (h : Letters s.toList cs rest) :
      Written (.string s) ('"' :: cs) rest
  | emptyArray {cs rest : List Char} (h : Blanks cs (']' :: rest)) :
      Written (.array []) ('[' :: cs) rest
  | array {items : List Tree} {cs rest : List Char} (h : WrittenItems items cs rest) :
      Written (.array items) ('[' :: cs) rest
  | emptyObject {cs rest : List Char} (h : Blanks cs ('}' :: rest)) :
      Written (.object []) ('{' :: cs) rest
  | object {entries : List (String × Tree)} {cs rest : List Char}
      (h : WrittenEntries entries cs rest) : Written (.object entries) ('{' :: cs) rest

/-- The items of an array, at least one, and the bracket at its end. -/
inductive WrittenItems : List Tree → List Char → List Char → Prop where
  | last {t : Tree} {cs cs₁ cs₂ rest : List Char} (hb : Blanks cs cs₁) (h : Written t cs₁ cs₂)
      (ha : Blanks cs₂ (']' :: rest)) : WrittenItems [t] cs rest
  | cons {t : Tree} {items : List Tree} {cs cs₁ cs₂ cs₃ rest : List Char} (hb : Blanks cs cs₁)
      (h : Written t cs₁ cs₂) (ha : Blanks cs₂ (',' :: cs₃)) (hs : WrittenItems items cs₃ rest) :
      WrittenItems (t :: items) cs rest

/-- The entries of an object, at least one, and the brace at its end. -/
inductive WrittenEntries : List (String × Tree) → List Char → List Char → Prop where
  | last {key : String} {t : Tree} {cs cs₁ cs₂ cs₃ cs₄ cs₅ rest : List Char}
      (hb : Blanks cs ('"' :: cs₁)) (hk : Letters key.toList cs₁ cs₂)
      (hc : Blanks cs₂ (':' :: cs₃)) (hv : Blanks cs₃ cs₄) (h : Written t cs₄ cs₅)
      (ha : Blanks cs₅ ('}' :: rest)) : WrittenEntries [(key, t)] cs rest
  | cons {key : String} {t : Tree} {entries : List (String × Tree)}
      {cs cs₁ cs₂ cs₃ cs₄ cs₅ cs₆ rest : List Char}
      (hb : Blanks cs ('"' :: cs₁)) (hk : Letters key.toList cs₁ cs₂)
      (hc : Blanks cs₂ (':' :: cs₃)) (hv : Blanks cs₃ cs₄) (h : Written t cs₄ cs₅)
      (ha : Blanks cs₅ (',' :: cs₆)) (hs : WrittenEntries entries cs₆ rest) :
      WrittenEntries ((key, t) :: entries) cs rest

end

/-- A whole text: a tree, with blanks around it. -/
def Document (t : Tree) (text : String) : Prop :=
  ∃ cs rest, Blanks text.toList cs ∧ Written t cs rest ∧ Blanks rest []

end Grammar

end LivePlayback.Json
