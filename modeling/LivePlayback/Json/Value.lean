import LivePlayback.Entries
import LivePlayback.Json.Number

/-!
# JSON values

An object is a list of entries. A reader keeps it sorted and without a repeated key; a printer
writes the entries as they stand, so that a record may repeat one.
-/

namespace LivePlayback.Json
set_option autoImplicit false

inductive Value where
  | null
  | bool (b : Bool)
  | number (n : Number)
  | string (s : String)
  | array (items : List Value)
  | object (fields : List (String × Value))
  deriving Inhabited, Repr

abbrev Fields := List (String × Value)

namespace Value

def int (n : Int) : Value := .number (.int n)

def nat (n : Nat) : Value := .number (.int n)

mutual

/-- Equality of values, entry by entry. -/
def same : Value → Value → Bool
  | .null, .null => true
  | .bool a, .bool b => a == b
  | .number a, .number b => a == b
  | .string a, .string b => a == b
  | .array a, .array b => sameItems a b
  | .object a, .object b => sameFields a b
  | _, _ => false

def sameItems : List Value → List Value → Bool
  | [], [] => true
  | v :: vs, w :: ws => same v w && sameItems vs ws
  | _, _ => false

def sameFields : List (String × Value) → List (String × Value) → Bool
  | [], [] => true
  | (k, v) :: vs, (l, w) :: ws => k == l && same v w && sameFields vs ws
  | _, _ => false

end

mutual

theorem eq_of_same {v w : Value} (h : same v w = true) : v = w := by
  cases v <;> cases w <;> simp_all only [same, beq_iff_eq, Bool.false_eq_true]
  · rw [eq_of_sameItems h]
  · rw [eq_of_sameFields h]

theorem eq_of_sameItems {vs ws : List Value} (h : sameItems vs ws = true) : vs = ws := by
  cases vs with
  | nil => cases ws <;> simp_all [sameItems]
  | cons v vs =>
    cases ws with
    | nil => simp [sameItems] at h
    | cons w ws =>
      simp only [sameItems, Bool.and_eq_true] at h
      rw [eq_of_same h.1, eq_of_sameItems h.2]

theorem eq_of_sameFields {vs ws : List (String × Value)} (h : sameFields vs ws = true) :
    vs = ws := by
  cases vs with
  | nil => cases ws <;> simp_all [sameFields]
  | cons e vs =>
    obtain ⟨k, v⟩ := e
    cases ws with
    | nil => simp [sameFields] at h
    | cons e ws =>
      obtain ⟨l, w⟩ := e
      simp only [sameFields, Bool.and_eq_true, beq_iff_eq] at h
      rw [h.1.1, eq_of_same h.1.2, eq_of_sameFields h.2]

end

mutual

theorem same_self : ∀ v : Value, same v v = true
  | .null | .bool _ | .number _ | .string _ => by simp [same]
  | .array items => by simp [same, sameItems_self items]
  | .object fields => by simp [same, sameFields_self fields]

theorem sameItems_self : ∀ vs : List Value, sameItems vs vs = true
  | [] => by simp [sameItems]
  | v :: vs => by simp [sameItems, same_self v, sameItems_self vs]

theorem sameFields_self : ∀ vs : List (String × Value), sameFields vs vs = true
  | [] => by simp [sameFields]
  | (_, v) :: vs => by simp [sameFields, same_self v, sameFields_self vs]

end

theorem same_iff {v w : Value} : same v w = true ↔ v = w :=
  ⟨eq_of_same, fun h => h ▸ same_self v⟩

instance : DecidableEq Value := fun v w => decidable_of_iff (same v w = true) same_iff

/-- The field of an object; none for any other value. -/
def field? (key : String) : Value → Option Value
  | .object fields => Entries.find? key fields
  | _ => none

def string? : Value → Option String
  | .string s => some s
  | _ => none

def bool? : Value → Option Bool
  | .bool b => some b
  | _ => none

def word? : Value → Option Nat
  | .number n => n.toWord?
  | _ => none

/-- An integer in the range of a signed 64 bit word. -/
def int64? : Value → Option Int
  | .number n => n.toInt64?
  | _ => none

def items : Value → List Value
  | .array items => items
  | _ => []

def isNull : Value → Bool
  | .null => true
  | _ => false

end Value

end LivePlayback.Json
