import LivePlayback.Fault
import LivePlayback.Text.Blank

/-!
# Codec lists

The announced text is kept as it stands, so that a surface is asked about exactly what the stream
named. Only a blank text is refused.
-/

namespace LivePlayback
set_option autoImplicit false

open Text

structure Codecs where
  text : String
  notBlank : text.toList.any (fun c => !isBlank c) = true
  deriving DecidableEq, Repr

namespace Codecs

def blankFault : Fault := .decode "codec frame" "empty codec list"

def ofText (text : String) : Except Fault Codecs :=
  if h : text.toList.any (fun c => !isBlank c) = true then .ok ⟨text, h⟩ else .error blankFault

/-- The identifiers between commas. -/
def names (c : Codecs) : List String := (trimmedParts ',' c.text.toList).map String.ofList

def mimeType (c : Codecs) : String := "video/mp4; codecs=\"" ++ c.text ++ "\""

theorem ofText_eq_ok_iff {text : String} {c : Codecs} : ofText text = .ok c ↔ c.text = text := by
  unfold ofText
  split
  · rename_i h
    simp only [Except.ok.injEq]
    constructor
    · intro hc
      subst hc
      rfl
    · intro hc
      cases c
      cases hc
      rfl
  · rename_i h
    constructor
    · simp
    · intro hc
      exact absurd (hc ▸ c.notBlank) h

end Codecs

end LivePlayback
