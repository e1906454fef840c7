import Mustache.Error
import Mustache.Text.Blank

/-!
# Delimiters

The pair of markers around a tag.  Neither marker is empty, so a scan that passes a tag always
moves on.
-/

namespace Mustache

/-- The markers that open and close a tag. -/
structure Delimiter where
  opening : Text
  closing : Text
  opening_ne_nil : opening ≠ []
  closing_ne_nil : closing ≠ []
  deriving DecidableEq

namespace Delimiter

/-- Double braces, in force at the start of a template unless another pair is named. -/
def braces : Delimiter := ⟨['{', '{'], ['}', '}'], by decide, by decide⟩

instance : Inhabited Delimiter := ⟨braces⟩

/-- The pair of two markers; an empty marker is refused. -/
def ofMarkers (opening closing : Text) : Except Error Delimiter :=
  if h : opening ≠ [] ∧ closing ≠ [] then .ok ⟨opening, closing, h.1, h.2⟩
  else .error (.badDelimiters (opening ++ ' ' :: closing))

/-- The pair that the content of a delimiter change names: two words behind an equals sign; another
one may stand at the end. -/
def ofChange (content : Text) : Except Error Delimiter :=
  match Text.words (Text.dropEnding ['='] content.tail) with
  | [opening, closing] => ofMarkers opening closing
  | _ => .error (.badDelimiters content)

theorem ofMarkers_of_ne_nil {opening closing : Text} (ho : opening ≠ []) (hc : closing ≠ []) :
    ofMarkers opening closing = .ok ⟨opening, closing, ho, hc⟩ := by
  unfold ofMarkers
  rw [dif_pos ⟨ho, hc⟩]

end Delimiter

end Mustache
