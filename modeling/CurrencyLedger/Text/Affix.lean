/-!
Endings of texts.
-/

namespace CurrencyLedger.Text

/-- What stands in front of an ending, if the text has it. -/
def dropSuffix? (ending cs : List Char) : Option (List Char) :=
  if ending.isSuffixOf cs then some (cs.take (cs.length - ending.length)) else none

theorem dropSuffix?_append (body ending : List Char) :
    dropSuffix? ending (body ++ ending) = some body := by
  simp [dropSuffix?]

theorem dropSuffix?_eq_some_iff {ending cs body : List Char} :
    dropSuffix? ending cs = some body ↔ cs = body ++ ending := by
  constructor
  · intro h
    unfold dropSuffix? at h
    split at h
    · next hs =>
      obtain ⟨front, hf⟩ := List.isSuffixOf_iff_suffix.1 hs
      simp [← hf] at h
      rw [← h, hf]
    · cases h
  · rintro rfl
    exact dropSuffix?_append body ending

end CurrencyLedger.Text
