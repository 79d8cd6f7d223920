import PklBindings.ModuleName
import Mathlib.Data.List.Basic

/-!
# The characters of identifiers and module names

An identifier is of the characters that may stand in one (`Identifier.isNameChar_of_mem_ofText`),
and the name by which a namespace is imported adds nothing but its suffix
(`ModuleName.mem_importName`).
-/

namespace PklBindings

namespace Identifier

variable {c : Char} {cs : List Char}

theorem isNameChar_of_mem_nameChars {d : Char} (h : c ∈ nameChars d) : isNameChar c = true := by
  rw [nameChars] at h
  split at h
  · rename_i hname
    rwa [List.mem_singleton.1 h]
  · rw [List.eq_of_mem_replicate h]
    decide

theorem mem_or_eq_of_mem_guardStart (h : c ∈ guardStart cs) : c ∈ cs ∨ c = '_' := by
  cases cs with
  | nil => exact .inr (List.mem_singleton.1 h)
  | cons first cs =>
      rw [guardStart] at h
      split at h
      · exact (List.mem_cons.1 h).symm
      · exact .inl h

theorem mem_or_eq_of_mem_guardKeyword (h : c ∈ guardKeyword cs) : c ∈ cs ∨ c = '_' := by
  rw [guardKeyword] at h
  split at h
  · rcases List.mem_append.1 h with h | h
    · exact .inl h
    · exact .inr (List.mem_singleton.1 h)
  · exact .inl h

/-- An identifier is of the characters that may stand in one. -/
theorem isNameChar_of_mem_ofText {text : String} (h : c ∈ (ofText text).toList) :
    isNameChar c = true := by
  have hunderscore : isNameChar '_' = true := by decide
  rw [ofText, String.toList_ofList] at h
  rcases mem_or_eq_of_mem_guardKeyword h with h | rfl
  · rcases mem_or_eq_of_mem_guardStart h with h | rfl
    · obtain ⟨d, -, hd⟩ := List.mem_flatMap.1 h
      exact isNameChar_of_mem_nameChars hd
    · exact hunderscore
  · exact hunderscore

end Identifier

namespace ModuleName

variable {space suffix : String} {c : Char}

theorem mem_importName (h : c ∈ (importName space suffix).toList) :
    Identifier.isNameChar c = true ∨ c ∈ suffix.toList := by
  rw [importName] at h
  split at h
  · exact .inl (Identifier.isNameChar_of_mem_ofText h)
  · rw [String.toList_append, String.toList_append] at h
    rcases List.mem_append.1 h with h | h
    · rcases List.mem_append.1 h with h | h
      · exact .inl (Identifier.isNameChar_of_mem_ofText h)
      · obtain rfl := List.mem_singleton.1 h
        exact .inl (by decide)
    · exact .inr h

theorem mem_fileName (h : c ∈ (fileName space suffix).toList) :
    Identifier.isNameChar c = true ∨ c ∈ suffix.toList ∨ c = '.' := by
  have hending : ".py".toList = ['.', 'p', 'y'] := rfl
  rw [fileName, String.toList_append, hending] at h
  rcases List.mem_append.1 h with h | h
  · exact (mem_importName h).imp_right .inl
  · simp only [List.mem_cons, List.not_mem_nil, or_false] at h
    rcases h with rfl | rfl | rfl
    · exact .inr (.inr rfl)
    · exact .inl (by decide)
    · exact .inl (by decide)

theorem notMem_fileName (hname : Identifier.isNameChar c = false) (hdot : c ≠ '.')
    (hsuffix : c ∉ suffix.toList) (space : String) : c ∉ (fileName space suffix).toList := by
  intro h
  rcases mem_fileName h with h | h | h
  · rw [hname] at h
    cases h
  · exact hsuffix h
  · exact hdot h

end ModuleName

end PklBindings
