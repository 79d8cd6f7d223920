import PklBindings.CommandLine
import PklBindings.Proofs.ComposedSettings
import PklBindings.Proofs.EmittedFiles
import PklBindings.Proofs.Identifiers

/-!
# Names that can be imported

A namespace is made into an identifier, whatever its name is, but the suffix is put behind it as it
is. So the name by which a namespace is imported is one of Python's identifiers exactly when all
characters of the suffix may stand in one (`ModuleName.importable_iff`). Then its file stands in the
output directory itself (`DiskPath.placeFrom_join`); with a slash in the suffix it does not.
-/

namespace PklBindings

open DiskPath (IsPlain placeFrom)

/-! ## Python's identifiers -/

namespace Identifier

/-- The characters that Python takes in identifiers, at the start of one and behind it. Of the ASCII
characters these are the letters and the underscore and, behind the start, the digits. Of the others
it is left open which they are. -/
structure Lexicon where
  starts : Char → Bool
  continues : Char → Bool
  starts_ascii : ∀ c : Char, c.toNat < 128 → starts c = (isNameChar c && !c.isDigit)
  continues_ascii : ∀ c : Char, c.toNat < 128 → continues c = isNameChar c

namespace Lexicon

variable {lexicon : Lexicon} {c : Char}

/-- The name is an identifier, and Python does not reserve it. -/
structure IsName (lexicon : Lexicon) (name : String) : Prop where
  chars : ∃ c cs, name.toList = c :: cs ∧ lexicon.starts c = true ∧
    ∀ d ∈ cs, lexicon.continues d = true
  not_keyword : isKeyword name = false

theorem starts_of_isNameChar (h : isNameChar c = true) (hdigit : c.isDigit = false) :
    lexicon.starts c = true := by
  rw [lexicon.starts_ascii c (toNat_lt_of_isNameChar h), h, hdigit]
  rfl

theorem continues_of_isNameChar (h : isNameChar c = true) : lexicon.continues c = true := by
  rw [lexicon.continues_ascii c (toNat_lt_of_isNameChar h), h]

/-- Identifiers of ASCII characters alone. -/
def ascii : Lexicon where
  starts c := isNameChar c && !c.isDigit
  continues := isNameChar
  starts_ascii _ _ := rfl
  continues_ascii _ _ := rfl

end Lexicon

/-- No keyword has an underscore in it. -/
theorem isKeyword_eq_false_of_mem {name : String} (h : '_' ∈ name.toList) :
    isKeyword name = false := by
  have hfree : ∀ keyword ∈ keywords, '_' ∉ keyword.toList := by decide
  rw [isKeyword_eq_false_iff]
  intro hmem
  exact hfree name hmem h

end Identifier

/-! ## Names of modules -/

namespace ModuleName

open Identifier (Lexicon isIdentifier_ofText)

variable {suffix : String}

theorem toList_importName (hsuffix : suffix ≠ "") (space : String) :
    (importName space suffix).toList =
      (Identifier.ofText space).toList ++ '_' :: suffix.toList := by
  rw [importName, if_neg hsuffix, String.toList_append, String.toList_append, List.append_assoc]
  rfl

theorem mem_fileName_of_mem_suffix {c : Char} (h : c ∈ suffix.toList) (space : String) :
    c ∈ (fileName space suffix).toList := by
  have hsuffix : suffix ≠ "" := by
    rintro rfl
    cases h
  rw [fileName, String.toList_append, toList_importName hsuffix]
  simp [h]

theorem isName_importName_iff (lexicon : Lexicon) (hsuffix : suffix ≠ "") (space : String) :
    lexicon.IsName (importName space suffix) ↔
      ∀ c ∈ suffix.toList, lexicon.continues c = true := by
  obtain ⟨first, rest, hspace, hdigit⟩ := (isIdentifier_ofText space).start
  have hchars : (importName space suffix).toList = first :: (rest ++ '_' :: suffix.toList) := by
    rw [toList_importName hsuffix, hspace, List.cons_append]
  have hname : ∀ c ∈ first :: rest, Identifier.isNameChar c = true := by
    rw [← hspace]
    exact (isIdentifier_ofText space).chars
  rw [List.forall_mem_cons] at hname
  constructor
  · rintro ⟨⟨c, cs, hcs, -, hcontinues⟩, -⟩ d hd
    obtain ⟨-, rfl⟩ := List.cons.inj (hchars.symm.trans hcs)
    exact hcontinues d (by simp [hd])
  · intro hcontinues
    refine ⟨⟨first, _, hchars, Lexicon.starts_of_isNameChar hname.1 hdigit, ?_⟩, ?_⟩
    · intro d hd
      rcases List.mem_append.1 hd with hd | hd
      · exact Lexicon.continues_of_isNameChar (hname.2 d hd)
      · rcases List.mem_cons.1 hd with rfl | hd
        · exact Lexicon.continues_of_isNameChar (by decide)
        · exact hcontinues d hd
    · -- The underscore in front of the suffix is in no keyword.
      apply Identifier.isKeyword_eq_false_of_mem
      simp [hchars]

theorem isPlain_fileName_iff (space : String) :
    IsPlain (fileName space suffix) ↔ '/' ∉ suffix.toList ∧ '\x00' ∉ suffix.toList := by
  constructor
  · intro hplain
    exact ⟨fun h => hplain.slash_notMem (mem_fileName_of_mem_suffix h space),
      fun h => hplain.nul_notMem (mem_fileName_of_mem_suffix h space)⟩
  · rintro ⟨hslash, hnul⟩
    exact isPlain_fileName hslash hnul space

/-! ## Suffixes that are accepted -/

theorem exists_accepts_iff {o : Options} :
    (∃ o', Settings.Accepts [("fileSuffix", .string suffix)] o o') ↔ suffix ≠ "" := by
  constructor
  · rintro ⟨o', h⟩
    obtain ⟨c, hc, hne, -⟩ := Settings.apply_eq_ok_iff.1 h
    have hchosen : some suffix = c.fileSuffix := Except.ok.inj hc.fileSuffix
    rwa [Settings.Choice.onto, ← hchosen] at hne
  · intro hne
    exact ⟨{ o with fileSuffix := suffix }, Settings.apply_eq_ok_iff.2
      ⟨{ fileSuffix := some suffix }, ⟨rfl, rfl, rfl, rfl, rfl, rfl⟩, hne, rfl⟩⟩

theorem exists_setOption_iff {reader : TextReader} {a : Arguments} :
    (∃ a', a.setOption reader suffix .suffix = .ok a') ↔ suffix ≠ "" := by
  rw [Arguments.setOption]
  split
  · rename_i hempty
    simp [hempty]
  · rename_i hne
    simp [hne]

/-- The name by which a namespace is imported is an identifier exactly when all characters of the
suffix may stand in one behind the start. Its file has a plain name exactly when neither a slash nor
a NUL is in the suffix. So a module that can be imported is in the output directory itself. -/
theorem importable_iff (lexicon : Lexicon) (hsuffix : suffix ≠ "") (space : String) :
    (lexicon.IsName (importName space suffix) ↔
      ∀ c ∈ suffix.toList, lexicon.continues c = true) ∧
    (IsPlain (fileName space suffix) ↔ '/' ∉ suffix.toList ∧ '\x00' ∉ suffix.toList) ∧
    (lexicon.IsName (importName space suffix) → IsPlain (fileName space suffix)) ∧
    (IsPlain (fileName space suffix) → ∀ (work : Place) (outDir : String), outDir ≠ "" →
      '\x00' ∉ outDir.toList →
      placeFrom work (DiskPath.join outDir (fileName space suffix)) =
        placeFrom work outDir ++ [fileName space suffix]) := by
  have hname := isName_importName_iff lexicon hsuffix space
  have hplain : IsPlain (fileName space suffix) ↔ '/' ∉ suffix.toList ∧ '\x00' ∉ suffix.toList :=
    isPlain_fileName_iff space
  refine ⟨hname, hplain, ?_, ?_⟩
  · intro h
    -- Slash and NUL are ASCII characters, of which it is known that they are in no identifier.
    have hcontinues := hname.1 h
    have hforeign : ∀ c : Char, c.toNat < 128 → Identifier.isNameChar c = false →
        c ∉ suffix.toList := by
      intro c hascii hc hmem
      have htaken := hcontinues c hmem
      rw [lexicon.continues_ascii c hascii, hc] at htaken
      cases htaken
    exact hplain.2 ⟨hforeign '/' (by decide) (by decide), hforeign '\x00' (by decide) (by decide)⟩
  · intro h work outDir houtDir hnul
    exact DiskPath.placeFrom_join houtDir hnul h work

/-- A suffix that starts with a digit, behind a namespace that is a keyword. -/
theorem importable_iff_keyword :
    "3" ≠ "" ∧ Lexicon.ascii.IsName (importName "class" "3") ∧
      placeFrom ["work"] (DiskPath.join "out/" (fileName "class" "3")) =
        ["work", "out", "class__3.py"] := by
  have hsuffix : "3" ≠ "" := by decide
  obtain ⟨hname, -, hplain, hplace⟩ := importable_iff Lexicon.ascii hsuffix "class"
  have h : Lexicon.ascii.IsName (importName "class" "3") := by
    apply hname.2
    intro c hc
    obtain rfl : c = '3' := List.mem_singleton.1 hc
    decide
  refine ⟨hsuffix, h, ?_⟩
  rw [hplace (hplain h) ["work"] "out/" (by decide) (by decide)]
  rfl

/-- Settings and command line accept suffixes with which a namespace has no name to be imported by,
and no file in the output directory itself. -/
theorem exists_suffix_not_importable :
    ∃ suffix space : String,
      (∃ o', Settings.Accepts [("fileSuffix", .string suffix)] {} o') ∧
      (∀ reader, ∃ a', ({} : Arguments).setOption reader suffix .suffix = .ok a') ∧
      (∀ lexicon : Lexicon, ¬ lexicon.IsName (importName space suffix)) ∧
      ¬ IsPlain (fileName space suffix) := by
  have hsuffix : "a/b" ≠ "" := by decide
  have hslash : '/' ∈ "a/b".toList := by decide
  refine ⟨"a/b", "m", exists_accepts_iff.2 hsuffix, ?_, ?_, ?_⟩
  · intro reader
    exact exists_setOption_iff.2 hsuffix
  · intro lexicon h
    have htaken := (isName_importName_iff lexicon hsuffix "m").1 h '/' hslash
    rw [lexicon.continues_ascii '/' (by decide)] at htaken
    cases htaken
  · intro hplain
    exact ((isPlain_fileName_iff "m").1 hplain).1 hslash

end ModuleName

end PklBindings
