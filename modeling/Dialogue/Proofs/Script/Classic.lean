import Dialogue.Script.Classic

/-! # The classic script can be read

Its lines are texts that are spelled out, and reading them comes to a script. -/

namespace Dialogue

/-- The texts of strings that are spelled out. -/
theorem map_toList_eq {strings : List String} {texts : List Text} (h : strings = texts.map String.ofList) :
    strings.map String.toList = texts := by
  rw [h, List.map_map]
  exact List.map_id'' (fun t => String.toList_ofList) texts

theorem cons_eq_map_ofList {string : String} {strings : List String} {t : Text} {texts : List Text}
    (hfirst : string = String.ofList t) (hrest : strings = texts.map String.ofList) :
    string :: strings = (t :: texts).map String.ofList := by
  rw [hfirst, hrest, List.map_cons]

namespace Script

/-- The lines of the classic file, character by character, and that they can be read. -/
theorem exists_classicLines : ∃ texts : List Text, classicLines = texts.map String.ofList ∧
    (ofText fallbackPhrase (Text.unlines texts)).result.isOk = true := by
  apply Exists.intro
  apply And.intro
  · dsimp only [classicLines]
    repeat apply cons_eq_map_ofList rfl
    exact List.map_nil.symm
  · decide +kernel

theorem exists_classic : ∃ s, classic.result = .ok s := by
  obtain ⟨texts, hlines, hok⟩ := exists_classicLines
  rw [classic, classicText, map_toList_eq hlines]
  cases hresult : (ofText fallbackPhrase (Text.unlines texts)).result with
  | ok s => exact ⟨s, rfl⟩
  | error d => simp [hresult, Except.isOk, Except.toBool] at hok

end Script

end Dialogue
