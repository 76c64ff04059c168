import Dialogue.Report.Basic

/-! # Colour comes off

A sequence that selects a graphic rendition is an escape, a bracket, digits and an `m`. All of them can be
erased in one pass from the left (`erase`). No sequence goes on with a space, a line end or the beginning of
another one, so a text that is followed by one of these is erased on its own, whatever escapes it holds
itself. Painted texts always are, so a report comes to the same with colour and without. -/

namespace Dialogue

namespace Style
open Text
variable {t after code : Text} {c d : Char}

/-! ### Erasing -/

/-- The digits of a sequence. -/
def Code (code : Text) : Prop := code ≠ [] ∧ ∀ c ∈ code, c.isDigit = true

/-- The characters that a sequence goes on with behind its first. -/
def Inner (c : Char) : Prop := c = '[' ∨ c.isDigit = true ∨ c = 'm'

/-- What follows a sequence, where a text begins with one. -/
def afterSequence? (t : Text) : Option Text :=
  (afterStart? ['\x1b', '['] t).bind fun rest =>
    if rest.takeWhile Char.isDigit = [] then none else afterStart? ['m'] (rest.dropWhile Char.isDigit)

theorem afterSequence?_eq_some_iff : afterSequence? t = some after ↔ ∃ code, Code code ∧ t = sequence code ++ after := by
  rw [afterSequence?, Option.bind_eq_some_iff]
  constructor
  · rintro ⟨rest, hrest, h⟩
    split at h
    · cases h
    · rename_i hcode
      refine ⟨rest.takeWhile Char.isDigit, ⟨hcode, List.all_eq_true.mp List.all_takeWhile⟩, ?_⟩
      have hsplit : rest.takeWhile Char.isDigit ++ (['m'] ++ after) = rest := by
        rw [← afterStart?_eq_some_iff.mp h]
        exact List.takeWhile_append_dropWhile
      rw [afterStart?_eq_some_iff.mp hrest, sequence, List.append_assoc, List.append_assoc, hsplit]
  · rintro ⟨code, ⟨hne, hdigits⟩, rfl⟩
    have htake : (code ++ 'm' :: after).takeWhile Char.isDigit = code := by
      rw [List.takeWhile_append_of_pos hdigits, List.takeWhile_cons_of_neg (by simp), List.append_nil]
    have hdrop : (code ++ 'm' :: after).dropWhile Char.isDigit = 'm' :: after := by
      rw [List.dropWhile_append_of_pos hdigits, List.dropWhile_cons_of_neg (by simp)]
    refine ⟨code ++ 'm' :: after, afterStart?_eq_some_iff.mpr (by simp [sequence]), ?_⟩
    rw [htake, hdrop, if_neg hne]
    rfl

theorem length_lt_of_afterSequence? (h : afterSequence? t = some after) : after.length < t.length := by
  obtain ⟨code, -, rfl⟩ := afterSequence?_eq_some_iff.mp h
  simp only [sequence, List.length_append, List.length_cons]
  omega

/-- A text less all its sequences. -/
def erase (t : Text) : Text :=
  match t with
  | [] => []
  | c :: t =>
    match h : afterSequence? (c :: t) with
    | none => c :: erase t
    | some after =>
      have := length_lt_of_afterSequence? h
      erase after
termination_by t.length
decreasing_by
  · exact Nat.lt_succ_self _
  · exact this

@[simp]
theorem erase_nil : erase [] = [] := by rw [erase]

theorem erase_of_none (h : afterSequence? (c :: t) = none) : erase (c :: t) = c :: erase t := by
  rw [erase]
  split
  · rfl
  · simp_all

theorem erase_of_some (h : afterSequence? (c :: t) = some after) : erase (c :: t) = erase after := by
  rw [erase]
  split
  · simp_all
  · rename_i after' h'
    cases h.symm.trans h'
    rfl

theorem erase_sequence_append (h : Code code) (t : Text) : erase (sequence code ++ t) = erase t :=
  erase_of_some (afterSequence?_eq_some_iff.mpr ⟨code, h, rfl⟩)

theorem afterSequence?_of_ne (h : c ≠ '\x1b') (t : Text) : afterSequence? (c :: t) = none := by
  rw [afterSequence?, afterStart?, if_neg h.symm, Option.bind_none]

@[simp]
theorem erase_cons (h : c ≠ '\x1b') (t : Text) : erase (c :: t) = c :: erase t :=
  erase_of_none (afterSequence?_of_ne h t)

/-- A sequence that begins in a text ends in it, unless the next character goes on with it. -/
theorem afterSequence?_append (h : ¬ Inner d) (c : Char) (s t : Text) :
    afterSequence? (c :: (s ++ d :: t)) = (afterSequence? (c :: s)).map (· ++ d :: t) := by
  refine Option.ext fun after => ?_
  rw [Option.map_eq_some_iff]
  constructor
  · intro hafter
    obtain ⟨code, hcode, heq⟩ := afterSequence?_eq_some_iff.mp hafter
    rw [← List.cons_append] at heq
    rcases List.append_eq_append_iff.mp heq with ⟨rest, hseq, hrest⟩ | ⟨rest, hs, rfl⟩
    · cases rest with
      | nil =>
        refine ⟨[], afterSequence?_eq_some_iff.mpr ⟨code, hcode, ?_⟩, hrest⟩
        rw [hseq, List.append_nil, List.append_nil]
      | cons e rest =>
        -- The sequence would go on behind the text.
        obtain ⟨rfl, rfl⟩ := List.cons.inj hrest
        have hmem : d ∈ '[' :: (code ++ ['m']) := by
          rw [show '[' :: (code ++ ['m']) = s ++ d :: rest from (List.cons.inj hseq).2]
          simp
        refine absurd ?_ h
        rcases List.mem_cons.mp hmem with rfl | hmem
        · exact Or.inl rfl
        rcases List.mem_append.mp hmem with hmem | hmem
        · exact Or.inr (Or.inl (hcode.2 d hmem))
        · exact Or.inr (Or.inr (List.mem_singleton.mp hmem))
    · exact ⟨rest, afterSequence?_eq_some_iff.mpr ⟨code, hcode, hs⟩, rfl⟩
  · rintro ⟨rest, hrest, rfl⟩
    obtain ⟨code, hcode, heq⟩ := afterSequence?_eq_some_iff.mp hrest
    refine afterSequence?_eq_some_iff.mpr ⟨code, hcode, ?_⟩
    rw [← List.cons_append, heq, List.append_assoc]

/-- What comes before a character that goes on with no sequence is erased on its own. -/
theorem erase_append (h : ¬ Inner d) (s t : Text) : erase (s ++ d :: t) = erase s ++ erase (d :: t) := by
  induction s using erase.induct with
  | case1 => rw [erase_nil, List.nil_append, List.nil_append]
  | case2 c s ho ih =>
    have hafter := afterSequence?_append h c s t
    rw [ho, Option.map_none] at hafter
    rw [List.cons_append, erase_of_none hafter, erase_of_none ho, ih, List.cons_append]
  | case3 c s rest ho _ ih =>
    have hafter := afterSequence?_append h c s t
    rw [ho, Option.map_some] at hafter
    rw [List.cons_append, erase_of_some hafter, erase_of_some ho, ih]

/-! ### Painting -/

theorem code_code (style : Style) : Code style.code := by
  cases style <;> exact ⟨List.cons_ne_nil _ _, by simp [code]⟩

theorem not_inner_escape : ¬ Inner '\x1b' := by simp [Inner]

theorem not_inner_space : ¬ Inner ' ' := by simp [Inner]

theorem not_inner_feed : ¬ Inner '\n' := by simp [Inner]

@[simp]
theorem erase_append_space (s t : Text) : erase (s ++ ' ' :: t) = erase s ++ ' ' :: erase t := by
  rw [erase_append not_inner_space, erase_cons (by simp)]

/-- A painted text that ends a sequence comes to the text, also where it ends in the beginning of one. -/
theorem erase_paint_append (colour : Bool) (style : Style) (h : ¬ Inner d) (s t : Text) :
    erase (paint colour style s ++ d :: t) = erase s ++ erase (d :: t) := by
  cases colour with
  | false => exact erase_append h s t
  | true =>
    have hreset : Code ['0'] := ⟨List.cons_ne_nil _ _, by simp⟩
    have htext : paint true style s ++ d :: t = sequence style.code ++ (s ++ (sequence ['0'] ++ d :: t)) := by
      simp [paint]
    rw [htext, erase_sequence_append (code_code style)]
    exact (erase_append not_inner_escape s _).trans (congrArg _ (erase_sequence_append hreset _))

@[simp]
theorem erase_paint (colour : Bool) (style : Style) (s : Text) : erase (paint colour style s) = erase s := by
  have hpainted := erase_paint_append colour style not_inner_feed s []
  rw [erase_append not_inner_feed] at hpainted
  exact List.append_cancel_right hpainted

/-- Every line is erased on its own. -/
theorem erase_unlines (ls : List Text) (t : Text) : erase (unlines ls ++ t) = unlines (ls.map erase) ++ erase t := by
  induction ls with
  | nil => rfl
  | cons l ls ih =>
    have hcons (ls : List Text) (l : Text) : unlines (l :: ls) = l ++ '\n' :: unlines ls := by simp [unlines]
    rw [List.map_cons, hcons, hcons, List.append_assoc, List.cons_append, erase_append not_inner_feed,
      erase_cons (by simp), ih, List.append_assoc, List.cons_append]

end Style

namespace Report
open Text Style

/-! ### Reports -/

theorem erase_field (colour : Bool) (label : String) (value : Text) :
    erase (field colour label value) = ' ' :: ' ' :: (erase label.toList ++ ' ' :: erase value) := by
  simp [field]

theorem erase_ruleLine (colour : Bool) (c : Choice) : erase (ruleLine colour c) = erase (ruleLine false c) := by
  simp [ruleLine, erase_field]

theorem erase_rotationLine (colour : Bool) (t : Telling) : erase (rotationLine colour t) = erase (rotationLine false t) := by
  simp [rotationLine, erase_field]

theorem erase_footer (colour : Bool) (took : Text) (s : Flags) :
    erase (footer colour took s) = erase (footer false took s) := by
  simp [footer, erase_field]

theorem map_erase_toList {α : Type} {f g : α → Text} (h : ∀ x, erase (f x) = erase (g x)) (o : Option α) :
    (o.map f).toList.map erase = (o.map g).toList.map erase := by
  cases o with
  | none => rfl
  | some x => exact congrArg ([·]) (h x)

theorem map_erase_courseLines (colour : Bool) (a : Answer) :
    (courseLines colour a).map erase = (courseLines false a).map erase := by
  unfold courseLines
  cases a.choice? with
  | none => simp
  | some choice =>
    have hlabel (label : String) (value : Text) : erase (field colour label value) = erase (field false label value) := by
      rw [erase_field, erase_field]
    have hremainder : (if a.remainder = [] then [] else [field colour "remainder:" (quote a.remainder)]).map erase =
        (if a.remainder = [] then [] else [field false "remainder:" (quote a.remainder)]).map erase := by
      split
      · rfl
      · exact congrArg ([·]) (hlabel _ _)
    simp only [List.map_append, List.map_cons, List.map_nil, erase_ruleLine colour, map_erase_toList (hlabel "template:"),
      hremainder, map_erase_toList fun t => hlabel "conjugated:" (quote t), map_erase_toList (erase_rotationLine colour)]

/-- A report comes to the same with colour and without. -/
theorem map_erase_lines (colour : Bool) (took : Text) (a : Answer) :
    (lines colour took a).map erase = (lines false took a).map erase := by
  have hquery : erase (field colour "query:" (paint colour .cyan (quote a.query))) =
      erase (field false "query:" (paint false .cyan (quote a.query))) := by simp [erase_field]
  simp only [lines, List.map_append, List.map_cons, List.map_nil, map_erase_courseLines colour a, erase_footer colour,
    erase_paint, hquery]

end Report

end Dialogue
