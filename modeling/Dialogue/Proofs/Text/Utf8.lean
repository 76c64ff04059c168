import Mathlib.Data.List.Basic
import Dialogue.Text.Lines

/-! # Texts and their bytes

A character below 128 is one byte of that number, and no byte of another character is below 128. So the
lines of a text are the same whether it is cut as characters or as bytes, and a byte stream is text when
each of its lines is (`lines_ofText`, `exists_text_of_lines`). -/

namespace Dialogue

/-! ### Cutting -/

section Cut
variable {α : Type}

/-- Puts a sequence before the first piece. -/
def glue (xs : List α) : List (List α) → List (List α)
  | [] => [xs]
  | piece :: pieces => (xs ++ piece) :: pieces

theorem glue_glue (xs ys : List α) (ps : List (List α)) : glue xs (glue ys ps) = glue (xs ++ ys) ps := by
  cases ps <;> simp [glue]

theorem map_glue {β : Type} {f : List α → List β} (hf : ∀ xs ys, f (xs ++ ys) = f xs ++ f ys) (xs : List α)
    (ps : List (List α)) : (glue xs ps).map f = glue (f xs) (ps.map f) := by
  cases ps <;> simp [glue, hf]

theorem glue_append (xs : List α) {ps : List (List α)} (h : ps ≠ []) (qs : List (List α)) :
    glue xs (ps ++ qs) = glue xs ps ++ qs := by
  cases ps with
  | nil => exact absurd rfl h
  | cons piece pieces => rfl

variable [DecidableEq α] {stop feed carriage : α}

theorem cutAfter_cons_of_ne {c : α} (h : c ≠ stop) (rest : List α) :
    cutAfter stop (c :: rest) = glue [c] (cutAfter stop rest) := by
  rw [cutAfter, if_neg h]
  cases cutAfter stop rest <;> rfl

theorem cutAfter_append_of_notMem {xs : List α} (hne : xs ≠ []) (h : stop ∉ xs) (rest : List α) :
    cutAfter stop (xs ++ rest) = glue xs (cutAfter stop rest) := by
  induction xs with
  | nil => exact absurd rfl hne
  | cons c xs ih =>
    have hc : c ≠ stop := fun hc => h (hc ▸ List.mem_cons_self)
    rw [List.cons_append, cutAfter_cons_of_ne hc]
    by_cases hxs : xs = []
    · rw [hxs, List.nil_append]
    · rw [ih hxs (fun hm => h (List.mem_cons_of_mem c hm)), glue_glue]
      rfl

/-- Where no piece is open, what follows is cut on its own. -/
theorem cutAfter_append_of_ends {xs : List α} (h : xs = [] ∨ xs.getLast? = some stop) (rest : List α) :
    cutAfter stop (xs ++ rest) = cutAfter stop xs ++ cutAfter stop rest := by
  induction xs with
  | nil => rfl
  | cons c xs ih =>
    have hends : xs = [] ∨ xs.getLast? = some stop := by
      cases xs with
      | nil => exact Or.inl rfl
      | cons d xs => exact Or.inr (by simpa using h)
    rw [List.cons_append]
    by_cases hc : c = stop
    · rw [cutAfter, cutAfter, if_pos hc, if_pos hc, ih hends, List.cons_append]
    · have hne : cutAfter stop xs ≠ [] := by
        intro hnil
        have hxs : xs = [] := by rw [← flatten_cutAfter stop xs, hnil, List.flatten_nil]
        rw [hxs] at h
        simp [hc] at h
      rw [cutAfter_cons_of_ne hc, cutAfter_cons_of_ne hc, ih hends, glue_append _ hne]

/-- A piece holds a stop at its end at most. -/
theorem exists_of_mem_cutAfter {xs piece : List α} (h : piece ∈ cutAfter stop xs) :
    ∃ line, stop ∉ line ∧ (piece = line ∨ piece = line ++ [stop]) := by
  induction xs generalizing piece with
  | nil => cases h
  | cons c xs ih =>
    by_cases hc : c = stop
    · rw [cutAfter, if_pos hc] at h
      rcases List.mem_cons.mp h with rfl | h
      · exact ⟨[], List.not_mem_nil, Or.inr (congrArg ([·]) hc)⟩
      · exact ih h
    · rw [cutAfter_cons_of_ne hc] at h
      cases hcut : cutAfter stop xs with
      | nil =>
        rw [hcut] at h
        obtain rfl := List.mem_singleton.mp h
        exact ⟨[c], by simpa using Ne.symm hc, Or.inl rfl⟩
      | cons first pieces =>
        rw [hcut] at h ih
        rcases List.mem_cons.mp h with rfl | h
        · obtain ⟨line, hline, hfirst⟩ := ih List.mem_cons_self
          exact ⟨c :: line, List.not_mem_cons_of_ne_of_not_mem (Ne.symm hc) hline,
            hfirst.imp (congrArg (c :: ·)) (congrArg (c :: ·))⟩
        · exact ih (List.mem_cons_of_mem first h)

/-- Lines that end in a stop each are cut apart. -/
theorem cutAfter_flatMap_stop {lines : List (List α)} (h : ∀ line ∈ lines, stop ∉ line) :
    cutAfter stop (lines.flatMap (· ++ [stop])) = lines.map (· ++ [stop]) := by
  induction lines with
  | nil => rfl
  | cons line lines ih =>
    obtain ⟨hline, hlines⟩ := List.forall_mem_cons.mp h
    have hpiece : cutAfter stop (line ++ [stop]) = [line ++ [stop]] := by
      by_cases hne : line = []
      · simp [hne, cutAfter]
      · rw [cutAfter_append_of_notMem hne hline]
        simp [cutAfter, glue]
    rw [List.flatMap_cons, cutAfter_append_of_ends (Or.inr List.getLast?_concat), hpiece, ih hlines, List.map_cons,
      List.singleton_append]

/-- What a piece loses is its line end. -/
theorem dropLineEnd_append (feed carriage : α) (piece : List α) :
    ∃ e ∈ [[], [feed], [carriage, feed]], piece = dropLineEnd feed carriage piece ++ e := by
  unfold dropLineEnd
  split
  · rename_i hfeed
    obtain ⟨xs, rfl⟩ := List.getLast?_eq_some_iff.mp hfeed
    rw [List.dropLast_concat]
    split
    · rename_i hcarriage
      obtain ⟨ys, rfl⟩ := List.getLast?_eq_some_iff.mp hcarriage
      exact ⟨[carriage, feed], by simp, by simp⟩
    · exact ⟨[feed], by simp, rfl⟩
  · exact ⟨[], by simp, by simp⟩

end Cut

/-! ### Bytes of characters -/

namespace Bytes

/-- The UTF-8 form of a text. -/
def ofText (t : Text) : Bytes := t.flatMap String.utf8EncodeChar

theorem ofText_append (s t : Text) : ofText (s ++ t) = ofText s ++ ofText t := List.flatMap_append

theorem ofText_cons (c : Char) (t : Text) : ofText (c :: t) = String.utf8EncodeChar c ++ ofText t := List.flatMap_cons

theorem ofText_concat (t : Text) (c : Char) : ofText (t ++ [c]) = ofText t ++ String.utf8EncodeChar c := by
  rw [ofText_append, ofText_cons]
  exact congrArg _ (List.append_nil _)

theorem text?_eq_some_iff {b : Bytes} {t : Text} : b.text? = some t ↔ b = ofText t := by
  constructor
  · intro h
    obtain ⟨s, hs, rfl⟩ := Option.map_eq_some_iff.mp h
    rw [String.fromUTF8?] at hs
    split at hs
    · cases hs
      refine List.toByteArray_inj.mp ?_
      exact (String.utf8Encode_toList (b := String.fromUTF8 b.toByteArray _)).symm
    · cases hs
  · rintro rfl
    have hvalid : (ofText t).toByteArray.IsValidUTF8 := ByteArray.isValidUTF8_utf8Encode (l := t)
    have hs : String.fromUTF8 (ofText t).toByteArray hvalid = String.ofList t := rfl
    rw [text?, String.fromUTF8?, dif_pos hvalid, hs, Option.map_some, String.toList_ofList]

theorem utf8EncodeChar_of_lt {c : Char} (h : c.toNat < 128) : String.utf8EncodeChar c = [UInt8.ofNat c.toNat] :=
  if_pos (Nat.le_of_lt_succ h)

theorem le_of_mem_utf8EncodeChar {c : Char} (h : 128 ≤ c.toNat) {x : UInt8} (hx : x ∈ String.utf8EncodeChar c) :
    128 ≤ x.toNat := by
  have hc : ¬ c.val.toNat ≤ 127 := Nat.not_le_of_lt h
  simp only [String.utf8EncodeChar, if_neg hc] at hx
  split_ifs at hx <;> simp only [List.mem_cons, List.not_mem_nil, or_false] at hx
  · rcases hx with rfl | rfl <;> simp <;> omega
  · rcases hx with rfl | rfl | rfl <;> simp <;> omega
  · rcases hx with rfl | rfl | rfl | rfl <;> simp <;> omega

/-- The byte of a character below 128 occurs in no other character. -/
theorem mem_utf8EncodeChar_iff {c d : Char} (hd : d.toNat < 128) :
    UInt8.ofNat d.toNat ∈ String.utf8EncodeChar c ↔ c = d := by
  constructor
  · intro hm
    by_cases hc : c.toNat < 128
    · rw [utf8EncodeChar_of_lt hc, List.mem_singleton] at hm
      have := congrArg UInt8.toNat hm
      simp only [UInt8.toNat_ofNat'] at this
      refine Char.ext (UInt32.toNat_inj.mp ?_)
      show c.toNat = d.toNat
      omega
    · have := le_of_mem_utf8EncodeChar (Nat.le_of_not_lt hc) hm
      simp only [UInt8.toNat_ofNat'] at this
      omega
  · rintro rfl
    rw [utf8EncodeChar_of_lt hd]
    exact List.mem_singleton_self _

theorem mem_ofText_iff {d : Char} (hd : d.toNat < 128) {t : Text} : UInt8.ofNat d.toNat ∈ ofText t ↔ d ∈ t := by
  simp only [ofText, List.mem_flatMap, mem_utf8EncodeChar_iff hd, exists_eq_right]

/-! ### Lines -/

theorem getLast?_ofText_eq_some_iff {d : Char} (hd : d.toNat < 128) {t : Text} :
    (ofText t).getLast? = some (UInt8.ofNat d.toNat) ↔ t.getLast? = some d := by
  rcases List.eq_nil_or_concat' t with rfl | ⟨t, c, rfl⟩
  · simp [ofText]
  · rw [ofText_concat, List.getLast?_append_of_ne_nil _ (String.utf8EncodeChar_ne_nil), List.getLast?_concat]
    constructor
    · intro h
      rw [(mem_utf8EncodeChar_iff hd).mp (List.mem_of_getLast? h)]
    · intro h
      cases h
      rw [utf8EncodeChar_of_lt hd, List.getLast?_singleton]

theorem dropLast_ofText {d : Char} (hd : d.toNat < 128) {t : Text} (h : t.getLast? = some d) :
    (ofText t).dropLast = ofText t.dropLast := by
  obtain ⟨t, rfl⟩ := List.getLast?_eq_some_iff.mp h
  rw [ofText_concat, utf8EncodeChar_of_lt hd, List.dropLast_concat, List.dropLast_concat]

theorem dropLineEnd_ofText (piece : Text) : dropLineEnd 10 13 (ofText piece) = ofText (dropLineEnd '\n' '\r' piece) := by
  have hfeed {t : Text} : (ofText t).getLast? = some 10 ↔ t.getLast? = some '\n' :=
    getLast?_ofText_eq_some_iff (d := '\n') (by decide)
  have hcarriage {t : Text} : (ofText t).getLast? = some 13 ↔ t.getLast? = some '\r' :=
    getLast?_ofText_eq_some_iff (d := '\r') (by decide)
  unfold dropLineEnd
  by_cases hf : piece.getLast? = some '\n'
  · rw [if_pos (hfeed.mpr hf), if_pos hf, dropLast_ofText (by decide) hf]
    by_cases hc : piece.dropLast.getLast? = some '\r'
    · rw [if_pos (hcarriage.mpr hc), if_pos hc, dropLast_ofText (by decide) hc]
    · rw [if_neg (mt hcarriage.mp hc), if_neg hc]
  · rw [if_neg (mt hfeed.mp hf), if_neg hf]

theorem cutAfter_ofText (t : Text) : cutAfter 10 (ofText t) = (cutAfter '\n' t).map ofText := by
  induction t with
  | nil => rfl
  | cons c t ih =>
    rw [ofText_cons]
    by_cases hc : c = '\n'
    · rw [hc, utf8EncodeChar_of_lt (by decide), cutAfter, if_pos rfl, List.map_cons, ← ih]
      rfl
    · have hnot : 10 ∉ String.utf8EncodeChar c := mt (mem_utf8EncodeChar_iff (d := '\n') (by decide)).mp hc
      rw [cutAfter_append_of_notMem (String.utf8EncodeChar_ne_nil) hnot, ih, cutAfter_cons_of_ne hc,
        map_glue ofText_append]
      exact congrArg (glue · _) (List.append_nil _).symm

theorem lines_ofText (t : Text) : (ofText t).lines = t.lines.map some := by
  rw [lines, pieces, cutAfter_ofText, Text.lines, List.map_map, List.map_map]
  refine List.map_congr_left fun piece _ => ?_
  exact text?_eq_some_iff.mpr (dropLineEnd_ofText piece)

theorem exists_text_flatten {ps : List Bytes} (h : ∀ p ∈ ps, ∃ t, p = ofText t) : ∃ t, ps.flatten = ofText t := by
  induction ps with
  | nil => exact ⟨[], rfl⟩
  | cons p ps ih =>
    obtain ⟨s, rfl⟩ := h p List.mem_cons_self
    obtain ⟨t, ht⟩ := ih fun q hq => h q (List.mem_cons_of_mem _ hq)
    exact ⟨s ++ t, by rw [List.flatten_cons, ht, ofText_append]⟩

/-- The bytes between line ends decide whether a stream is text: line ends are characters of their own. -/
theorem exists_text_of_lines {b : Bytes} (h : none ∉ b.lines) : ∃ t, b = ofText t := by
  rw [← flatten_cutAfter 10 b]
  refine exists_text_flatten fun piece hpiece => ?_
  have hline : text? (dropLineEnd 10 13 piece) ≠ none := fun hnone => h (List.mem_map.mpr ⟨piece, hpiece, hnone⟩)
  obtain ⟨line, hline⟩ := Option.ne_none_iff_exists'.mp hline
  obtain ⟨e, he, hpiece⟩ := dropLineEnd_append 10 13 piece
  obtain ⟨t, rfl⟩ : ∃ t, e = ofText t := by
    simp only [List.mem_cons, List.not_mem_nil, or_false] at he
    rcases he with rfl | rfl | rfl
    · exact ⟨[], rfl⟩
    · exact ⟨['\n'], rfl⟩
    · exact ⟨['\r', '\n'], rfl⟩
  exact ⟨line ++ t, by rw [hpiece, text?_eq_some_iff.mp hline, ofText_append]⟩

end Bytes

end Dialogue
