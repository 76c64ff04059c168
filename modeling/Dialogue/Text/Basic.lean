/-! # Text

A text is a list of characters: a line of input, a keyword phrase, a reply. Positions in a text are
counted in UTF-8 bytes. -/

namespace Dialogue

abbrev Text := List Char

namespace Text

/-- The number of bytes a text takes in UTF-8. -/
def byteLength : Text → Nat
  | [] => 0
  | c :: t => c.utf8Size + byteLength t

/-- One space on either side, so that a search for the padded text finds whole words only. -/
def pad (t : Text) : Text := ' ' :: t ++ [' ']

/-- A text less every character of a kind at its end. -/
def dropEnd (p : Char → Bool) (t : Text) : Text := (t.reverse.dropWhile p).reverse

/-- The characters of a kind at the end of a text. -/
def takeEnd (p : Char → Bool) (t : Text) : Text := (t.reverse.takeWhile p).reverse

/-- A text less its closing spaces. -/
def body (t : Text) : Text := dropEnd (· = ' ') t

def padding (t : Text) : Text := takeEnd (· = ' ') t

/-- The text before an ending, where a text has that ending. -/
def stripEnd? (ending t : Text) : Option Text :=
  if ending <:+ t then some (t.take (t.length - ending.length)) else none

def join (separator : Text) (ts : List Text) : Text := List.intercalate separator ts

def unlines (ts : List Text) : Text := ts.flatMap (· ++ ['\n'])

def ofNat (n : Nat) : Text := Nat.toDigits 10 n

theorem isDigit_of_mem_ofNat {n : Nat} {c : Char} (h : c ∈ ofNat n) : c.isDigit = true :=
  Nat.isDigit_of_mem_toDigits (Nat.succ_pos 9) (Nat.le_refl 10) h

theorem ofNat_injective {m n : Nat} (h : ofNat m = ofNat n) : m = n := by
  have hread := congrArg (fun t => Nat.ofDigitChars 10 t 0) h
  simpa only [ofNat, Nat.ofDigitChars_ten_toDigits] using hread

theorem unlines_append (ss ts : List Text) : unlines (ss ++ ts) = unlines ss ++ unlines ts := List.flatMap_append

/-- What stands before the first of a character. -/
theorem takeWhile_append_of_notMem {c : Char} {t : Text} (h : c ∉ t) (rest : Text) :
    (t ++ c :: rest).takeWhile (· ≠ c) = t := by
  have hall : ∀ d ∈ t, decide (d ≠ c) = true := fun d hd => decide_eq_true fun heq => h (heq ▸ hd)
  rw [List.takeWhile_append_of_pos hall, List.takeWhile_cons_of_neg (by simp), List.append_nil]

theorem dropEnd_append_takeEnd (p : Char → Bool) (t : Text) : dropEnd p t ++ takeEnd p t = t := by
  unfold dropEnd takeEnd
  rw [← List.reverse_append, List.takeWhile_append_dropWhile, List.reverse_reverse]

theorem dropEnd_append {p : Char → Bool} {t e : Text} (ht : ∀ c ∈ t.getLast?, p c = false)
    (he : ∀ c ∈ e, p c = true) : dropEnd p (t ++ e) = t := by
  have hrest : t.reverse.dropWhile p = t.reverse := by
    rw [List.getLast?_eq_head?_reverse] at ht
    cases hr : t.reverse with
    | nil => rfl
    | cons c s => rw [List.dropWhile_cons_of_neg (by simp [ht c (by simp [hr])])]
  rw [dropEnd, List.reverse_append, List.dropWhile_append_of_pos (by simpa using he), hrest, List.reverse_reverse]

theorem takeEnd_all (p : Char → Bool) (t : Text) : (takeEnd p t).all p = true := by
  rw [takeEnd, List.all_reverse]
  exact List.all_takeWhile

theorem countP_padding (t : Text) : t.padding.countP (· ≠ ' ') = 0 := by
  refine List.countP_eq_zero.mpr fun c hc => ?_
  simpa using List.all_eq_true.mp (takeEnd_all (· = ' ') t) c hc

theorem byteLength_append (s t : Text) : byteLength (s ++ t) = byteLength s + byteLength t := by
  induction s with
  | nil => simp [byteLength]
  | cons c s ih => simp [byteLength, ih, Nat.add_assoc]

end Text

end Dialogue
