import Dialogue.Text.Basic

/-! # White space

The characters of Unicode's `White_Space` property, and texts with none of them at either end. -/

namespace Dialogue.Text

/-- The code points of `White_Space`, as closed ranges in ascending order. -/
def blankRanges : List (Nat × Nat) :=
  [(0x0009, 0x000D), (0x0020, 0x0020), (0x0085, 0x0085), (0x00A0, 0x00A0), (0x1680, 0x1680),
   (0x2000, 0x200A), (0x2028, 0x2029), (0x202F, 0x202F), (0x205F, 0x205F), (0x3000, 0x3000)]

def isBlank (c : Char) : Bool := blankRanges.any fun (lo, hi) => lo ≤ c.toNat && c.toNat ≤ hi

def trim (t : Text) : Text := dropEnd isBlank (t.dropWhile isBlank)

/-- White space alone leaves nothing when it is trimmed. -/
theorem trim_eq_nil_of_blank {t : Text} (h : ∀ c ∈ t, isBlank c = true) : t.trim = [] := by
  have : t.dropWhile isBlank = [] := by
    induction t with
    | nil => rfl
    | cons c t ih =>
      rw [List.dropWhile_cons_of_pos (h c (by simp))]
      exact ih fun d hd => h d (by simp [hd])
  rw [trim, this]
  rfl

end Dialogue.Text
