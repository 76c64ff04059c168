import Dialogue.Text.Occurrence

/-! # Texts cut by bytes

A place in a text is a number of bytes. A text can be cut there when the number is the length of some
opening of it: not inside a character, and not behind the end. All else that works on places is a cut. -/

namespace Dialogue.Text

/-- The text before a place and the text from it on. -/
def cutAt? : Nat → Text → Option (Text × Text)
  | n, [] => if n = 0 then some ([], []) else none
  | n, c :: t =>
    if n = 0 then some ([], c :: t)
    else if c.utf8Size ≤ n then (cutAt? (n - c.utf8Size) t).map fun (before, after) => (c :: before, after)
    else none

/-- The text from a place on. -/
def dropBytes? (start : Nat) (t : Text) : Option Text := (cutAt? start t).map (·.2)

/-- The text between two places. -/
def slice? (start stop : Nat) (t : Text) : Option Text := do
  let (head, _) ← cutAt? stop t
  dropBytes? start head

/-- The text with another in place of what stands between two places. -/
def splice? (start stop : Nat) (replacement t : Text) : Option Text := do
  let (head, after) ← cutAt? stop t
  let (before, _) ← cutAt? start head
  return before ++ replacement ++ after

/-- The place of the leftmost occurrence. -/
def find? (needle t : Text) : Option Nat := (occurrence? needle t).map (·.before.byteLength)

variable {t before after : Text} {n : Nat}

theorem byteLength_pad (t : Text) : byteLength (pad t) = byteLength (' ' :: t) + 1 :=
  byteLength_append (' ' :: t) [' ']

theorem byteLength_eq_zero_iff : byteLength t = 0 ↔ t = [] := by
  cases t with
  | nil => exact iff_of_true rfl rfl
  | cons c t => exact iff_of_false (Nat.ne_of_gt (Nat.add_pos_left c.utf8Size_pos _)) (List.cons_ne_nil c t)

/-- Of two openings of a text, the one of fewer bytes opens the other. -/
theorem prefix_iff_byteLength_le {s : Text} (hs : s <+: t) (hbefore : before <+: t) :
    s <+: before ↔ s.byteLength ≤ before.byteLength := by
  constructor
  · rintro ⟨rest, rfl⟩
    rw [byteLength_append]
    exact Nat.le_add_right _ _
  · intro hle
    rcases List.prefix_or_prefix_of_prefix hs hbefore with h | ⟨rest, rfl⟩
    · exact h
    · rw [byteLength_append] at hle
      have hrest : rest = [] := byteLength_eq_zero_iff.mp (by omega)
      exact ⟨[], by simp [hrest]⟩

theorem cutAt?_append (before after : Text) : cutAt? before.byteLength (before ++ after) = some (before, after) := by
  induction before with
  | nil => cases after <;> rfl
  | cons c before ih =>
    have hpos : c.utf8Size + byteLength before ≠ 0 := Nat.ne_of_gt (Nat.add_pos_left c.utf8Size_pos _)
    rw [byteLength, List.cons_append, cutAt?, if_neg hpos, if_pos (Nat.le_add_right _ _), Nat.add_sub_cancel_left, ih]
    rfl

theorem cutAt?_eq_some_iff : cutAt? n t = some (before, after) ↔ t = before ++ after ∧ before.byteLength = n := by
  constructor
  · intro h
    induction t generalizing n before with
    | nil =>
      rw [cutAt?] at h
      split at h <;> cases h
      exact ⟨rfl, by simp_all [byteLength]⟩
    | cons c t ih =>
      rw [cutAt?] at h
      split at h
      · cases h
        exact ⟨rfl, by simp_all [byteLength]⟩
      · split at h
        · obtain ⟨⟨before', after'⟩, hcut, h⟩ := Option.map_eq_some_iff.mp h
          cases h
          obtain ⟨rfl, hlen⟩ := ih hcut
          exact ⟨rfl, by rw [byteLength, hlen]; omega⟩
        · cases h
  · rintro ⟨rfl, rfl⟩
    exact cutAt?_append before after

/-- A text can be dropped up to the places where it can be cut. -/
theorem dropBytes?_eq_some_iff :
    dropBytes? n t = some after ↔ ∃ before, t = before ++ after ∧ before.byteLength = n := by
  rw [dropBytes?, Option.map_eq_some_iff]
  constructor
  · rintro ⟨⟨before, after⟩, hcut, rfl⟩
    exact ⟨before, cutAt?_eq_some_iff.mp hcut⟩
  · rintro ⟨before, h⟩
    exact ⟨(before, after), cutAt?_eq_some_iff.mpr h, rfl⟩

theorem dropBytes?_append (before after : Text) : dropBytes? before.byteLength (before ++ after) = some after :=
  dropBytes?_eq_some_iff.mpr ⟨before, rfl, rfl⟩

theorem slice?_append (before t after : Text) :
    slice? before.byteLength (before ++ t).byteLength (before ++ t ++ after) = some t := by
  rw [slice?, cutAt?_append]
  exact dropBytes?_append before t

theorem splice?_append (before t after replacement : Text) :
    splice? before.byteLength (before ++ t).byteLength replacement (before ++ t ++ after) =
      some (before ++ replacement ++ after) := by
  rw [splice?, cutAt?_append]
  show (cutAt? before.byteLength (before ++ t)).bind _ = _
  rw [cutAt?_append]
  rfl

end Dialogue.Text
