import Dialogue.Text.Basic

/-! # Occurrences

The leftmost occurrence of one text in another, as the text before it and the text after it. -/

namespace Dialogue.Text

structure Occurrence where
  before : Text
  after : Text
deriving DecidableEq, Repr

/-- What follows an opening, where a text opens with it. -/
def afterStart? : Text → Text → Option Text
  | [], t => some t
  | _ :: _, [] => none
  | n :: ns, c :: t => if n = c then afterStart? ns t else none

/-- A text less an opening, as often as it opens with it. -/
def dropStarts (opening t : Text) : Text :=
  match afterStart? opening t with
  | some after => if after.length < t.length then dropStarts opening after else t
  | none => t
termination_by t.length

/-- The leftmost occurrence of `needle`. -/
def occurrence? (needle : Text) : Text → Option Occurrence
  | [] => (afterStart? needle []).map fun after => ⟨[], after⟩
  | c :: t =>
    match afterStart? needle (c :: t) with
    | some after => some ⟨[], after⟩
    | none => (occurrence? needle t).map fun o => ⟨c :: o.before, o.after⟩

theorem afterStart?_eq_some_iff {needle t after : Text} :
    afterStart? needle t = some after ↔ t = needle ++ after := by
  induction needle generalizing t with
  | nil => simp [afterStart?, eq_comm]
  | cons n ns ih =>
    cases t with
    | nil => simp [afterStart?]
    | cons c t =>
      by_cases h : n = c
      · simp [afterStart?, h, ih]
      · simp [afterStart?, h, Ne.symm h]

/-- The parts of an occurrence, with the needle between them, make up the text. -/
theorem eq_of_occurrence? {needle t : Text} {o : Occurrence} (h : occurrence? needle t = some o) :
    t = o.before ++ needle ++ o.after := by
  induction t generalizing o with
  | nil =>
    obtain ⟨after, ha, rfl⟩ := Option.map_eq_some_iff.mp h
    simpa using afterStart?_eq_some_iff.mp ha
  | cons c t ih =>
    rw [occurrence?] at h
    split at h
    · rename_i after ha
      cases h
      simpa using afterStart?_eq_some_iff.mp ha
    · obtain ⟨o', ho, rfl⟩ := Option.map_eq_some_iff.mp h
      simpa using ih ho

theorem afterStart?_eq_none_iff {needle t : Text} : afterStart? needle t = none ↔ ¬ needle <+: t := by
  rw [Option.eq_none_iff_forall_ne_some, List.IsPrefix, not_exists]
  exact forall_congr' fun after => not_congr (afterStart?_eq_some_iff.trans eq_comm)

/-- A search fails on the texts that hold no needle. -/
theorem occurrence?_eq_none_iff {needle t : Text} : occurrence? needle t = none ↔ ¬ needle <:+: t := by
  induction t with
  | nil => simp [occurrence?, afterStart?_eq_none_iff]
  | cons c t ih =>
    rw [occurrence?, List.infix_cons_iff, not_or, ← afterStart?_eq_none_iff, ← ih]
    cases afterStart? needle (c :: t) <;> simp

/-- No occurrence starts before the one that is found. -/
theorem before_prefix_of_occurrence? {needle t before after : Text} {o : Occurrence}
    (h : occurrence? needle t = some o) (ht : t = before ++ needle ++ after) : o.before <+: before := by
  induction t generalizing o before with
  | nil =>
    obtain ⟨rest, -, rfl⟩ := Option.map_eq_some_iff.mp h
    exact List.nil_prefix
  | cons c t ih =>
    rw [occurrence?] at h
    split at h
    · cases h
      exact List.nil_prefix
    · rename_i hstart
      obtain ⟨o', ho, rfl⟩ := Option.map_eq_some_iff.mp h
      cases before with
      | nil => exact absurd ⟨after, ht.symm⟩ (afterStart?_eq_none_iff.mp hstart)
      | cons d before =>
        obtain ⟨rest, hrest⟩ := ih ho (List.tail_eq_of_cons_eq ht)
        exact ⟨rest, by rw [List.head_eq_of_cons_eq ht, List.cons_append, hrest]⟩

/-- A search gives the parts of an occurrence just when none starts before it. -/
theorem occurrence?_eq_some_iff {needle t : Text} {o : Occurrence} : occurrence? needle t = some o ↔
    t = o.before ++ needle ++ o.after ∧ ∀ before after, t = before ++ needle ++ after → o.before <+: before := by
  constructor
  · intro h
    exact ⟨eq_of_occurrence? h, fun _ _ => before_prefix_of_occurrence? h⟩
  · rintro ⟨ht, hleft⟩
    have hoccurs : needle <:+: t := ⟨o.before, o.after, ht.symm⟩
    obtain ⟨⟨before, after⟩, ho⟩ := Option.ne_none_iff_exists'.mp fun h => occurrence?_eq_none_iff.mp h hoccurs
    have ht' : t = before ++ needle ++ after := eq_of_occurrence? ho
    have hbefore : before = o.before :=
      (before_prefix_of_occurrence? ho ht).eq_of_length_le (hleft before after ht').length_le
    have hafter : after = o.after := by
      rw [hbefore, ht] at ht'
      exact (List.append_cancel_left ht').symm
    rw [ho, hbefore, hafter]

theorem occurrence?_self (t : Text) : occurrence? t t = some ⟨[], []⟩ :=
  occurrence?_eq_some_iff.mpr ⟨(List.append_nil _).symm, fun _ _ _ => List.nil_prefix⟩

end Dialogue.Text
