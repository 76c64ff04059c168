import Dialogue.Conjugation.Basic
import Dialogue.Proofs.Text.Slice

/-! # Replacing in place

A swap runs over its text with a place from which it looks on, and the text under that place grows and
shrinks. The place is always one where the text can be cut, and what comes out is what the swap gives
(`scan?_append`). -/

namespace Dialogue
open Text

namespace Swap
variable {s : Swap} {t rest next : Text} {start found : Nat} {o : Occurrence}

/-- Both ends of the subject are places in the text. What is written ends where the scan looks on, at the
    closing spaces of the replacement. -/
theorem splice?_found (before : Text) (ho : occurrence? s.subject rest = some o) :
    splice? (before.byteLength + o.before.byteLength)
        (before.byteLength + o.before.byteLength + s.subject.byteLength) s.replacement (before ++ rest) =
      some (before ++ o.before ++ s.replacement.body ++ (s.replacement.padding ++ o.after)) := by
  have hsplice := splice?_append (before ++ o.before) s.subject o.after s.replacement
  have htext : before ++ rest = before ++ o.before ++ s.subject ++ o.after := by
    rw [eq_of_occurrence? ho]
    simp only [List.append_assoc]
  have hwritten : s.replacement.body ++ s.replacement.padding = s.replacement := dropEnd_append_takeEnd _ _
  rw [htext, ← byteLength_append, ← byteLength_append, hsplice, ← List.append_assoc _ s.replacement.padding,
    List.append_assoc _ s.replacement.body, hwritten]

theorem dropBytes?_resume (s : Swap) (before : Text) (o : Occurrence) :
    dropBytes? (before.byteLength + o.before.byteLength + s.replacement.body.byteLength)
        (before ++ o.before ++ s.replacement.body ++ (s.replacement.padding ++ o.after)) =
      some (s.replacement.padding ++ o.after) := by
  rw [← byteLength_append, ← byteLength_append]
  exact dropBytes?_append _ _

/-- What is left to look through gets smaller. -/
theorem measure_resume_lt (hrest : dropBytes? start t = some rest) (hfound : find? s.subject rest = some found)
    (hnext : splice? (start + found) (start + found + s.subject.byteLength) s.replacement t = some next) :
    s.measure ((dropBytes? (start + found + s.replacement.body.byteLength) next).getD []) <
      s.measure ((dropBytes? start t).getD []) := by
  obtain ⟨o, ho, rfl⟩ := Option.map_eq_some_iff.mp hfound
  obtain ⟨before, rfl, rfl⟩ := dropBytes?_eq_some_iff.mp hrest
  cases hnext.symm.trans (splice?_found before ho)
  rw [dropBytes?_resume, hrest]
  exact s.measure_lt ho

/-- Replaces the subject wherever it occurs from a place on. There is no result where the text cannot be
    cut at a place that the scan comes to. -/
def scan? (s : Swap) (t : Text) (start : Nat) : Option Text :=
  match hrest : dropBytes? start t with
  | none => none
  | some rest =>
    match hfound : find? s.subject rest with
    | none => some t
    | some found =>
      match hnext : splice? (start + found) (start + found + s.subject.byteLength) s.replacement t with
      | none => none
      | some next =>
        have := s.measure_resume_lt hrest hfound hnext
        s.scan? next (start + found + s.replacement.body.byteLength)
termination_by s.measure ((dropBytes? start t).getD [])

/-- One turn of the loop. -/
theorem scan?_step (s : Swap) (t : Text) (start : Nat) : s.scan? t start =
    (dropBytes? start t).bind fun rest =>
      match find? s.subject rest with
      | none => some t
      | some found =>
        (splice? (start + found) (start + found + s.subject.byteLength) s.replacement t).bind fun next =>
          s.scan? next (start + found + s.replacement.body.byteLength) := by
  rw [scan?]
  split
  · rename_i hrest
    rw [hrest, Option.bind_none]
  · rename_i hrest
    split
    · rename_i hfound
      simp only [hrest, Option.bind_some, hfound]
    · rename_i hfound
      split
      · rename_i hnext
        simp only [hrest, Option.bind_some, hfound, hnext, Option.bind_none]
      · rename_i hnext
        simp only [hrest, Option.bind_some, hfound, hnext]

/-- A scan from a place replaces what follows the place and keeps what stands before it. -/
theorem scan?_append (s : Swap) (before rest : Text) :
    s.scan? (before ++ rest) before.byteLength = some (before ++ s.apply rest) := by
  induction rest using Swap.apply.induct (s := s) generalizing before with
  | case1 rest ho =>
    have hfound : find? s.subject rest = none := by rw [find?, ho, Option.map_none]
    rw [apply_of_none ho, scan?_step, dropBytes?_append, Option.bind_some, hfound]
  | case2 rest o ho _ ih =>
    have hfound : find? s.subject rest = some o.before.byteLength := by rw [find?, ho, Option.map_some]
    rw [scan?_step, dropBytes?_append, Option.bind_some, hfound]
    dsimp only
    rw [splice?_found before ho, Option.bind_some, ← byteLength_append, ← byteLength_append, ih, apply_of_some ho]
    simp only [List.append_assoc]

theorem scan?_zero (s : Swap) (t : Text) : s.scan? t 0 = some (s.apply t) := s.scan?_append [] t

end Swap

namespace Conjugation

/-- Conjugates a text in place. -/
def scan? (c : Conjugation) (t : Text) : Option Text :=
  (c.swaps.foldlM (fun t (s : Swap) => s.scan? t 0) t).map fun t => closeWithMe (t.filter (· ≠ mark))

/-- Every pass of every table stays inside its text. -/
theorem scan?_eq (c : Conjugation) (t : Text) : c.scan? t = some (c.apply t) := by
  have hpasses : c.swaps.foldlM (fun t (s : Swap) => s.scan? t 0) t =
        some (c.swaps.foldl (fun t s => s.apply t) t) := by
    simp only [Swap.scan?_zero]
    exact List.foldlM_pure
  rw [scan?, hpasses]
  rfl

end Conjugation

end Dialogue
