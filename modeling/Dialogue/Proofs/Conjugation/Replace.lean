import Dialogue.Proofs.Conjugation.Halting

/-! # Swaps that share no padding

What a swap looks through again after it has written are the closing spaces of its replacement. They can
only be the beginning of what it finds next, so they do not count for a subject that begins with another
character, and there are none where the replacement has none. Such a swap is the plain replacement of all
occurrences, which never looks at what it writes (`apply_eq_replaceAll`). -/

namespace Dialogue
open Text

/-! ### Plain replacement -/

namespace Text
variable {needle replacement t w : Text}

/-- The pieces of a text between the occurrences of a needle: the leftmost one, the leftmost one of what
    follows it, and so on. -/
def pieces (needle t : Text) : List Text :=
  match occurrence? needle t with
  | none => [t]
  | some o => o.before :: if o.after.length < t.length then pieces needle o.after else [o.after]
termination_by t.length

/-- The text with another one in place of every occurrence. -/
def replaceAll (needle replacement t : Text) : Text := join replacement (pieces needle t)

theorem pieces_of_none (h : occurrence? needle t = none) : pieces needle t = [t] := by
  rw [pieces, h]

theorem length_after_lt (hne : needle ≠ []) {o : Occurrence} (h : occurrence? needle t = some o) :
    o.after.length < t.length := by
  have := List.length_pos_iff.mpr hne
  rw [eq_of_occurrence? h, List.length_append, List.length_append]
  omega

theorem pieces_of_some (hne : needle ≠ []) {o : Occurrence} (h : occurrence? needle t = some o) :
    pieces needle t = o.before :: pieces needle o.after := by
  rw [pieces, h]
  exact congrArg (o.before :: ·) (if_pos (length_after_lt hne h))

theorem pieces_ne_nil (needle t : Text) : pieces needle t ≠ [] := by
  rw [pieces]
  split <;> exact List.cons_ne_nil _ _

theorem join_cons {ps : List Text} (h : ps ≠ []) (p separator : Text) :
    join separator (p :: ps) = p ++ separator ++ join separator ps := by
  rw [join, List.intercalate_cons_of_ne_nil h, join]

/-- Nothing of a text is lost in its pieces. -/
theorem join_pieces (hne : needle ≠ []) (t : Text) : join needle (pieces needle t) = t := by
  induction hn : t.length using Nat.strong_induction_on generalizing t with
  | _ n ih =>
    cases ho : occurrence? needle t with
    | none => rw [pieces_of_none ho, join, List.intercalate_singleton]
    | some o =>
      have hlt : o.after.length < n := by
        rw [← hn]
        exact length_after_lt hne ho
      rw [pieces_of_some hne ho, join_cons (pieces_ne_nil _ _), ih _ hlt o.after rfl, ← eq_of_occurrence? ho]

theorem replaceAll_of_none (h : occurrence? needle t = none) : replaceAll needle replacement t = t := by
  rw [replaceAll, pieces_of_none h, join, List.intercalate_singleton]

theorem replaceAll_of_some (hne : needle ≠ []) {o : Occurrence} (h : occurrence? needle t = some o) :
    replaceAll needle replacement t = o.before ++ replacement ++ replaceAll needle replacement o.after := by
  rw [replaceAll, pieces_of_some hne h, join_cons (pieces_ne_nil _ _), replaceAll]

section Append
variable (hne : needle ≠ [])
  (h : occurrence? needle (w ++ t) = (occurrence? needle t).map fun o => ⟨w ++ o.before, o.after⟩)
include hne h

/-- What is passed over in the search belongs to the first piece. -/
theorem length_pieces_append : (pieces needle (w ++ t)).length = (pieces needle t).length := by
  cases ho : occurrence? needle t with
  | none =>
    rw [ho] at h
    rw [pieces_of_none ho, pieces_of_none h]
    rfl
  | some o =>
    rw [ho] at h
    rw [pieces_of_some hne ho, pieces_of_some hne h]
    rfl

theorem replaceAll_append : replaceAll needle replacement (w ++ t) = w ++ replaceAll needle replacement t := by
  cases ho : occurrence? needle t with
  | none =>
    rw [ho] at h
    rw [replaceAll_of_none ho, replaceAll_of_none h]
  | some o =>
    rw [ho] at h
    rw [replaceAll_of_some hne ho, replaceAll_of_some hne h]
    simp only [List.append_assoc]

end Append

theorem padding_eq_nil (h : t.getLast? ≠ some ' ') : t.padding = [] := by
  rcases List.eq_nil_or_concat' t with rfl | ⟨u, c, rfl⟩
  · rfl
  · have hc : c ≠ ' ' := by
      rintro rfl
      exact h List.getLast?_concat
    rw [padding, takeEnd, List.reverse_append, List.reverse_singleton, List.singleton_append,
      List.takeWhile_cons_of_neg (by simpa using hc), List.reverse_nil]

end Text

/-! ### Swaps -/

open Cursor

namespace Swap
variable {s : Swap} {subject replacement t before rest : Text} {o : Occurrence}

/-- The subject does not begin with a space, or the replacement does not end with one. -/
def Unshared (subject replacement : Text) : Prop := subject.head? ≠ some ' ' ∨ replacement.getLast? ≠ some ' '

/-- Such a replacement does not give back what it uses up. -/
theorem Unshared.progress (h : Unshared subject replacement) (hne : subject ≠ []) :
    subject ≠ [] ∧ (replacement.padding = [] ∨ ∃ c ∈ subject, c ≠ ' ') := by
  refine ⟨hne, h.symm.imp padding_eq_nil fun hhead => ?_⟩
  obtain ⟨c, n, rfl⟩ := List.exists_cons_of_ne_nil hne
  exact ⟨c, List.mem_cons_self, fun hc => hhead (congrArg some hc)⟩

/-- The search passes over the closing spaces of what was written. -/
theorem occurrence?_padding_append (h : Unshared s.subject s.replacement) (t : Text) :
    occurrence? s.subject (s.replacement.padding ++ t) =
      (occurrence? s.subject t).map fun o => ⟨s.replacement.padding ++ o.before, o.after⟩ := by
  rcases h with hhead | hlast
  · obtain ⟨c, n, hsubject⟩ := List.exists_cons_of_ne_nil s.progress.1
    rw [hsubject] at hhead ⊢
    have hc : c ∉ s.replacement.padding := fun hmem => by
      have hspace := List.all_eq_true.mp (takeEnd_all (· = ' ') s.replacement) c hmem
      exact hhead (congrArg some (of_decide_eq_true hspace))
    exact occurrence?_append_of_notMem hc n t
  · rw [padding_eq_nil hlast]
    simp

/-- What is looked through again adds nothing to the plain replacement of what follows it. -/
theorem replaceAll_resume (h : Unshared s.subject s.replacement) (ho : occurrence? s.subject t = some o) :
    o.before ++ s.replacement.body ++ replaceAll s.subject s.replacement (s.replacement.padding ++ o.after) =
      replaceAll s.subject s.replacement t := by
  have hwritten : s.replacement.body ++ s.replacement.padding = s.replacement := dropEnd_append_takeEnd _ _
  rw [replaceAll_append s.progress.1 (occurrence?_padding_append h o.after), replaceAll_of_some s.progress.1 ho,
    ← List.append_assoc, List.append_assoc o.before, hwritten]

theorem apply_of_unshared (h : Unshared s.subject s.replacement) (t : Text) :
    s.apply t = replaceAll s.subject s.replacement t := by
  induction t using Swap.apply.induct (s := s) with
  | case1 t ho => rw [apply_of_none ho, replaceAll_of_none ho]
  | case2 t o ho _ ih => rw [apply_of_some ho, ih, replaceAll_resume h ho]

/-- The pass takes one turn for every occurrence and leaves the text with all of them replaced. -/
theorem exists_turns_replaceAll (h : Unshared s.subject s.replacement) (before rest : Text) : ∃ n place,
    (pieces s.subject rest).length = n + 1 ∧
    Turns s.subject s.replacement n (between before rest) ⟨before ++ replaceAll s.subject s.replacement rest, place⟩ ∧
      Rests s.subject ⟨before ++ replaceAll s.subject s.replacement rest, place⟩ := by
  induction rest using Swap.apply.induct (s := s) generalizing before with
  | case1 rest ho =>
    rw [replaceAll_of_none ho, pieces_of_none ho]
    exact ⟨0, before.byteLength, rfl, .none _, rests_iff.mpr ho⟩
  | case2 rest o ho _ ih =>
    obtain ⟨n, place, hlength, hturns, hrests⟩ := ih (before ++ o.before ++ s.replacement.body)
    have htext : before ++ o.before ++ s.replacement.body ++
        replaceAll s.subject s.replacement (s.replacement.padding ++ o.after) =
          before ++ replaceAll s.subject s.replacement rest := by
      rw [← replaceAll_resume h ho]
      simp only [List.append_assoc]
    rw [htext] at hturns hrests
    rw [length_pieces_append s.progress.1 (occurrence?_padding_append h o.after)] at hlength
    refine ⟨n + 1, place, ?_, .more (replaces_iff.mpr ⟨o, ho, rfl⟩) hturns, hrests⟩
    rw [pieces_of_some s.progress.1 ho, List.length_cons, hlength]

/-- A swap whose subject does not begin with a space, or whose replacement does not end with one, writes the
    replacement between the pieces of the text, and nothing else: wherever the subject occurs in what is
    written, alone or together with what stands around it, it is not found. In place, the pass takes one
    turn for each piece but the last. So looking through the closing spaces again makes a difference only
    where a subject can begin with them. -/
theorem apply_eq_replaceAll (hne : subject ≠ []) (h : subject.head? ≠ some ' ' ∨ replacement.getLast? ≠ some ' ')
    (t : Text) : join subject (pieces subject t) = t ∧ ∃ s : Swap, s.subject = subject ∧ s.replacement = replacement ∧
      s.apply t = replaceAll subject replacement t ∧ s.scan? t 0 = some (replaceAll subject replacement t) ∧
      ∃ n place, (pieces subject t).length = n + 1 ∧
        Turns subject replacement n ⟨t, 0⟩ ⟨replaceAll subject replacement t, place⟩ ∧
        Rests subject ⟨replaceAll subject replacement t, place⟩ := by
  have hshared : Unshared subject replacement := h
  let s : Swap := ⟨subject, replacement, hshared.progress hne⟩
  have happly : s.apply t = replaceAll subject replacement t := apply_of_unshared (s := s) h t
  refine ⟨join_pieces hne t, s, rfl, rfl, happly, ?_, exists_turns_replaceAll (s := s) h [] t⟩
  rw [scan?_zero, happly]

/-- A subject that overlaps itself, in a text that begins with it three times over; what is written begins
    and ends with it and has a closing space. -/
theorem apply_eq_replaceAll_overlapping :
    let subject := "ABA".toList
    let replacement := "ABABA ".toList
    let t := "ABABABA".toList
    subject ≠ [] ∧ subject.head? ≠ some ' ' ∧ pieces subject t = [[], ['B'], []] ∧
      ∃ s : Swap, s.subject = subject ∧ s.replacement = replacement ∧ s.apply t = "ABABA BABABA ".toList := by
  intro subject replacement t
  have hne : subject ≠ [] := List.cons_ne_nil _ _
  have hhead : subject.head? ≠ some ' ' := by simp [subject]
  have hunshared : Unshared subject replacement := Or.inl hhead
  have hpieces : pieces subject t = [[], ['B'], []] := by
    have hfirst : occurrence? subject t = some ⟨[], "BABA".toList⟩ := rfl
    have hsecond : occurrence? subject "BABA".toList = some ⟨['B'], []⟩ := rfl
    rw [pieces_of_some hne hfirst, pieces_of_some hne hsecond, pieces_of_none rfl]
  obtain ⟨-, s, hsubject, hreplacement, happly, -⟩ := apply_eq_replaceAll hne hunshared t
  refine ⟨hne, hhead, hpieces, s, hsubject, hreplacement, ?_⟩
  rw [happly, replaceAll, hpieces]
  rfl

end Swap

end Dialogue
