import Dialogue.Proofs.Conjugation.Scan
import Dialogue.Proofs.Conjugation.Table

/-! # Every pass comes to an end

A pass of one pair replaces in place for as long as it finds its subject. Neither the text nor what is left
to look through need get shorter: a replacement may be longer than its subject and have more closing
spaces, which are looked through again. But a subject has a character that is no space, and of what is
written nothing but spaces is looked through again, so what is left has one such character less after each
turn (`countP_resume_lt`). -/

namespace Dialogue
open Text

/-- A text, and the place from which it is looked through, in bytes. -/
structure Cursor where
  text : Text
  place : Nat

namespace Cursor

/-- The place between two texts. -/
def between (before rest : Text) : Cursor := ⟨before ++ rest, before.byteLength⟩

/-- One turn of a pass: the subject is found from the place on and replaced, and the search goes on at the
    closing spaces of the replacement. -/
inductive Replaces (subject replacement : Text) : Cursor → Cursor → Prop where
  | turn {t rest next : Text} {start found : Nat} (hrest : dropBytes? start t = some rest)
      (hfound : find? subject rest = some found)
      (hnext : splice? (start + found) (start + found + subject.byteLength) replacement t = some next) :
      Replaces subject replacement ⟨t, start⟩ ⟨next, start + found + replacement.body.byteLength⟩

/-- The subject does not occur from the place on. -/
def Rests (subject : Text) (k : Cursor) : Prop :=
  ∃ rest, dropBytes? k.place k.text = some rest ∧ find? subject rest = none

/-- So many turns, one after another. -/
inductive Turns (subject replacement : Text) : Nat → Cursor → Cursor → Prop where
  | none (k : Cursor) : Turns subject replacement 0 k k
  | more {n : Nat} {k k' k'' : Cursor} (first : Replaces subject replacement k k')
      (rest : Turns subject replacement n k' k'') : Turns subject replacement (n + 1) k k''

end Cursor

open Cursor

namespace Swap
variable {s : Swap} {before rest : Text} {k : Cursor} {n : Nat}

/-- The place behind what is written for an occurrence, its closing spaces excepted. -/
def resume (s : Swap) (before : Text) (o : Occurrence) : Cursor :=
  between (before ++ o.before ++ s.replacement.body) (s.replacement.padding ++ o.after)

theorem replaces_iff : Replaces s.subject s.replacement (between before rest) k ↔
    ∃ o, occurrence? s.subject rest = some o ∧ k = s.resume before o := by
  constructor
  · intro h
    generalize hk : between before rest = k₀ at h
    cases h with
    | turn hrest hfound hnext =>
      cases hk
      cases (dropBytes?_append before rest).symm.trans hrest
      obtain ⟨o, ho, rfl⟩ := Option.map_eq_some_iff.mp hfound
      cases (splice?_found before ho).symm.trans hnext
      refine ⟨o, ho, ?_⟩
      rw [resume, between, byteLength_append, byteLength_append]
  · rintro ⟨o, ho, rfl⟩
    have hfound : find? s.subject rest = some o.before.byteLength := by rw [find?, ho, Option.map_some]
    have hturn := Replaces.turn (dropBytes?_append before rest) hfound (splice?_found before ho)
    rwa [← byteLength_append, ← byteLength_append] at hturn

theorem rests_iff : Rests s.subject (between before rest) ↔ occurrence? s.subject rest = none := by
  constructor
  · rintro ⟨rest', hrest, hfound⟩
    cases (dropBytes?_append before rest).symm.trans hrest
    exact Option.map_eq_none_iff.mp hfound
  · intro ho
    exact ⟨rest, dropBytes?_append before rest, Option.map_eq_none_iff.mpr ho⟩

/-- Each turn uses up a character that is no space. -/
theorem countP_resume_lt (hs : ∃ c ∈ s.subject, c ≠ ' ') {o : Occurrence} (ho : occurrence? s.subject rest = some o) :
    (s.replacement.padding ++ o.after).countP (· ≠ ' ') < rest.countP (· ≠ ' ') := by
  obtain ⟨c, hc, hspace⟩ := hs
  have hpos : 0 < s.subject.countP (· ≠ ' ') := List.countP_pos_iff.mpr ⟨c, hc, by simpa using hspace⟩
  rw [eq_of_occurrence? ho, List.countP_append, List.countP_append, List.countP_append, countP_padding]
  omega

/-- After some turns from a place there were no more of them than characters that are no spaces, and the
    pass is over or has one more turn. -/
theorem turns_le (hs : ∃ c ∈ s.subject, c ≠ ' ') (h : Turns s.subject s.replacement n (between before rest) k) :
    n ≤ rest.countP (· ≠ ' ') ∧ (Rests s.subject k ∨ ∃ k', Replaces s.subject s.replacement k k') := by
  induction n generalizing before rest with
  | zero =>
    cases h
    refine ⟨Nat.zero_le _, ?_⟩
    cases ho : occurrence? s.subject rest with
    | none => exact Or.inl (rests_iff.mpr ho)
    | some o => exact Or.inr ⟨_, replaces_iff.mpr ⟨o, ho, rfl⟩⟩
  | succ n ih =>
    cases h with
    | more first later =>
      obtain ⟨o, ho, rfl⟩ := replaces_iff.mp first
      obtain ⟨hle, hend⟩ := ih later
      have hlt := countP_resume_lt hs ho
      exact ⟨by omega, hend⟩

/-- A pass gets to its end. What it leaves behind is the text that the swap gives. -/
theorem exists_turns (s : Swap) (before rest : Text) : ∃ n place,
    Turns s.subject s.replacement n (between before rest) ⟨before ++ s.apply rest, place⟩ ∧
      Rests s.subject ⟨before ++ s.apply rest, place⟩ := by
  induction rest using Swap.apply.induct (s := s) generalizing before with
  | case1 rest ho =>
    rw [apply_of_none ho]
    exact ⟨0, before.byteLength, .none _, rests_iff.mpr ho⟩
  | case2 rest o ho _ ih =>
    obtain ⟨n, place, hturns, hrests⟩ := ih (before ++ o.before ++ s.replacement.body)
    have htext : before ++ s.apply rest =
        before ++ o.before ++ s.replacement.body ++ s.apply (s.replacement.padding ++ o.after) := by
      rw [apply_of_some ho]
      simp only [List.append_assoc]
    rw [htext]
    exact ⟨n + 1, place, .more (replaces_iff.mpr ⟨o, ho, rfl⟩) hturns, hrests⟩

end Swap

namespace Conjugation
variable {c : Conjugation} {ps : List (Text × Text)} {t : Text}

/-- The passes of pairs over a text, one after another, each to its end. -/
inductive Passes : List (Text × Text) → Text → Text → Prop where
  | nil (t : Text) : Passes [] t t
  | cons {subject replacement : Text} {ps : List (Text × Text)} {t u v : Text} {n place : Nat}
      (turns : Turns subject replacement n ⟨t, 0⟩ ⟨u, place⟩) (rests : Rests subject ⟨u, place⟩)
      (later : Passes ps u v) : Passes ((subject, replacement) :: ps) t v

theorem passes_swaps (swaps : List Swap) (t : Text) :
    Passes (swaps.map fun s => (s.subject, s.replacement)) t (swaps.foldl (fun t s => s.apply t) t) := by
  induction swaps generalizing t with
  | nil => exact .nil t
  | cons s swaps ih =>
    obtain ⟨n, place, hturns, hrests⟩ := s.exists_turns [] t
    exact .cons hturns hrests (ih (s.apply t))

/-- Every table comes from pairs that were accepted, the standard one and the empty one too. A pass of any
    such pair over any text makes at most as many replacements as the text has characters other than the
    space. Wherever it stands, it is over or can make one more, and it does get to its end. So the passes
    of all pairs get to their end, and the text that they leave, less the marks and with a closing `I`
    made `ME`, is the conjugated one. -/
theorem passes_halt : (∃ ps, ofPairs ps = .ok standard) ∧ (∃ ps, ofPairs ps = .ok empty) ∧
    ∀ {ps : List (Text × Text)} {c : Conjugation} (t : Text), ofPairs ps = .ok c →
      (∀ q ∈ ps,
        (∀ n k, Turns q.1 (withMark q.2) n ⟨t, 0⟩ k →
          n ≤ t.countP (· ≠ ' ') ∧ (Rests q.1 k ∨ ∃ k', Replaces q.1 (withMark q.2) k k')) ∧
        ∃ n k, Turns q.1 (withMark q.2) n ⟨t, 0⟩ k ∧ Rests q.1 k) ∧
      ∃ swapped, Passes (ps.map fun q => (q.1, withMark q.2)) t swapped ∧
        c.apply t = closeWithMe (swapped.filter (· ≠ mark)) := by
  refine ⟨⟨_, standard_ofWords.accepted⟩, ⟨[], rfl⟩, fun {ps c} t h => ⟨fun q hq => ?_, ?_⟩⟩
  · have hne : ∃ c ∈ q.1, c ≠ ' ' := exists_ne_space (exists_ofPairs_iff.mp ⟨c, h⟩ q hq)
    obtain ⟨n, place, hturns, hrests⟩ := (marked q.1 q.2 hne).exists_turns [] t
    refine ⟨fun n k hrun => ?_, n, _, hturns, hrests⟩
    have hrun : Turns q.1 (withMark q.2) n (between [] t) k := hrun
    exact Swap.turns_le (s := marked q.1 q.2 hne) hne hrun
  · refine ⟨_, ?_, rfl⟩
    rw [← pairs_ofPairs h]
    exact passes_swaps c.swaps t

/-- A replacement that holds its subject twice and has more closing spaces than the subject is long, one of
    spaces alone, and an empty one. -/
theorem passes_halt_growing :
    let ps := [(" A ".toList, " A A     ".toList), ("B".toList, "    ".toList), (" C ".toList, [])]
    let t := " A A B C C ".toList
    ∃ c, ofPairs ps = .ok c ∧
      (∀ n k, Turns " A ".toList (withMark " A A     ".toList) n ⟨t, 0⟩ k → n ≤ 5) ∧
      (∃ n k, Turns "B".toList (withMark "    ".toList) n ⟨t, 0⟩ k ∧ Rests "B".toList k) ∧
      ∃ swapped, Passes (ps.map fun q => (q.1, withMark q.2)) t swapped := by
  intro ps t
  obtain ⟨c, hc⟩ : ∃ c, ofPairs ps = .ok c := ⟨_, rfl⟩
  obtain ⟨-, -, hends⟩ := passes_halt
  obtain ⟨hpairs, swapped, hpasses, -⟩ := hends t hc
  obtain ⟨hgrowing, hblank, -⟩ : _ ∧ _ ∧ _ := by simpa only [ps, List.forall_mem_cons] using hpairs
  have hcount : t.countP (· ≠ ' ') = 5 := by decide
  refine ⟨c, hc, fun n k hturns => ?_, hblank.2, swapped, hpasses⟩
  rw [← hcount]
  exact (hgrowing.1 n k hturns).1

end Conjugation

end Dialogue
