import Dialogue.Proofs.Conjugation.Words

/-! # Tables of words

A table that was accepted from pairs of padded words does what one substitution does: no word is missed
where two share a space, and no word that was written is written over by a later pair. -/

namespace Dialogue
open Text

namespace Conjugation
variable {c : Conjugation} {ps : List (Text × Text)} {t : Text}

/-- A word that a table of words may name. -/
structure Word (w : Text) : Prop where
  ne_nil : w ≠ []
  plain : Plain w

instance (w : Text) : Decidable (Word w) :=
  decidable_of_iff (w ≠ [] ∧ Plain w) ⟨fun h => ⟨h.1, h.2⟩, fun h => ⟨h.ne_nil, h.plain⟩⟩

/-- The conjugation was made of pairs of padded words. -/
structure OfWords (c : Conjugation) (ps : List (Text × Text)) : Prop where
  accepted : ofPairs (ps.map fun p => (pad p.1, pad p.2)) = .ok c
  words : ∀ p ∈ ps, Word p.1 ∧ Word p.2

/-- The mark comes right behind a text that does not end in a space. -/
theorem withMark_pad {v : Text} (hne : v ≠ []) (hend : v.getLast? ≠ some ' ') :
    withMark (pad v) = pad (v ++ [mark]) := by
  rcases List.eq_nil_or_concat' v with rfl | ⟨u, d, rfl⟩
  · exact absurd rfl hne
  · have hd : d ≠ ' ' := fun h => hend (by rw [List.getLast?_concat, h])
    rw [withMark, body_pad_concat u hd, padding_pad_concat u hd]
    simp [pad]

theorem Word.getLast?_ne {v : Text} (hv : Word v) : v.getLast? ≠ some ' ' := fun h =>
  hv.plain.space (List.mem_of_getLast? h)

/-- Pairs are accepted where no subject is white space alone. -/
theorem exists_swapsOf_iff {qs : List (Text × Text)} {i : Nat} :
    (∃ swaps, swapsOf i qs = .ok swaps) ↔ ∀ q ∈ qs, q.1.trim ≠ [] := by
  induction qs generalizing i with
  | nil => simp [swapsOf]
  | cons q qs ih =>
    rw [List.forall_mem_cons, ← ih (i := i + 1), swapsOf]
    by_cases hq : q.1.trim = []
    · simp [hq]
    · rw [dif_neg hq]
      cases swapsOf (i + 1) qs <;> simp [hq, Except.map]

theorem exists_ofPairs_iff {qs : List (Text × Text)} :
    (∃ c, ofPairs qs = .ok c) ↔ ∀ q ∈ qs, q.1.trim ≠ [] := by
  rw [← exists_swapsOf_iff (i := 0), ofPairs]
  cases swapsOf 0 qs <;> simp [Except.map]

theorem pairs_swapsOf {qs : List (Text × Text)} {i : Nat} {swaps : List Swap} (h : swapsOf i qs = .ok swaps) :
    swaps.map (fun s => (s.subject, s.replacement)) = qs.map fun q => (q.1, withMark q.2) := by
  induction qs generalizing i swaps with
  | nil =>
    cases h
    rfl
  | cons q qs ih =>
    rw [swapsOf] at h
    split at h
    · cases h
    · cases hrest : swapsOf (i + 1) qs with
      | error u => simp [hrest, Except.map] at h
      | ok rest =>
        rw [hrest] at h
        cases h
        rw [List.map_cons, List.map_cons, ih hrest]
        rfl

theorem pairs_ofPairs {qs : List (Text × Text)} (h : ofPairs qs = .ok c) :
    c.pairs = qs.map fun q => (q.1, withMark q.2) := by
  rw [ofPairs] at h
  cases hs : swapsOf 0 qs with
  | error u => simp [hs, Except.map] at h
  | ok swaps =>
    rw [hs] at h
    cases h
    exact pairs_swapsOf hs

theorem OfWords.wordwise (h : c.OfWords ps) : c.Wordwise ps where
  pairs := by
    rw [pairs_ofPairs h.accepted, List.map_map]
    refine List.map_congr_left fun p hp => ?_
    have hword := (h.words p hp).2
    simp [withMark_pad hword.ne_nil hword.getLast?_ne]
  plain p hp := ⟨(h.words p hp).1.plain, (h.words p hp).2.plain⟩

theorem standard_ofWords : standard.OfWords standardWords where
  accepted := by rfl
  words := by decide

theorem substitute_nil (h : ∀ p ∈ ps, Word p.1 ∧ Word p.2) : substitute ps [] = [] := by
  induction ps with
  | nil => rfl
  | cons p ps ih =>
    have hne : [] ≠ p.1 := fun h0 => (h p List.mem_cons_self).1.ne_nil h0.symm
    rw [substitute, List.lookup_cons, beq_false_of_ne hne]
    exact ih fun q hq => h q (List.mem_cons_of_mem p hq)

/-! ### Conjugating a text -/

/-- The swaps of a table of words come to one substitution. A text without marks that starts and ends with
    a space is cut at its spaces, every piece that some pair names becomes the second of the first such
    pair, and a closing `I` becomes `ME`. The standard conjugation is a table of words. -/
theorem apply_eq_substitute : standard.OfWords standardWords ∧
    ∀ {c : Conjugation} {ps : List (Text × Text)} {t : Text}, c.OfWords ps → mark ∉ t → t.head? = some ' ' →
      t.getLast? = some ' ' →
        (∀ head, join [' '] ((words t).map (substitute ps)) = head ++ pad ['I'] →
          c.apply t = head ++ pad ['M', 'E']) ∧
        (¬ pad ['I'] <:+ join [' '] ((words t).map (substitute ps)) →
          c.apply t = join [' '] ((words t).map (substitute ps))) := by
  refine ⟨standard_ofWords, fun {c ps t} h hmark hstart hend => ?_⟩
  obtain ⟨ws, hws, rfl⟩ := exists_spaced hstart hend
  have hplain : ∀ w ∈ ws, Plain w := fun w hw => ⟨hws w hw, fun hm => hmark (mem_spaced hw hm)⟩
  have hout : Unspaced (ws.map (substitute ps)) := fun x hx => by
    obtain ⟨w, hw, rfl⟩ := List.mem_map.mp hx
    exact (plain_substitute h.wordwise.plain (hplain w hw)).space
  have hjoin : join [' '] ((words (spaced ws)).map (substitute ps)) = spaced (ws.map (substitute ps)) := by
    rw [words_spaced hws, List.map_cons, List.map_append, List.map_singleton, substitute_nil h.words, join_edged]
  have happly : c.apply (spaced ws) = closeWithMe (spaced (ws.map (substitute ps))) := by
    rw [apply_spaced h.wordwise hplain, closeWithMe_spaced hout]
  rw [hjoin, happly]
  refine ⟨fun head hhead => ?_, closeWithMe_of_not_suffix⟩
  rw [hhead, closeWithMe_append]

/-- A pair that a later pair undoes, a word that has two pairs, neighbours that share a space, a run of
    spaces, and a closing word that becomes `I`. -/
theorem apply_eq_substitute_undone : ∃ c, ofPairs [(" A ".toList, " B ".toList), (" B ".toList, " A ".toList),
      (" A ".toList, " C ".toList), (" X ".toList, " I ".toList)] = .ok c ∧
    c.apply " A A  B X ".toList = " B B  A ME ".toList := by
  let ps : List (Text × Text) := [(['A'], ['B']), (['B'], ['A']), (['A'], ['C']), (['X'], ['I'])]
  obtain ⟨c, hc⟩ : ∃ c, ofPairs (ps.map fun p => (pad p.1, pad p.2)) = .ok c := ⟨_, rfl⟩
  have h : c.OfWords ps := ⟨hc, by decide⟩
  refine ⟨c, hc, ?_⟩
  exact (apply_eq_substitute.2 h (by decide) rfl rfl).1 " B B  A".toList (by decide)

end Conjugation

end Dialogue
