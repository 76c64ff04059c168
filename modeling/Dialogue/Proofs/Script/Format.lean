import Dialogue.Proofs.Script.Layout

/-! # Reading a file line by line gives what its layout says

A draft agrees with the lines that count among those that were read (`Draft.Follows`): its rules and
replies are those of the closed blocks, its open block is what the tail lists. A line that is refused
closes the earliest block with keywords and no replies. -/

namespace Dialogue.Script
open Layout

namespace Draft

/-- The draft holds what these lines say. -/
structure Follows (d : Draft) (es : List Entry) : Prop where
  block : d.block = blockOf (tail es)
  part : d.part = partOf (tail es)
  rules : d.rules = unshadowed (Layout.rules 0 (Layout.blocks es))
  replies : d.replies = Layout.replies (Layout.blocks es)
  blocks : d.blocks = (Layout.blocks es).length
  sound : (Layout.blocks es).findSome? emptyReplies? = none

namespace Follows
variable {d d' : Draft} {es : List Entry} {e : Entry}

theorem empty : empty.Follows [] := ⟨rfl, rfl, rfl, rfl, rfl, rfl⟩

theorem skip (h : d.Follows es) (n : Nat) : Follows { d with lines := n } es :=
  ⟨h.block, h.part, h.rules, h.replies, h.blocks, h.sound⟩

/-- A line that closes no block leaves the closed blocks as they are. -/
theorem grow (h : d.Follows es) (hc : isClose e = false) {n : Nat} {part : Part} {block : Block}
    (hpart : part = partOf (tail es ++ [e])) (hblock : block = blockOf (tail es ++ [e])) :
    Follows { d with lines := n, part := part, block := block } (es ++ [e]) := by
  have hblocks : Layout.blocks (es ++ [e]) = Layout.blocks es := by simp [blocks_concat, hc]
  have htail : tail (es ++ [e]) = tail es ++ [e] := by simp [tail_concat, hc]
  refine ⟨?_, ?_, ?_, ?_, ?_, ?_⟩
  · rw [htail]
    exact hblock
  · rw [htail]
    exact hpart
  all_goals rw [hblocks]
  · exact h.rules
  · exact h.replies
  · exact h.blocks
  · exact h.sound

theorem turn (h : d.Follows es) (hc : isClose e = false) (ht : isTurn e = true) {n : Nat} :
    Follows { d with lines := n, part := .replies } (es ++ [e]) := by
  refine h.grow hc ?_ ?_
  · rw [partOf_concat, if_pos ht]
  · rw [blockOf_concat, if_pos ht, h.block]

theorem entry (h : d.Follows es) (hc : isClose e = false) (ht : isTurn e = false) {n : Nat} :
    Follows { d with lines := n, block := d.block.add d.part e } (es ++ [e]) := by
  refine h.grow hc ?_ ?_
  · rw [partOf_concat, ht, h.part]
    rfl
  · rw [blockOf_concat, ht, h.block, h.part]
    rfl

theorem close (h : d.Follows es) (hc : isClose e = true) (hd : d.close = .ok d') : d'.Follows (es ++ [e]) := by
  have hblocks : Layout.blocks (es ++ [e]) = Layout.blocks es ++ [(blockOf (tail es), e)] := by
    rw [blocks_concat, if_pos hc]
  have htail : tail (es ++ [e]) = [] := by rw [tail_concat, if_pos hc]
  have hfull : d.block.keywords = [] ∨ d.block.replies ≠ [] := full_of_close hd
  obtain ⟨notices, hn⟩ := close_of_full h.rules hfull
  rw [hn] at hd
  cases hd
  refine ⟨?_, ?_, ?_, ?_, ?_, ?_⟩
  · rw [htail]
    rfl
  · rw [htail]
    rfl
  all_goals rw [hblocks, ← h.block]
  · rw [rules_concat, ← h.replies]
    simp [range]
  · rw [replies_concat, ← h.replies]
  · rw [List.length_append, ← h.blocks]
    rfl
  · rw [List.findSome?_append, h.sound]
    simp [emptyReplies?_eq_none_iff.mpr hfull]

/-- A line that is refused. -/
theorem close_error (h : d.Follows es) (hc : isClose e = true) (hline : e.line = d.lines) {defect : Defect}
    (hd : d.close = .error defect) : (Layout.blocks (es ++ [e])).findSome? emptyReplies? = some defect := by
  obtain ⟨k, ks, hk, hr, rfl⟩ := hollow_of_close hd
  obtain ⟨b, hb⟩ : ∃ b, b = d.block := ⟨_, rfl⟩
  rw [blocks_concat, if_pos hc, List.findSome?_append, h.sound, ← h.block]
  obtain ⟨keywords, replies⟩ := b
  rw [← hb] at hk hr ⊢
  simp only at hk hr
  simp [emptyReplies?, hk, hr, hline]

theorem line?_eq (h : d.Follows es) : d.block.line? = ((tail es).find? (!isTurn ·)).map (·.line) := by
  rw [h.block, line?_blockOf]

theorem blocks_eq_zero_iff (h : d.Follows es) : d.blocks = 0 ↔ ∀ e ∈ es, ¬isClose e := by
  rw [h.blocks, List.length_eq_zero_iff, blocks_eq_nil_iff]

/-- A phrase that comes twice loses a rule, but not its first one. -/
theorem missing_iff (h : d.Follows es) (p : Text) : (∀ r ∈ d.rules, r.phrase ≠ p) ↔
    ∀ b ∈ Layout.blocks es, ∀ k ∈ b.1.keywords, k.text ≠ p := by
  have hiff : (∃ r ∈ d.rules, r.phrase = p) ↔ ∃ b ∈ Layout.blocks es, ∃ k ∈ b.1.keywords, k.text = p := by
    rw [h.rules]
    exact exists_mem_unshadowed.trans exists_mem_rules
  simpa using not_congr hiff

theorem script_eq {lines : List Text} (h : d.Follows (content lines)) (fallback : Text) :
    d.script fallback = Layout.script fallback lines := by
  unfold Draft.script Layout.script
  simp only [h.sound]
  by_cases hzero : d.blocks = 0
  · rw [if_pos hzero, if_pos (h.blocks_eq_zero_iff.mp hzero)]
  rw [if_neg hzero, if_neg (h.blocks_eq_zero_iff.not.mp hzero), h.line?_eq]
  cases (tail (content lines)).find? (!isTurn ·) with
  | some e => rfl
  | none =>
    by_cases hall : ∀ r ∈ d.rules, r.phrase ≠ fallback
    · have hfind : d.rules.findIdx? (·.phrase = fallback) = none := by simpa using hall
      rw [hfind]
      exact (if_pos ((h.missing_iff fallback).mp hall)).symm
    · have hfind : d.rules.findIdx? (·.phrase = fallback) = some (d.rules.findIdx (·.phrase = fallback)) := by
        refine List.findIdx?_eq_some_of_exists ?_
        simpa using hall
      rw [hfind]
      refine Eq.trans ?_ (if_neg ((h.missing_iff fallback).not.mp hall)).symm
      simp only [Option.map_none, h.rules, h.replies]

end Follows

/-- A defect that the closed blocks have stays the first one, whatever follows. -/
theorem findSome?_concat {es es' : List Entry} {defect : Defect}
    (h : (Layout.blocks es).findSome? emptyReplies? = some defect) :
    (Layout.blocks (es ++ es')).findSome? emptyReplies? = some defect := by
  induction es' using List.reverseRecOn with
  | nil => rwa [List.append_nil]
  | append_singleton es' e ih => rw [← List.append_assoc, blocks_concat, List.findSome?_append, ih, Option.some_or]

/-- After any lines: a draft that holds what they say, or the first defect among the closed blocks. -/
def Agrees (lines : List Text) : Except Defect Draft → Prop
  | .ok d => d.lines = lines.length ∧ d.Follows (content lines)
  | .error defect => (Layout.blocks (content lines)).findSome? emptyReplies? = some defect

theorem agrees_push {lines : List Text} {d : Draft} (raw : Text) (hn : d.lines = lines.length)
    (h : d.Follows (content lines)) : Agrees (lines ++ [raw]) (d.push raw) := by
  have hlen : d.lines + 1 = (lines ++ [raw]).length := by rw [hn, List.length_append, List.length_singleton]
  cases hl : Line.ofText raw with
  | skipped =>
    rw [push_skipped hl]
    refine ⟨hlen, ?_⟩
    rw [content_concat, if_pos (Line.ofText_skipped_iff.mp hl), List.append_nil]
    exact h.skip _
  | turn =>
    obtain ⟨hb, ht⟩ := Line.ofText_turn_iff.mp hl
    rw [push_turn hl]
    refine ⟨hlen, ?_⟩
    rw [content_concat, if_neg hb]
    exact h.turn (by simp [isClose, ht]) (by simp [isTurn, ht])
  | close =>
    obtain ⟨hb, hc⟩ := Line.ofText_close_iff.mp hl
    have he : isClose ⟨lines.length + 1, raw.trim⟩ = true := by simpa [isClose] using hc
    rw [push_close hl]
    cases hd : ({ d with lines := d.lines + 1 } : Draft).close with
    | ok d' =>
      refine ⟨(lines_close hd).trans hlen, ?_⟩
      rw [content_concat, if_neg hb]
      exact (h.skip _).close he hd
    | error defect =>
      show (Layout.blocks (content (lines ++ [raw]))).findSome? emptyReplies? = some defect
      rw [content_concat, if_neg hb]
      exact (h.skip _).close_error he (by simp [hn]) hd
  | entry t =>
    obtain ⟨hb, ht, hc, rfl⟩ := Line.ofText_entry_iff.mp hl
    rw [push_entry hl]
    refine ⟨hlen, ?_⟩
    rw [content_concat, if_neg hb, hn]
    exact h.entry (by simpa [isClose] using hc) (by simpa [isTurn] using ht)

theorem agrees_pushAll (lines : List Text) : Agrees lines (empty.pushAll lines) := by
  induction lines using List.reverseRecOn with
  | nil => exact ⟨rfl, Follows.empty⟩
  | append_singleton lines raw ih =>
    rw [pushAll_concat]
    cases hd : empty.pushAll lines with
    | ok d =>
      rw [hd] at ih
      exact agrees_push raw ih.1 ih.2
    | error defect =>
      rw [hd] at ih
      show (Layout.blocks (content (lines ++ [raw]))).findSome? emptyReplies? = some defect
      rw [content_concat]
      exact findSome?_concat ih

end Draft

/-- Reading a file line by line gives what its layout says. -/
theorem result_ofLines (fallback : Text) (lines : List Text) :
    (ofLines fallback lines).result = Layout.script fallback lines := by
  have h := Draft.agrees_pushAll lines
  rw [ofLines, Draft.result_read]
  cases hd : Draft.empty.pushAll lines with
  | error defect =>
    rw [hd] at h
    have hfirst : (blocks (content lines)).findSome? emptyReplies? = some defect := h
    unfold Layout.script
    simp only [hfirst]
    rfl
  | ok d =>
    rw [hd] at h
    obtain ⟨-, hfollows⟩ := h
    exact hfollows.script_eq fallback

end Dialogue.Script
