import Dialogue.Proofs.Script.Line
import Dialogue.Script.Source

/-! # What a line does to a draft

One equation for each kind of line. Closing a block gives its keywords one range, and of two rules with
the same phrase the earlier one stays (`unshadowed`). A reading takes in the lines one after another and
then makes the script. -/

namespace Dialogue.Script

/-! ### Rules with the same phrase -/

/-- The rules whose phrase no earlier rule has. -/
def unshadowed : List Rule → List Rule
  | [] => []
  | r :: rules => r :: (unshadowed rules).filter (·.phrase ≠ r.phrase)

theorem unshadowed_sublist : ∀ rules : List Rule, (unshadowed rules).Sublist rules
  | [] => List.Sublist.refl _
  | r :: rules => (List.filter_sublist.trans (unshadowed_sublist rules)).cons_cons r

theorem exists_mem_unshadowed {p : Text} {rules : List Rule} :
    (∃ r ∈ unshadowed rules, r.phrase = p) ↔ ∃ r ∈ rules, r.phrase = p := by
  refine ⟨fun ⟨r, hr, hp⟩ => ⟨r, (unshadowed_sublist rules).subset hr, hp⟩, ?_⟩
  induction rules with
  | nil => exact id
  | cons q rules ih =>
    rintro ⟨r, hr, rfl⟩
    by_cases hq : r.phrase = q.phrase
    · exact ⟨q, List.mem_cons_self, hq.symm⟩
    · have hr' : r ∈ rules := (List.mem_cons.mp hr).resolve_left fun h => hq (congrArg Rule.phrase h)
      obtain ⟨r', hr', hp⟩ := ih ⟨r, hr', rfl⟩
      exact ⟨r', List.mem_cons_of_mem _ (List.mem_filter.mpr ⟨hr', by simpa [hp] using hq⟩), hp⟩

theorem nodup_unshadowed : ∀ rules : List Rule, ((unshadowed rules).map (·.phrase)).Nodup
  | [] => List.nodup_nil
  | r :: rules => by
    refine List.nodup_cons.mpr ⟨fun h => ?_, (nodup_unshadowed rules).sublist (List.filter_sublist.map _)⟩
    obtain ⟨q, hq, hp⟩ := List.mem_map.mp h
    simpa [hp] using (List.mem_filter.mp hq).2

theorem unshadowed_of_nodup : ∀ {rules : List Rule}, (rules.map (·.phrase)).Nodup → unshadowed rules = rules
  | [], _ => rfl
  | r :: rules, h => by
    obtain ⟨hr, hrules⟩ := List.nodup_cons.mp h
    rw [unshadowed, unshadowed_of_nodup hrules, List.filter_eq_self.mpr]
    intro q hq
    have : q.phrase ≠ r.phrase := fun heq => hr (List.mem_map.mpr ⟨q, hq, heq⟩)
    simpa using this

theorem unshadowed_concat (rules : List Rule) (r : Rule) :
    unshadowed (rules ++ [r]) = unshadowed rules ++ if ∃ q ∈ rules, q.phrase = r.phrase then [] else [r] := by
  induction rules with
  | nil => simp [unshadowed]
  | cons q rules ih =>
    rw [List.cons_append, unshadowed, unshadowed, ih, List.filter_append, List.cons_append]
    by_cases hq : q.phrase = r.phrase
    · by_cases hr : ∃ q ∈ rules, q.phrase = r.phrase <;> simp [hq, hr]
    · have hiff : (∃ q' ∈ q :: rules, q'.phrase = r.phrase) ↔ ∃ q' ∈ rules, q'.phrase = r.phrase := by simp [hq]
      by_cases hr : ∃ q' ∈ rules, q'.phrase = r.phrase
      · rw [if_pos hr, if_pos (hiff.mpr hr), List.filter_nil]
      · rw [if_neg hr, if_neg (hiff.not.mpr hr)]
        simp [Ne.symm hq]

/-- The rule for a keyword. -/
def Entry.rule (range : ReplyRange) (k : Entry) : Rule := ⟨k.text, range, k.line⟩

namespace Draft
variable {d : Draft} {raw : Text}

/-! ### Closing a block -/

/-- Keywords are enrolled in order, each unless its phrase has a rule. -/
theorem foldl_enroll (range : ReplyRange) : ∀ (ks : List Entry) (d : Draft) {rules : List Rule},
    d.rules = unshadowed rules → ∃ notices, ks.foldl (enroll range) d =
      { d with rules := unshadowed (rules ++ ks.map (Entry.rule range)), notices := notices }
  | [], d, rules, hd => ⟨d.notices, by simp [← hd]⟩
  | k :: ks, d, rules, hd => by
    have hany : d.rules.any (·.phrase = k.text) = true ↔ ∃ q ∈ rules, q.phrase = (k.rule range).phrase := by
      simpa [hd, Entry.rule] using exists_mem_unshadowed (p := k.text)
    have hconcat := unshadowed_concat rules (k.rule range)
    rw [List.foldl_cons, List.map_cons, List.append_cons]
    by_cases hk : d.rules.any (·.phrase = k.text) = true
    · rw [if_pos (hany.mp hk), List.append_nil, ← hd] at hconcat
      rw [enroll, if_pos hk]
      exact foldl_enroll range ks { d with notices := _ } hconcat.symm
    · rw [if_neg (hany.not.mp hk), ← hd] at hconcat
      rw [enroll, if_neg hk]
      exact foldl_enroll range ks { d with rules := d.rules ++ [k.rule range] } hconcat.symm

/-- The place of the open block's replies in the pool. -/
def range (d : Draft) : ReplyRange := ⟨d.replies.length, d.replies.length + d.block.replies.length - 1⟩

theorem close_of_hollow {k : Entry} {ks : List Entry} (hk : d.block.keywords = k :: ks) (hr : d.block.replies = []) :
    d.close = .error (.emptyReplies d.lines k.text) := by
  simp [close, hk, hr]

theorem close_of_full {rules : List Rule} (hd : d.rules = unshadowed rules)
    (h : d.block.keywords = [] ∨ d.block.replies ≠ []) : ∃ notices, d.close = .ok { d.reopen with
      rules := unshadowed (rules ++ d.block.keywords.map (Entry.rule d.range))
      replies := d.replies ++ d.block.replies.map (·.text)
      notices := notices } := by
  cases hk : d.block.keywords with
  | nil =>
    cases hr : d.block.replies with
    | nil => exact ⟨d.notices, by simp [close, hk, hr, reopen, ← hd]⟩
    | cons r rs =>
      exact ⟨d.notices ++ [.repliesWithoutKeywords d.lines (r :: rs).length], by simp [close, hk, hr, reopen, ← hd]⟩
  | cons k ks =>
    cases hr : d.block.replies with
    | nil => simp [hk, hr] at h
    | cons r rs =>
      obtain ⟨notices, hn⟩ := foldl_enroll d.range (k :: ks)
        { d.reopen with replies := d.replies ++ (r :: rs).map (·.text) } hd
      refine ⟨notices, ?_⟩
      rw [← hn]
      simp [close, hk, hr, range]

theorem full_of_close {d' : Draft} (h : d.close = .ok d') : d.block.keywords = [] ∨ d.block.replies ≠ [] := by
  cases hk : d.block.keywords with
  | nil => exact Or.inl rfl
  | cons k ks =>
    refine Or.inr fun hr => ?_
    rw [close_of_hollow hk hr] at h
    cases h

theorem hollow_of_close {e : Defect} (h : d.close = .error e) :
    ∃ k ks, d.block.keywords = k :: ks ∧ d.block.replies = [] ∧ e = .emptyReplies d.lines k.text := by
  unfold close at h
  split at h <;> cases h
  rename_i k ks hk hr
  exact ⟨k, ks, hk, hr, rfl⟩

/-! ### Lines -/

theorem push_skipped (h : Line.ofText raw = .skipped) : d.push raw = .ok { d with lines := d.lines + 1 } := by
  simp [push, h]

theorem push_turn (h : Line.ofText raw = .turn) :
    d.push raw = .ok { d with lines := d.lines + 1, part := .replies } := by
  simp [push, h]

theorem push_close (h : Line.ofText raw = .close) : d.push raw = ({ d with lines := d.lines + 1 } : Draft).close := by
  simp [push, h]

theorem push_entry {t : Text} (h : Line.ofText raw = .entry t) :
    d.push raw = .ok { d with lines := d.lines + 1, block := d.block.add d.part ⟨d.lines + 1, t⟩ } := by
  simp [push, h]

/-- Takes in lines one after another. -/
def pushAll (d : Draft) (lines : List Text) : Except Defect Draft := lines.foldlM push d

theorem pushAll_concat (lines : List Text) : d.pushAll (lines ++ [raw]) = d.pushAll lines >>= (·.push raw) := by
  simp [pushAll]

theorem pushAll_concat_eq_ok {lines : List Text} {d' : Draft} (h : d.pushAll (lines ++ [raw]) = .ok d') :
    ∃ d₁, d.pushAll lines = .ok d₁ ∧ d₁.push raw = .ok d' := by
  rw [pushAll_concat] at h
  cases hd : d.pushAll lines with
  | error e =>
    rw [hd] at h
    cases h
  | ok d₁ =>
    rw [hd] at h
    exact ⟨d₁, rfl, h⟩

/-! ### How many lines were read -/

theorem lines_foldl_enroll (range : ReplyRange) : ∀ (ks : List Entry) (d : Draft),
    (ks.foldl (enroll range) d).lines = d.lines
  | [], _ => rfl
  | k :: ks, d => by
    rw [List.foldl_cons, lines_foldl_enroll, enroll]
    split <;> rfl

theorem lines_close {d' : Draft} (h : d.close = .ok d') : d'.lines = d.lines := by
  unfold close at h
  split at h <;> cases h
  · rfl
  · rfl
  · rw [lines_foldl_enroll]
    rfl

theorem lines_push {d' : Draft} (h : d.push raw = .ok d') : d'.lines = d.lines + 1 := by
  cases hl : Line.ofText raw with
  | skipped =>
    rw [push_skipped hl] at h
    cases h
    rfl
  | turn =>
    rw [push_turn hl] at h
    cases h
    rfl
  | close =>
    rw [push_close hl] at h
    exact lines_close h
  | entry t =>
    rw [push_entry hl] at h
    cases h
    rfl

theorem lines_pushAll {lines : List Text} {d' : Draft} (h : d.pushAll lines = .ok d') :
    d'.lines = d.lines + lines.length := by
  induction lines using List.reverseRecOn generalizing d' with
  | nil =>
    cases h
    rfl
  | append_singleton lines raw ih =>
    obtain ⟨d₁, hd, h⟩ := pushAll_concat_eq_ok h
    rw [lines_push h, ih hd, List.length_append]
    rfl

/-! ### The whole file -/

theorem result_finish (fallback : Text) : (d.finish fallback).result = d.script fallback := by
  unfold finish
  split <;> simp_all

theorem result_read (fallback : Text) (lines : List Text) :
    (d.read fallback (lines.map some)).result = d.pushAll lines >>= (·.script fallback) := by
  induction lines generalizing d with
  | nil => exact result_finish fallback
  | cons raw lines ih =>
    rw [List.map_cons, read, pushAll, List.foldlM_cons]
    cases hp : d.push raw with
    | ok d' => exact ih
    | error e => rfl

/-- A file is read when all its lines were taken in and the last draft makes a script. -/
theorem ofLines_eq_ok_iff {fallback : Text} {lines : List Text} {s : Script} :
    (ofLines fallback lines).result = .ok s ↔
      ∃ d, empty.pushAll lines = .ok d ∧ d.script fallback = .ok s := by
  rw [ofLines, result_read]
  cases empty.pushAll lines with
  | ok d => simp [bind, Except.bind]
  | error e => simp [bind, Except.bind]

/-- A draft makes a script when a block was closed, no entry waits in the open one, and some rule has the
    fallback phrase. -/
theorem script_eq_ok_iff {fallback : Text} {s : Script} : d.script fallback = .ok s ↔
    d.blocks ≠ 0 ∧ d.block.line? = none ∧ s.rules = d.rules ∧ s.replies = d.replies ∧
      d.rules.findIdx? (·.phrase = fallback) = some s.fallback := by
  constructor
  · intro h
    unfold script at h
    split at h
    · cases h
    · split at h <;> cases h
      exact ⟨‹_›, ‹_›, rfl, rfl, ‹_›⟩
  · rintro ⟨hblocks, hline, hrules, hreplies, hfallback⟩
    obtain ⟨rules, replies, fallback⟩ := s
    cases hrules
    cases hreplies
    simp [script, hblocks, hline, hfallback]

theorem script_eq_ok {fallback : Text} {s : Script} (h : d.script fallback = .ok s) :
    s.rules = d.rules ∧ s.replies = d.replies ∧ d.rules.findIdx? (·.phrase = fallback) = some s.fallback :=
  (script_eq_ok_iff.mp h).2.2

end Draft

end Dialogue.Script
