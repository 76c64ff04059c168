import Dialogue.Proofs.Script.Draft

/-! # What holds of every script that was read

The final shape follows from an invariant of the half-read file (`Draft.Sound`): besides the rules of the
closed blocks it speaks of the keywords of the open one, whose lines come after all of these rules. Every
line keeps it. -/

namespace Dialogue.Script

/-- Rules in file order over a pool of this size: the replies of each lie in the pool, and two rules have
    the same replies or the earlier one's come first. -/
structure RulesSound (rules : List Rule) (pool : Nat) : Prop where
  ranges : ∀ r ∈ rules, r.range.first ≤ r.range.last ∧ r.range.last < pool
  blocks : rules.Pairwise fun r q => r.range = q.range ∨ r.range.last < q.range.first
  listed : ∀ r ∈ rules, Listed r.phrase
  order : rules.Pairwise (·.line < ·.line)

namespace RulesSound
variable {rules : List Rule} {pool : Nat}

theorem sublist {rules' : List Rule} (h : RulesSound rules pool) (hs : rules'.Sublist rules) :
    RulesSound rules' pool where
  ranges r hr := h.ranges r (hs.subset hr)
  blocks := h.blocks.sublist hs
  listed r hr := h.listed r (hs.subset hr)
  order := h.order.sublist hs

/-- The rules of one more block, whose `n` replies are put at the end of the pool. -/
theorem append (h : RulesSound rules pool) {ks : List Entry} {n : Nat} (hn : ks = [] ∨ 0 < n)
    (hks : ∀ k ∈ ks, Listed k.text) (hord : ks.Pairwise (·.line < ·.line))
    (hafter : ∀ r ∈ rules, ∀ k ∈ ks, r.line < k.line) :
    RulesSound (rules ++ ks.map (Entry.rule ⟨pool, pool + n - 1⟩)) (pool + n) where
  ranges r hr := by
    rcases List.mem_append.mp hr with hr | hr
    · have := h.ranges r hr
      omega
    · obtain ⟨k, hk, rfl⟩ := List.mem_map.mp hr
      have : 0 < n := hn.resolve_left (List.ne_nil_of_mem hk)
      simp only [Entry.rule]
      omega
  blocks := by
    refine List.pairwise_append.mpr ⟨h.blocks, List.pairwise_map.mpr ?_, fun r hr q hq => Or.inr ?_⟩
    · exact List.pairwise_of_forall fun _ _ => Or.inl rfl
    · obtain ⟨k, -, rfl⟩ := List.mem_map.mp hq
      exact (h.ranges r hr).2
  listed r hr := by
    rcases List.mem_append.mp hr with hr | hr
    · exact h.listed r hr
    · obtain ⟨k, hk, rfl⟩ := List.mem_map.mp hr
      exact hks k hk
  order := by
    refine List.pairwise_append.mpr ⟨h.order, List.pairwise_map.mpr hord, fun r hr q hq => ?_⟩
    obtain ⟨k, hk, rfl⟩ := List.mem_map.mp hq
    exact hafter r hr k hk

/-- Rules with the same first reply are rules of one block. -/
theorem range_eq (h : RulesSound rules pool) {r q : Rule} (hr : r ∈ rules) (hq : q ∈ rules)
    (hfirst : r.range.first = q.range.first) : r.range = q.range := by
  have hpair : rules.Pairwise fun r q => r.range.first = q.range.first → r.range = q.range := by
    refine h.blocks.imp_of_mem fun {r q} hr _ hor hf => hor.resolve_right fun hlt => ?_
    have := h.ranges r hr
    omega
  exact List.Pairwise.forall_of_forall_of_flip (R := fun r q : Rule => r.range.first = q.range.first → r.range = q.range)
    (fun _ _ _ => rfl) hpair (hpair.imp fun hrq hf => (hrq hf.symm).symm) hr hq hfirst

end RulesSound

namespace Draft

structure Sound (d : Draft) : Prop where
  rules : RulesSound d.rules d.replies.length
  distinct : (d.rules.map (·.phrase)).Nodup
  listed : ∀ k ∈ d.block.keywords, Listed k.text
  order : d.block.keywords.Pairwise (·.line < ·.line)
  after : ∀ r ∈ d.rules, ∀ k ∈ d.block.keywords, r.line < k.line
  ruleLines : ∀ r ∈ d.rules, 1 ≤ r.line ∧ r.line ≤ d.lines
  keywordLines : ∀ k ∈ d.block.keywords, 1 ≤ k.line ∧ k.line ≤ d.lines

namespace Sound
variable {d d' : Draft} {raw : Text}

theorem empty : Sound empty where
  rules := ⟨by simp [Draft.empty], List.Pairwise.nil, by simp [Draft.empty], List.Pairwise.nil⟩
  distinct := List.nodup_nil
  listed := by simp [Draft.empty, Block.empty]
  order := List.Pairwise.nil
  after := by simp [Draft.empty]
  ruleLines := by simp [Draft.empty]
  keywordLines := by simp [Draft.empty, Block.empty]

theorem next (h : Sound d) (part : Part) : Sound { d with lines := d.lines + 1, part := part } where
  rules := h.rules
  distinct := h.distinct
  listed := h.listed
  order := h.order
  after := h.after
  ruleLines r hr := by
    have := h.ruleLines r hr
    show 1 ≤ r.line ∧ r.line ≤ d.lines + 1
    omega
  keywordLines k hk := by
    have := h.keywordLines k hk
    show 1 ≤ k.line ∧ k.line ≤ d.lines + 1
    omega

/-- A keyword comes after all that was read before it. -/
theorem addKeyword (h : Sound d) {t : Text} (ht : Listed t) : Sound { d with
    lines := d.lines + 1
    block := { d.block with keywords := d.block.keywords ++ [⟨d.lines + 1, t⟩] } } where
  rules := h.rules
  distinct := h.distinct
  listed k hk := by
    rcases List.mem_append.mp hk with hk | hk
    · exact h.listed k hk
    · rw [List.mem_singleton.mp hk]
      exact ht
  order := by
    refine List.pairwise_append.mpr ⟨h.order, List.pairwise_singleton _ _, fun k hk k' hk' => ?_⟩
    rw [List.mem_singleton.mp hk']
    exact Nat.lt_succ_of_le (h.keywordLines k hk).2
  after r hr k hk := by
    rcases List.mem_append.mp hk with hk | hk
    · exact h.after r hr k hk
    · rw [List.mem_singleton.mp hk]
      exact Nat.lt_succ_of_le (h.ruleLines r hr).2
  ruleLines := (h.next d.part).ruleLines
  keywordLines k hk := by
    rcases List.mem_append.mp hk with hk | hk
    · exact (h.next d.part).keywordLines k hk
    · rw [List.mem_singleton.mp hk]
      exact ⟨Nat.succ_pos _, Nat.le_refl _⟩

theorem add (h : Sound d) {t : Text} (ht : Listed t) :
    Sound { d with lines := d.lines + 1, block := d.block.add d.part ⟨d.lines + 1, t⟩ } := by
  obtain ⟨lines, part, block, rules, replies, blocks, notices⟩ := d
  cases part with
  | keywords => exact h.addKeyword ht
  | replies => exact ⟨h.rules, h.distinct, h.listed, h.order, h.after, (h.next .replies).ruleLines,
    (h.next .replies).keywordLines⟩

/-- The keywords of a block that closes become rules; a block with keywords has replies. -/
theorem close (h : Sound d) (hc : d.close = .ok d') : Sound d' := by
  have hfull := full_of_close hc
  obtain ⟨notices, hn⟩ := close_of_full (unshadowed_of_nodup h.distinct).symm hfull
  rw [hn] at hc
  cases hc
  have hsub := unshadowed_sublist (d.rules ++ d.block.keywords.map (Entry.rule d.range))
  have hrules := h.rules.append (n := d.block.replies.length) (hfull.imp id List.length_pos_iff.mpr) h.listed h.order
    h.after
  exact {
    rules := by simpa using hrules.sublist hsub
    distinct := nodup_unshadowed _
    listed := by simp [reopen, Block.empty]
    order := List.Pairwise.nil
    after := by simp [reopen, Block.empty]
    ruleLines := fun r hr => by
      rcases List.mem_append.mp (hsub.subset hr) with hr | hr
      · exact h.ruleLines r hr
      · obtain ⟨k, hk, rfl⟩ := List.mem_map.mp hr
        exact h.keywordLines k hk
    keywordLines := by simp [reopen, Block.empty] }

/-- Every line keeps the invariant. -/
theorem push (h : Sound d) (hp : d.push raw = .ok d') : Sound d' := by
  cases hl : Line.ofText raw with
  | skipped =>
    rw [push_skipped hl] at hp
    cases hp
    exact h.next d.part
  | turn =>
    rw [push_turn hl] at hp
    cases hp
    exact h.next .replies
  | close =>
    rw [push_close hl] at hp
    exact (h.next d.part).close hp
  | entry t =>
    rw [push_entry hl] at hp
    cases hp
    exact h.add (Line.listed_of_entry hl)

theorem pushAll (h : Sound d) {lines : List Text} (hp : d.pushAll lines = .ok d') : Sound d' := by
  induction lines using List.reverseRecOn generalizing d' with
  | nil =>
    cases hp
    exact h
  | append_singleton lines raw ih =>
    obtain ⟨d₁, hd, hp⟩ := pushAll_concat_eq_ok hp
    exact (ih hd).push hp

end Sound

end Draft

/-! ### Scripts -/

/-- A script that some file reads to. -/
def Loaded (s : Script) : Prop := ∃ fallback lines, (ofLines fallback lines).result = .ok s

/-- What conversations rely on. -/
structure WellFormed (s : Script) : Prop where
  rules : RulesSound s.rules s.replies.length
  distinct : (s.rules.map (·.phrase)).Nodup
  fallback : s.fallback < s.rules.length

theorem Loaded.wellFormed {s : Script} (h : s.Loaded) : s.WellFormed := by
  obtain ⟨fallback, lines, h⟩ := h
  obtain ⟨d, hd, hs⟩ := Draft.ofLines_eq_ok_iff.mp h
  obtain ⟨hrules, hreplies, hf⟩ := Draft.script_eq_ok hs
  have sound := Draft.Sound.empty.pushAll hd
  refine ⟨?_, ?_, ?_⟩
  · rw [hrules, hreplies]
    exact sound.rules
  · rw [hrules]
    exact sound.distinct
  · rw [hrules]
    exact (List.findIdx?_eq_some_iff_getElem.mp hf).1

theorem nodup_keywords {rules : List Rule} (h : (rules.map (·.phrase)).Nodup) : (rules.map Rule.keyword).Nodup := by
  refine List.pairwise_map.mpr ((List.pairwise_map.mp h).imp fun hne heq => hne ?_)
  simpa [Rule.keyword, Text.pad] using heq

/-- The rules of a script that was read: their replies lie in the pool, their keywords are distinct padded
    phrases, their lines rise, two of them share their replies or have disjoint ones in file order, and
    the fallback rule has the phrase that was asked for. -/
theorem ofLines_rules {fallback : Text} {lines : List Text} {s : Script}
    (h : (ofLines fallback lines).result = .ok s) :
    (∀ r ∈ s.rules, r.range.first ≤ r.range.last ∧ r.range.last < s.replies.length) ∧
    (s.rules.map Rule.keyword).Nodup ∧
    (∀ r ∈ s.rules, r.keyword = [' '] ++ r.phrase ++ [' '] ∧ Listed r.phrase) ∧
    s.rules.Pairwise (·.line < ·.line) ∧
    (∀ r ∈ s.rules, 1 ≤ r.line ∧ r.line ≤ lines.length) ∧
    s.rules.Pairwise (fun r q => r.range = q.range ∨ r.range.last < q.range.first) ∧
    (∀ r ∈ s.rules, ∀ q ∈ s.rules, r.range.first = q.range.first → r.range.last = q.range.last) ∧
    ∃ r, s.rules[s.fallback]? = some r ∧ r.phrase = fallback := by
  obtain ⟨d, hd, hs⟩ := Draft.ofLines_eq_ok_iff.mp h
  obtain ⟨hrules, hreplies, hf⟩ := Draft.script_eq_ok hs
  have sound := Draft.Sound.empty.pushAll hd
  rw [hrules, hreplies]
  refine ⟨sound.rules.ranges, ?_, fun r hr => ⟨rfl, sound.rules.listed r hr⟩, sound.rules.order, fun r hr => ?_,
    sound.rules.blocks, fun r hr q hq hfirst => congrArg _ (sound.rules.range_eq hr hq hfirst), ?_⟩
  · exact nodup_keywords sound.distinct
  · have := sound.ruleLines r hr
    rwa [Draft.lines_pushAll hd, Draft.empty, Nat.zero_add] at this
  · obtain ⟨hlt, hp, -⟩ := List.findIdx?_eq_some_iff_getElem.mp hf
    exact ⟨d.rules[s.fallback], List.getElem?_eq_getElem hlt, by simpa using hp⟩

/-- A file with two keywords in one block, a phrase that comes twice, replies that no keyword has, and an
    empty block. -/
theorem ofLines_rules_shadowed :
    let s : Script := ⟨[⟨['A'], ⟨0, 1⟩, 1⟩, ⟨['B'], ⟨0, 1⟩, 3⟩, ⟨['N'], ⟨3, 4⟩, 14⟩],
      [['X', '*'], ['Y'], ['O'], ['G'], ['S']], 2⟩
    (ofLines ['N'] (["A", "", " B ", "!", "X*", "Y", ".", "!", "O", ".", ".", "// c", "A", "N", "!", "G", "!", "S",
      "."].map String.toList)).result = .ok s ∧
    (∀ r ∈ s.rules, r.range.first ≤ r.range.last ∧ r.range.last < 5) ∧ (∀ r ∈ s.rules, 1 ≤ r.line ∧ r.line ≤ 19) ∧
    s.rules.Pairwise (fun r q => r.range = q.range ∨ r.range.last < q.range.first) ∧
    ∃ r, s.rules[s.fallback]? = some r ∧ r.phrase = ['N'] := by
  intro s
  have h : (ofLines ['N'] (["A", "", " B ", "!", "X*", "Y", ".", "!", "O", ".", ".", "// c", "A", "N", "!", "G", "!",
      "S", "."].map String.toList)).result = .ok s := by rfl
  obtain ⟨hranges, -, -, -, hlines, hblocks, -, hfallback⟩ := ofLines_rules h
  exact ⟨h, hranges, hlines, hblocks, hfallback⟩

end Dialogue.Script
