import Dialogue.Proofs.Script.Append
import Mathlib.Data.List.Nodup

/-! # Nothing in a file is lost without a warning

What a reading puts on record follows from the layout of its file (`Layout.warnings`): a duplicate for every
keyword that an earlier one has the text of, and a count for every block with replies and no keywords. Each
keyword line has a rule or a duplicate, and replies that no rule can give stand in a block that the record
names. -/

namespace Dialogue

/-- The line that a rule was read from. -/
def Rule.entry (r : Rule) : Script.Entry := ⟨r.line, r.phrase⟩

namespace Script

namespace Notice

/-- How many replies a notice says that no keyword has. -/
def orphans : Notice → Nat
  | .repliesWithoutKeywords _ n => n
  | _ => 0

/-- How many replies all of some notices say that no keyword has. -/
def allOrphans : List Notice → Nat
  | [] => 0
  | notice :: notices => notice.orphans + allOrphans notices

theorem allOrphans_append (ns ms : List Notice) : allOrphans (ns ++ ms) = allOrphans ns + allOrphans ms := by
  induction ns with
  | nil => exact (Nat.zero_add _).symm
  | cons n ns ih => rw [List.cons_append, allOrphans, allOrphans, ih, Nat.add_assoc]

theorem allOrphans_eq_zero {ns : List Notice} (h : ∀ notice ∈ ns, notice.orphans = 0) : allOrphans ns = 0 := by
  induction ns with
  | nil => rfl
  | cons n ns ih =>
    obtain ⟨hn, hns⟩ := List.forall_mem_cons.mp h
    rw [allOrphans, hn, ih hns]

end Notice

def Block.list (b : Block) : Part → List Entry
  | .keywords => b.keywords
  | .replies => b.replies

theorem Block.list_add (b : Block) (part part' : Part) (e : Entry) :
    (b.add part' e).list part = b.list part ++ if part' = part then [e] else [] := by
  cases part <;> cases part' <;> simp [Block.add, Block.list]

namespace Layout
variable {es : List Entry} {bs : List (Block × Entry)} {seen ks : List Entry} {k : Entry} {p : Text} {n : Nat}

/-! ### What a line lists -/

/-- What the lines behind a line list. -/
def partAfter (part : Part) (e : Entry) : Part :=
  if isClose e then .keywords else if isTurn e then .replies else part

/-- The lines that list keywords, or those that list replies. `now` is what the first line lists. -/
def listing (part now : Part) : List Entry → List Entry
  | [] => []
  | e :: es => (if now = part ∧ ¬isTurn e ∧ ¬isClose e then [e] else []) ++ listing part (partAfter now e) es

theorem listing_sublist (part : Part) : ∀ (now : Part) (es : List Entry), (listing part now es).Sublist es
  | _, [] => List.Sublist.refl _
  | now, e :: es => by
    have ih := listing_sublist part (partAfter now e) es
    rw [listing]
    split
    · exact ih.cons_cons e
    · exact ih.cons e

theorem listing_append (part now : Part) (es es' : List Entry) :
    listing part now (es ++ es') = listing part now es ++ listing part (es.foldl partAfter now) es' := by
  induction es generalizing now with
  | nil => rfl
  | cons e es ih => rw [List.cons_append, listing, listing, ih, List.append_assoc, List.foldl_cons]

theorem foldl_partAfter (es : List Entry) : es.foldl partAfter .keywords = partOf (tail es) := by
  induction es using List.reverseRecOn with
  | nil => rfl
  | append_singleton es e ih =>
    rw [List.foldl_append, ih, tail_concat, List.foldl_cons, List.foldl_nil, partAfter]
    cases isClose e with
    | true => rfl
    | false => exact (partOf_concat (tail es) e).symm

/-- The blocks list what the lines list. -/
theorem listing_eq (part : Part) (es : List Entry) : listing part .keywords es =
    (blocks es).flatMap (·.1.list part) ++ (blockOf (tail es)).list part := by
  induction es using List.reverseRecOn with
  | nil => cases part <;> rfl
  | append_singleton es e ih =>
    rw [listing_append, ih, foldl_partAfter, listing, listing, List.append_nil, blocks_concat, tail_concat]
    cases hc : isClose e with
    | true => cases part <;> simp [Block.list, blockOf]
    | false =>
      have hblock := blockOf_concat (tail es) e
      cases ht : isTurn e with
      | true => simp_all
      | false => simp_all [Block.list_add]

/-- A file that is read has no keywords and no replies behind its last block. -/
theorem listing_of_settled (h : ∀ e ∈ tail es, isTurn e) (part : Part) :
    listing part .keywords es = (blocks es).flatMap (·.1.list part) := by
  have hnil : (blockOf (tail es)).keywords ++ (blockOf (tail es)).replies = [] := by
    rw [keywords_append_replies, List.filter_eq_nil_iff]
    intro e he
    simp [h e he]
  obtain ⟨hkeywords, hreplies⟩ := List.append_eq_nil_iff.mp hnil
  rw [listing_eq]
  cases part <;> simp [Block.list, hkeywords, hreplies]

/-- Lines that count keep the order of the file. -/
theorem lines_content (lines : List Text) : ((content lines).map (·.line)).Pairwise (· < ·) := by
  have hlines : (lines.zipIdx 1).map Prod.snd = List.range' 1 lines.length := List.zipIdx_map_snd 1 lines
  refine List.Pairwise.sublist (List.filter_sublist.map _) ?_
  rw [List.map_map]
  show ((lines.zipIdx 1).map Prod.snd).Pairwise (· < ·)
  rw [hlines]
  exact List.pairwise_lt_range'

theorem map_close_blocks (es : List Entry) : (blocks es).map (·.2) = es.filter isClose := by
  induction es using List.reverseRecOn with
  | nil => rfl
  | append_singleton es e ih =>
    rw [blocks_concat, List.map_append, ih, List.filter_append]
    cases he : isClose e <;> simp [he]

theorem nodup_closes (hes : (es.map (·.line)).Pairwise (· < ·)) : ((blocks es).map (·.2.line)).Nodup := by
  have hcloses : (blocks es).map (·.2.line) = (es.filter isClose).map (·.line) := by
    rw [← map_close_blocks, List.map_map]
    rfl
  rw [hcloses]
  exact (hes.imp Nat.ne_of_lt).sublist (List.filter_sublist.map _)

/-! ### Warnings -/

/-- A notice for each keyword whose text an earlier one has. -/
def duplicates (seen : List Entry) : List Entry → List Notice
  | [] => []
  | k :: ks => (if ∃ e ∈ seen, e.text = k.text then [.duplicateKeyword k.line k.text] else []) ++
      duplicates (seen ++ [k]) ks

def orphans (b : Block × Entry) : List Notice :=
  if b.1.keywords = [] ∧ b.1.replies ≠ [] then [.repliesWithoutKeywords b.2.line b.1.replies.length] else []

/-- What is put on record of blocks. -/
def warnings (seen : List Entry) : List (Block × Entry) → List Notice
  | [] => []
  | b :: bs => orphans b ++ duplicates seen b.1.keywords ++ warnings (seen ++ b.1.keywords) bs

theorem duplicates_append (seen ks ks' : List Entry) :
    duplicates seen (ks ++ ks') = duplicates seen ks ++ duplicates (seen ++ ks) ks' := by
  induction ks generalizing seen with
  | nil => simp [duplicates]
  | cons k ks ih => simp [duplicates, ih, List.append_assoc]

theorem exists_of_mem_duplicates {notice : Notice} (h : notice ∈ duplicates seen ks) :
    ∃ k ∈ ks, notice = .duplicateKeyword k.line k.text := by
  induction ks generalizing seen with
  | nil => cases h
  | cons k ks ih =>
    rcases List.mem_append.mp h with h | h
    · split at h
      · exact ⟨k, List.mem_cons_self, List.mem_singleton.mp h⟩
      · cases h
    · obtain ⟨k', hk', hnotice⟩ := ih h
      exact ⟨k', List.mem_cons_of_mem k hk', hnotice⟩

theorem mem_of_duplicate (h : .duplicateKeyword n p ∈ duplicates seen ks) : ⟨n, p⟩ ∈ ks := by
  obtain ⟨k, hk, hnotice⟩ := exists_of_mem_duplicates h
  cases hnotice
  exact hk

theorem warnings_concat (seen : List Entry) (bs : List (Block × Entry)) (b : Block × Entry) :
    warnings seen (bs ++ [b]) =
      warnings seen bs ++ (orphans b ++ duplicates (seen ++ bs.flatMap (·.1.keywords)) b.1.keywords) := by
  induction bs generalizing seen with
  | nil => simp [warnings]
  | cons b' bs ih => simp [warnings, ih, List.append_assoc]

/-- Keywords of different blocks are told apart as little as those of one block. -/
theorem count_duplicate_warnings (seen : List Entry) (bs : List (Block × Entry)) (n : Nat) (p : Text) :
    (warnings seen bs).count (.duplicateKeyword n p) =
      (duplicates seen (bs.flatMap (·.1.keywords))).count (.duplicateKeyword n p) := by
  induction bs generalizing seen with
  | nil => rfl
  | cons b bs ih =>
    have horphans : (orphans b).count (.duplicateKeyword n p) = 0 := by
      unfold orphans
      split <;> simp
    rw [warnings, List.count_append, List.count_append, horphans, ih, List.flatMap_cons, duplicates_append,
      List.count_append, Nat.zero_add]

theorem count_orphans_warnings (seen : List Entry) (bs : List (Block × Entry)) (n m : Nat) :
    (warnings seen bs).count (.repliesWithoutKeywords n m) =
      (bs.flatMap orphans).count (.repliesWithoutKeywords n m) := by
  have hduplicates (seen ks : List Entry) : (duplicates seen ks).count (.repliesWithoutKeywords n m) = 0 := by
    refine List.count_eq_zero.mpr fun hmem => ?_
    obtain ⟨k, -, hnotice⟩ := exists_of_mem_duplicates hmem
    cases hnotice
  induction bs generalizing seen with
  | nil => rfl
  | cons b bs ih =>
    rw [warnings, List.count_append, List.count_append, hduplicates, ih, List.flatMap_cons, List.count_append]
    rfl

/-! ### Keywords and rules -/

theorem map_entry_rules (first : Nat) (bs : List (Block × Entry)) :
    (rules first bs).map Rule.entry = bs.flatMap (·.1.keywords) := by
  induction bs generalizing first with
  | nil => rfl
  | cons b bs ih =>
    have hkeywords (range : ReplyRange) : (b.1.keywords.map (Entry.rule range)).map Rule.entry = b.1.keywords := by
      rw [List.map_map]
      exact List.map_id _
    rw [rules, List.map_append, hkeywords, ih, List.flatMap_cons]

section Kept
variable {rs : List Rule} {r : Rule}

/-- One more keyword is a duplicate just if its rule does not stay. -/
theorem duplicates_concat (rs : List Rule) (r : Rule) : duplicates [] ((rs ++ [r]).map Rule.entry) =
    duplicates [] (rs.map Rule.entry) ++
      if ∃ q ∈ rs, q.phrase = r.phrase then [.duplicateKeyword r.line r.phrase] else [] := by
  rw [List.map_append, List.map_singleton, duplicates_append]
  simp [duplicates, Rule.entry]

/-- Either the rule of a keyword stays or there is a duplicate, and that once. -/
theorem countP_add_count_eq_one (hlines : (rs.map (·.line)).Nodup) (hr : r ∈ rs) :
    (unshadowed rs).countP (·.line = r.line) +
      (duplicates [] (rs.map Rule.entry)).count (.duplicateKeyword r.line r.phrase) = 1 := by
  induction rs using List.reverseRecOn with
  | nil => cases hr
  | append_singleton rs q ih =>
    rw [List.map_append, List.map_singleton, List.nodup_append] at hlines
    obtain ⟨hnodup, -, hnew⟩ := hlines
    have hne : ∀ r' ∈ rs, r'.line ≠ q.line := fun r' hr' => hnew _ (List.mem_map_of_mem hr') _ (by simp)
    rw [unshadowed_concat, duplicates_concat, List.countP_append, List.count_append]
    rcases List.mem_append.mp hr with hr | hr
    · have hold := ih hnodup hr
      have hq : q.line ≠ r.line := (hne r hr).symm
      split <;> simp_all
    · -- Nothing before the last keyword has its line.
      cases List.mem_singleton.mp hr
      have hrules : (unshadowed rs).countP (·.line = r.line) = 0 := by
        refine List.countP_eq_zero.mpr fun r' hr' => ?_
        simpa using hne r' ((unshadowed_sublist rs).subset hr')
      have hnotices : (duplicates [] (rs.map Rule.entry)).count (.duplicateKeyword r.line r.phrase) = 0 := by
        refine List.count_eq_zero.mpr fun hmem => ?_
        obtain ⟨r', hr', hentry⟩ := List.mem_map.mp (mem_of_duplicate hmem)
        exact hne r' hr' (congrArg Entry.line hentry)
      rw [hrules, hnotices]
      split <;> simp

/-- A duplicate has the phrase of a rule that stays and that was read before it. -/
theorem exists_rule_of_duplicate (hlines : (rs.map (·.line)).Pairwise (· < ·))
    (h : .duplicateKeyword n p ∈ duplicates [] (rs.map Rule.entry)) : ∃ q ∈ unshadowed rs, q.phrase = p ∧ q.line < n := by
  induction rs using List.reverseRecOn with
  | nil => cases h
  | append_singleton rs r ih =>
    rw [List.map_append, List.map_singleton, List.pairwise_append] at hlines
    obtain ⟨hold, -, hnew⟩ := hlines
    rw [unshadowed_concat]
    rw [duplicates_concat] at h
    rcases List.mem_append.mp h with h | h
    · obtain ⟨q, hq, hphrase⟩ := ih hold h
      exact ⟨q, List.mem_append_left _ hq, hphrase⟩
    · split at h
      · rename_i hshadowed
        cases List.mem_singleton.mp h
        obtain ⟨q, hq, hphrase⟩ := exists_mem_unshadowed.mpr hshadowed
        have hmem : q ∈ rs := (unshadowed_sublist rs).subset hq
        exact ⟨q, List.mem_append_left _ hq, hphrase, hnew _ (List.mem_map_of_mem hmem) _ (by simp)⟩
      · cases h

end Kept

/-! ### Replies without keywords -/

/-- A block with replies and no keywords is on record once. -/
theorem count_orphans_eq_one {before after : List (Block × Entry)} {b : Block × Entry}
    (hlines : ((before ++ b :: after).map (·.2.line)).Nodup) (hkeywords : b.1.keywords = []) (hreplies : b.1.replies ≠ []) :
    (warnings seen (before ++ b :: after)).count (.repliesWithoutKeywords b.2.line b.1.replies.length) = 1 := by
  have hother : ∀ bs : List (Block × Entry), b.2.line ∉ bs.map (·.2.line) →
      (bs.flatMap orphans).count (.repliesWithoutKeywords b.2.line b.1.replies.length) = 0 := by
    intro bs hbs
    refine List.count_eq_zero.mpr fun hmem => hbs ?_
    obtain ⟨b', hb', hmem⟩ := List.mem_flatMap.mp hmem
    unfold orphans at hmem
    split at hmem
    · exact List.mem_map.mpr ⟨b', hb', (Notice.repliesWithoutKeywords.inj (List.mem_singleton.mp hmem)).1.symm⟩
    · cases hmem
  rw [List.map_append, List.map_cons] at hlines
  obtain ⟨-, hrest, hdisjoint⟩ := List.nodup_append.mp hlines
  have hbefore : b.2.line ∉ before.map (·.2.line) := fun hmem => hdisjoint _ hmem _ List.mem_cons_self rfl
  have hafter : b.2.line ∉ after.map (·.2.line) := (List.nodup_cons.mp hrest).1
  have hself : orphans b = [.repliesWithoutKeywords b.2.line b.1.replies.length] := if_pos ⟨hkeywords, hreplies⟩
  rw [count_orphans_warnings, List.flatMap_append, List.flatMap_cons, List.count_append, List.count_append,
    hother before hbefore, hother after hafter, hself, List.count_singleton_self]

/-- The counts on record add up to the replies of the blocks without keywords. -/
theorem allOrphans_warnings (seen : List Entry) (bs : List (Block × Entry)) :
    Notice.allOrphans (warnings seen bs) = (replies (bs.filter (·.1.keywords = []))).length := by
  have hduplicates (seen ks : List Entry) : Notice.allOrphans (duplicates seen ks) = 0 := by
    refine Notice.allOrphans_eq_zero fun notice hmem => ?_
    obtain ⟨k, -, rfl⟩ := exists_of_mem_duplicates hmem
    rfl
  induction bs generalizing seen with
  | nil => rfl
  | cons b bs ih =>
    rw [warnings, Notice.allOrphans_append, Notice.allOrphans_append, hduplicates, ih, Nat.add_zero]
    by_cases hkeywords : b.1.keywords = []
    · have horphans : Notice.allOrphans (orphans b) = b.1.replies.length := by
        cases hreplies : b.1.replies <;> simp [orphans, hkeywords, hreplies, Notice.allOrphans, Notice.orphans]
      rw [horphans, List.filter_cons_of_pos (by simpa using hkeywords), replies, replies, List.flatMap_cons,
        List.length_append, List.length_map]
    · simp [orphans, hkeywords, Notice.allOrphans]

/-- Every place of the pool is in the stretch of a block. -/
theorem exists_block_of_lt {i : Nat} (h : i < (replies bs).length) : ∃ before b after, bs = before ++ b :: after ∧
    (replies before).length ≤ i ∧ i < (replies before).length + b.1.replies.length := by
  induction bs using List.reverseRecOn with
  | nil => cases h
  | append_singleton bs b ih =>
    by_cases hi : i < (replies bs).length
    · obtain ⟨before, b', after, rfl, hle, hlt⟩ := ih hi
      exact ⟨before, b', after ++ [b], by simp, hle, hlt⟩
    · rw [replies_concat, List.length_append, List.length_map] at h
      exact ⟨bs, b, [], rfl, Nat.le_of_not_lt hi, h⟩

/-! ### A file that is read -/

namespace Reads
variable {fallback : Text} {s : Script}

theorem map_entry_rules (h : Reads fallback es s) :
    (Layout.rules 0 (blocks es)).map Rule.entry = listing .keywords .keywords es :=
  (Layout.map_entry_rules 0 (blocks es)).trans (listing_of_settled h.settled .keywords).symm

theorem lines_rules (h : Reads fallback es s) (hes : (es.map (·.line)).Pairwise (· < ·)) :
    ((Layout.rules 0 (blocks es)).map (·.line)).Pairwise (· < ·) := by
  have hlines : (Layout.rules 0 (blocks es)).map (·.line) =
      ((Layout.rules 0 (blocks es)).map Rule.entry).map (·.line) := by
    rw [List.map_map]
    rfl
  rw [hlines, h.map_entry_rules]
  exact hes.sublist ((listing_sublist _ _ _).map _)

/-- Each keyword line has one rule or one duplicate. -/
theorem rule_or_duplicate (h : Reads fallback es s) (hes : (es.map (·.line)).Pairwise (· < ·))
    (hk : k ∈ listing .keywords .keywords es) :
    s.rules.countP (·.line = k.line) + (warnings [] (blocks es)).count (.duplicateKeyword k.line k.text) = 1 := by
  rw [← h.map_entry_rules] at hk
  obtain ⟨r, hr, rfl⟩ := List.mem_map.mp hk
  have hnodup : ((Layout.rules 0 (blocks es)).map (·.line)).Nodup := (h.lines_rules hes).imp Nat.ne_of_lt
  rw [h.rules, count_duplicate_warnings, ← Layout.map_entry_rules 0]
  exact countP_add_count_eq_one hnodup hr

/-- A duplicate is at a keyword line, and its phrase has a rule from an earlier one. -/
theorem of_duplicate (h : Reads fallback es s) (hes : (es.map (·.line)).Pairwise (· < ·))
    (hmem : .duplicateKeyword n p ∈ warnings [] (blocks es)) :
    ⟨n, p⟩ ∈ listing .keywords .keywords es ∧ ∃ r ∈ s.rules, r.phrase = p ∧ r.line < n := by
  rw [← List.count_pos_iff, count_duplicate_warnings, List.count_pos_iff, ← Layout.map_entry_rules 0] at hmem
  rw [← h.map_entry_rules, h.rules]
  exact ⟨mem_of_duplicate hmem, exists_rule_of_duplicate (h.lines_rules hes) hmem⟩

/-- What stands at a line of the file is told by the line. -/
theorem eq_of_line (hes : (es.map (·.line)).Pairwise (· < ·)) {e e' : Entry}
    (he : e ∈ listing .keywords .keywords es) (he' : e' ∈ listing .keywords .keywords es) (hline : e.line = e'.line) :
    e = e' :=
  List.inj_on_of_nodup_map (hes.imp Nat.ne_of_lt) ((listing_sublist _ _ _).subset he)
    ((listing_sublist _ _ _).subset he') hline

/-- A keyword without a duplicate has a rule, and that has the range of its block. -/
theorem rule_mem_of_unwarned (h : Reads fallback es s) (hes : (es.map (·.line)).Pairwise (· < ·))
    {before after : List (Block × Entry)} {b : Block × Entry} (hblocks : blocks es = before ++ b :: after)
    (hk : k ∈ b.1.keywords) (hmem : .duplicateKeyword k.line k.text ∉ warnings [] (blocks es)) :
    k.rule ⟨(Layout.replies before).length, (Layout.replies before).length + b.1.replies.length - 1⟩ ∈ s.rules := by
  have hlisted : k ∈ listing .keywords .keywords es := by
    rw [← h.map_entry_rules, Layout.map_entry_rules, hblocks]
    exact List.mem_flatMap.mpr ⟨b, by simp, hk⟩
  have hcount := h.rule_or_duplicate hes hlisted
  rw [List.count_eq_zero.mpr hmem, Nat.add_zero] at hcount
  obtain ⟨r, hr, hline⟩ := List.countP_pos_iff.mp (hcount ▸ Nat.one_pos)
  obtain ⟨q, hq⟩ : ∃ q, q = k.rule
      ⟨(Layout.replies before).length, (Layout.replies before).length + b.1.replies.length - 1⟩ := ⟨_, rfl⟩
  have hqmem : q ∈ Layout.rules 0 (blocks es) := by
    rw [hblocks, rules_append, Layout.rules, Nat.zero_add, hq]
    exact List.mem_append_right _ (List.mem_append_left _ (List.mem_map_of_mem hk))
  have hrmem : r ∈ Layout.rules 0 (blocks es) := (unshadowed_sublist _).subset (h.rules ▸ hr)
  have hqline : r.line = q.line := by
    rw [hq]
    exact of_decide_eq_true hline
  -- No two keywords stand at one line.
  have hrq : r = q := List.inj_on_of_nodup_map ((h.lines_rules hes).imp Nat.ne_of_lt) hrmem hqmem hqline
  rw [← hq, ← hrq]
  exact hr

/-- A reply that no rule can give stands in a block without keywords, or in one whose keywords are all
    duplicates. -/
theorem unreachable (h : Reads fallback es s) (hes : (es.map (·.line)).Pairwise (· < ·)) {i : Nat}
    (hi : i < s.replies.length) (hnone : ∀ r ∈ s.rules, ¬r.range.contains i) : ∃ before b after,
    blocks es = before ++ b :: after ∧ (Layout.replies before).length ≤ i ∧
      i < (Layout.replies before).length + b.1.replies.length ∧
      (b.1.keywords = [] ∧
          (warnings [] (blocks es)).count (.repliesWithoutKeywords b.2.line b.1.replies.length) = 1 ∨
        b.1.keywords ≠ [] ∧ ∀ k ∈ b.1.keywords, .duplicateKeyword k.line k.text ∈ warnings [] (blocks es)) := by
  rw [h.replies] at hi
  obtain ⟨before, b, after, hblocks, hle, hlt⟩ := exists_block_of_lt hi
  refine ⟨before, b, after, hblocks, hle, hlt, ?_⟩
  by_cases hkeywords : b.1.keywords = []
  · have hreplies : b.1.replies ≠ [] := List.ne_nil_of_length_pos (by omega)
    have hcloses := hblocks ▸ nodup_closes hes
    exact Or.inl ⟨hkeywords, hblocks ▸ count_orphans_eq_one hcloses hkeywords hreplies⟩
  · refine Or.inr ⟨hkeywords, fun k hk => ?_⟩
    by_contra hmem
    have hlast : i ≤ (Layout.replies before).length + b.1.replies.length - 1 := by omega
    exact hnone _ (h.rule_mem_of_unwarned hes hblocks hk hmem)
      (Bool.and_eq_true_iff.mpr ⟨decide_eq_true hle, decide_eq_true hlast⟩)

end Reads

end Layout

/-! ### What a reading puts on record -/

namespace Draft
open Layout
variable {d d' : Draft} {seen : List Entry} {lines : List Text}

/-- The phrases of the rules are the texts of these entries. -/
def Enrolled (d : Draft) (seen : List Entry) : Prop :=
  ∀ p, (∃ r ∈ d.rules, r.phrase = p) ↔ ∃ e ∈ seen, e.text = p

theorem notices_foldl_enroll (range : ReplyRange) (ks : List Entry) (h : d.Enrolled seen) :
    (ks.foldl (enroll range) d).notices = d.notices ++ duplicates seen ks := by
  induction ks generalizing d seen with
  | nil => exact (List.append_nil _).symm
  | cons k ks ih =>
    have hany : d.rules.any (·.phrase = k.text) = true ↔ ∃ e ∈ seen, e.text = k.text := by
      simpa using h k.text
    rw [List.foldl_cons, duplicates]
    by_cases hk : d.rules.any (·.phrase = k.text) = true
    · have hold := hany.mp hk
      have hnext : Enrolled { d with notices := d.notices ++ [.duplicateKeyword k.line k.text] } (seen ++ [k]) := by
        intro p
        refine (h p).trans ⟨?_, ?_⟩
        · rintro ⟨e, he, hp⟩
          exact ⟨e, List.mem_append_left _ he, hp⟩
        · rintro ⟨e, he, hp⟩
          rcases List.mem_append.mp he with he | he
          · exact ⟨e, he, hp⟩
          · rwa [← hp, List.mem_singleton.mp he]
      rw [enroll, if_pos hk, ih hnext, if_pos hold, List.append_assoc]
    · have hnext : Enrolled { d with rules := d.rules ++ [k.rule range] } (seen ++ [k]) := by
        intro p
        simp only [List.mem_append, or_and_right, exists_or, h p]
        simp [Entry.rule]
      rw [enroll, if_neg hk, if_neg (hany.not.mp hk), List.nil_append]
      exact ih hnext

theorem notices_close (h : d.Enrolled seen) (hc : d.close = .ok d') (e : Entry) (he : e.line = d.lines) :
    d'.notices = d.notices ++ (orphans (d.block, e) ++ duplicates seen d.block.keywords) := by
  cases hk : d.block.keywords with
  | nil =>
    cases hr : d.block.replies with
    | nil =>
      simp only [close, hk, hr, Except.ok.injEq] at hc
      simp [← hc, reopen, orphans, hr, duplicates]
    | cons r rs =>
      simp only [close, hk, hr, Except.ok.injEq] at hc
      simp [← hc, orphans, hk, hr, duplicates, he]
  | cons k ks =>
    cases hr : d.block.replies with
    | nil => simp [close, hk, hr] at hc
    | cons r rs =>
      simp only [close, hk, hr, Except.ok.injEq] at hc
      have hopen : Enrolled { d.reopen with replies := d.replies ++ (r :: rs).map (·.text) } seen := h
      rw [← hc, notices_foldl_enroll _ _ hopen]
      simp [orphans, hk, reopen]

/-- After any lines the warnings are those of the closed blocks. -/
theorem notices_pushAll (h : empty.pushAll lines = .ok d) : d.notices = warnings [] (Layout.blocks (content lines)) := by
  induction lines using List.reverseRecOn generalizing d with
  | nil =>
    cases h
    rfl
  | append_singleton lines raw ih =>
    obtain ⟨d₁, hd, hpush⟩ := pushAll_concat_eq_ok h
    have hold := ih hd
    have hagrees := agrees_pushAll lines
    rw [hd] at hagrees
    obtain ⟨hlines, hfollows⟩ := hagrees
    rw [content_concat]
    cases hl : Line.ofText raw with
    | skipped =>
      rw [push_skipped hl] at hpush
      cases hpush
      rw [if_pos (Line.ofText_skipped_iff.mp hl), List.append_nil]
      exact hold
    | turn =>
      obtain ⟨hb, ht⟩ := Line.ofText_turn_iff.mp hl
      rw [push_turn hl] at hpush
      cases hpush
      rw [if_neg hb, blocks_concat]
      simpa [isClose, ht] using hold
    | entry t =>
      obtain ⟨hb, -, hc, -⟩ := Line.ofText_entry_iff.mp hl
      rw [push_entry hl] at hpush
      cases hpush
      rw [if_neg hb, blocks_concat]
      simpa [isClose, hc] using hold
    | close =>
      obtain ⟨hb, hc⟩ := Line.ofText_close_iff.mp hl
      rw [push_close hl] at hpush
      have henrolled : d₁.Enrolled ((Layout.blocks (content lines)).flatMap (·.1.keywords)) := by
        intro p
        rw [hfollows.rules]
        refine exists_mem_unshadowed.trans (exists_mem_rules.trans ?_)
        simp only [List.mem_flatMap]
        constructor
        · rintro ⟨b, hb, e, he, hp⟩
          exact ⟨e, ⟨b, hb, he⟩, hp⟩
        · rintro ⟨e, ⟨b, hb, he⟩, hp⟩
          exact ⟨b, hb, e, he, hp⟩
      have hclosed := notices_close (d := { d₁ with lines := d₁.lines + 1 }) henrolled hpush
        ⟨lines.length + 1, raw.trim⟩ (congrArg (· + 1) hlines.symm)
      have he : isClose ⟨lines.length + 1, raw.trim⟩ = true := by simpa [isClose] using hc
      rw [if_neg hb, blocks_concat, if_pos he, warnings_concat, List.nil_append, ← hold, ← hfollows.block]
      exact hclosed

theorem read_of_pushAll (fallback : Text) (h : d.pushAll lines = .ok d') :
    d.read fallback (lines.map some) = d'.finish fallback := by
  induction lines generalizing d with
  | nil =>
    cases h
    rfl
  | cons raw lines ih =>
    rw [pushAll, List.foldlM_cons] at h
    rw [List.map_cons, read]
    cases hp : d.push raw with
    | ok d₁ =>
      rw [hp] at h
      exact ih h
    | error e =>
      rw [hp] at h
      cases h

end Draft

section Files
variable {fallback : Text} {lines : List Text} {s : Script}

/-- A file that is read is on record with its warnings and, at the end, what was loaded. -/
theorem notices_ofLines (h : (ofLines fallback lines).result = .ok s) : (ofLines fallback lines).notices =
    Layout.warnings [] (Layout.blocks (Layout.content lines)) ++
      [.loaded s.rules.length s.replies.length ((Layout.content lines).countP Layout.isClose)] := by
  obtain ⟨d, hd, hs⟩ := Draft.ofLines_eq_ok_iff.mp h
  have hagrees := Draft.agrees_pushAll lines
  rw [hd] at hagrees
  have hblocks : d.blocks = (Layout.content lines).countP Layout.isClose := by
    rw [hagrees.2.blocks, List.countP_eq_length_filter, ← Layout.map_close_blocks, List.length_map]
  rw [ofLines, Draft.read_of_pushAll fallback hd, Draft.finish, hs, Draft.notices_pushAll hd, hblocks]

/-- Of a file that is read nothing is lost in silence. Each line that lists a keyword has one rule or one
    duplicate on record, not both, and the phrase of a duplicate has a rule from an earlier line. The pool is
    the lines that list replies, in their order. A reply that is in no rule's range stands in a block that is
    on record, once for having no keywords or with a duplicate for every keyword. The counts of the blocks
    without keywords add up to their replies, and at the end stand the numbers of rules, of replies and of
    lines that close a block. -/
theorem ofLines_accounts (h : (ofLines fallback lines).result = .ok s) :
    let es := Layout.content lines
    let keywords := Layout.listing .keywords .keywords es
    let notices := (ofLines fallback lines).notices
    (∀ k ∈ keywords, s.rules.countP (·.line = k.line) + notices.count (.duplicateKeyword k.line k.text) = 1 ∧
      (∀ r ∈ s.rules, r.line = k.line → r.phrase = k.text) ∧
      ∀ p, .duplicateKeyword k.line p ∈ notices → p = k.text) ∧
    (∀ n p, .duplicateKeyword n p ∈ notices → ⟨n, p⟩ ∈ keywords ∧ ∃ r ∈ s.rules, r.phrase = p ∧ r.line < n) ∧
    s.replies = (Layout.listing .replies .keywords es).map (·.text) ∧
    (∀ i < s.replies.length, (∀ r ∈ s.rules, ¬r.range.contains i) → ∃ before b close after,
      Layout.blocks es = before ++ (b, close) :: after ∧ (Layout.replies before).length ≤ i ∧
        i < (Layout.replies before).length + b.replies.length ∧
        (b.keywords = [] ∧ notices.count (.repliesWithoutKeywords close.line b.replies.length) = 1 ∨
          b.keywords ≠ [] ∧ ∀ k ∈ b.keywords, .duplicateKeyword k.line k.text ∈ notices)) ∧
    Notice.allOrphans notices = (Layout.replies ((Layout.blocks es).filter (·.1.keywords = []))).length ∧
    notices.getLast? = some (.loaded s.rules.length s.replies.length (es.countP Layout.isClose)) := by
  intro es keywords notices
  have hreads : Layout.Reads fallback es s := Layout.ofLines_eq_ok_iff_reads.mp h
  have hes : (es.map (·.line)).Pairwise (· < ·) := Layout.lines_content lines
  have hnotices : notices = Layout.warnings [] (Layout.blocks es) ++
    [.loaded s.rules.length s.replies.length (es.countP Layout.isClose)] := notices_ofLines h
  have hduplicate : ∀ n p, .duplicateKeyword n p ∈ notices → .duplicateKeyword n p ∈ Layout.warnings [] (Layout.blocks es) := by
    intro n p hmem
    rw [hnotices] at hmem
    simpa using hmem
  have hrule : ∀ r ∈ s.rules, r.entry ∈ keywords := by
    intro r hr
    rw [hreads.rules] at hr
    have hentry := List.mem_map_of_mem (f := Rule.entry) ((unshadowed_sublist _).subset hr)
    rwa [hreads.map_entry_rules] at hentry
  refine ⟨fun k hk => ⟨?_, fun r hr hline => ?_, fun p hmem => ?_⟩, fun n p hmem => ?_, ?_, fun i hi hnone => ?_, ?_, ?_⟩
  · have hcount := hreads.rule_or_duplicate hes hk
    rw [hnotices, List.count_append]
    simpa using hcount
  · exact congrArg Entry.text (Layout.Reads.eq_of_line hes (hrule r hr) hk hline)
  · exact congrArg Entry.text (Layout.Reads.eq_of_line hes (hreads.of_duplicate hes (hduplicate _ _ hmem)).1 hk rfl)
  · exact hreads.of_duplicate hes (hduplicate n p hmem)
  · rw [hreads.replies, Layout.listing_of_settled hreads.settled, List.map_flatMap]
    rfl
  · obtain ⟨before, ⟨b, close⟩, after, hblocks, hle, hlt, hlost⟩ := hreads.unreachable hes hi hnone
    refine ⟨before, b, close, after, hblocks, hle, hlt, hlost.imp ?_ ?_⟩
    · rintro ⟨hkeywords, hcount⟩
      rw [hnotices, List.count_append]
      exact ⟨hkeywords, by simpa using hcount⟩
    · rintro ⟨hkeywords, hduplicates⟩
      rw [hnotices]
      exact ⟨hkeywords, fun k hk => List.mem_append_left _ (hduplicates k hk)⟩
  · rw [hnotices, Notice.allOrphans_append, Layout.allOrphans_warnings]
    rfl
  · rw [hnotices]
    exact List.getLast?_concat

/-- A keyword twice in its block, replies without keywords, a block of which all keywords are duplicates, and an
    empty block. -/
theorem ofLines_accounts_shadowed :
    let lines := ["A", "A", "!", "X", ".", "!", "O", "P", ".", "A", "!", "Y", ".", ".", "N", "!", "Z", "."].map
      String.toList
    let s : Script := ⟨[⟨['A'], ⟨0, 0⟩, 1⟩, ⟨['N'], ⟨4, 4⟩, 15⟩], [['X'], ['O'], ['P'], ['Y'], ['Z']], 1⟩
    let notices := (ofLines ['N'] lines).notices
    (ofLines ['N'] lines).result = .ok s ∧ notices.count (.duplicateKeyword 2 ['A']) = 1 ∧
      (∃ r ∈ s.rules, r.phrase = ['A'] ∧ r.line < 10) ∧
      (∃ before b close after, Layout.blocks (Layout.content lines) = before ++ (b, close) :: after ∧
        (Layout.replies before).length ≤ 3 ∧ 3 < (Layout.replies before).length + b.replies.length ∧
        (b.keywords = [] ∧ notices.count (.repliesWithoutKeywords close.line b.replies.length) = 1 ∨
          b.keywords ≠ [] ∧ ∀ k ∈ b.keywords, .duplicateKeyword k.line k.text ∈ notices)) ∧
      Notice.allOrphans notices = 2 ∧ notices.getLast? = some (.loaded 2 5 5) := by
  intro lines s notices
  have h : (ofLines ['N'] lines).result = .ok s := by rfl
  obtain ⟨hkeywords, hduplicates, -, hlost, horphans, hloaded⟩ := ofLines_accounts h
  have hsecond : (⟨2, ['A']⟩ : Entry) ∈ Layout.listing .keywords .keywords (Layout.content lines) := by decide
  have hthird : Notice.duplicateKeyword 10 ['A'] ∈ notices := by decide
  refine ⟨h, ?_, (hduplicates 10 ['A'] hthird).2, hlost 3 (by decide) (by decide), horphans.trans (by decide), hloaded⟩
  have hcount := (hkeywords _ hsecond).1
  have hnone : s.rules.countP (·.line = 2) = 0 := by decide
  rwa [hnone, Nat.zero_add] at hcount

end Files

end Script

end Dialogue
