import Dialogue.Proofs.Script.Format

/-! # Files one after another

Where one file goes on as another, the lines of the second follow with higher numbers, its blocks follow
the blocks of the first, and its replies follow in the pool. What stands behind the last `.` of the first
file is put before the first block of the second; in a file that is read, these are `!` lines at most. -/

namespace Dialogue

theorem Rule.keyword_inj {r q : Rule} : r.keyword = q.keyword ↔ r.phrase = q.phrase := by
  simp [Rule.keyword, Text.pad]

/-- The same rule behind that many replies and lines. -/
def Rule.shift (replies lines : Nat) (r : Rule) : Rule where
  phrase := r.phrase
  range := ⟨r.range.first + replies, r.range.last + replies⟩
  line := r.line + lines

@[simp]
theorem Rule.phrase_shift (replies lines : Nat) (r : Rule) : (r.shift replies lines).phrase = r.phrase := rfl

namespace Script

/-- The same entry that many lines further down. -/
def Entry.shift (n : Nat) (e : Entry) : Entry := { e with line := e.line + n }

def Block.shift (n : Nat) (b : Block) : Block := ⟨b.keywords.map (Entry.shift n), b.replies.map (Entry.shift n)⟩

/-! ### Rules with the same phrase -/

theorem unshadowed_append (rules more : List Rule) : unshadowed (rules ++ more) =
    unshadowed rules ++ (unshadowed more).filter fun q => ∀ r ∈ rules, r.phrase ≠ q.phrase := by
  induction rules with
  | nil => simp [unshadowed]
  | cons r rules ih =>
    rw [List.cons_append, unshadowed, unshadowed, ih, List.filter_append, List.filter_filter, List.cons_append]
    congr 2
    refine List.filter_congr fun q _ => ?_
    rw [← Bool.decide_and, decide_eq_decide, List.forall_mem_cons, ne_comm]

theorem unshadowed_map {f : Rule → Rule} (hf : ∀ r, (f r).phrase = r.phrase) (rules : List Rule) :
    unshadowed (rules.map f) = (unshadowed rules).map f := by
  induction rules with
  | nil => rfl
  | cons r rules ih =>
    rw [List.map_cons, unshadowed, unshadowed, ih, List.filter_map, List.map_cons]
    congr 2
    refine List.filter_congr fun q _ => ?_
    simp [hf]

namespace Layout
variable {es es' : List Entry} {bs bs' : List (Block × Entry)}

/-! ### Lines further down -/

theorem content_append (lines more : List Text) :
    content (lines ++ more) = content lines ++ (content more).map (Entry.shift lines.length) := by
  induction more using List.reverseRecOn with
  | nil => simp [content]
  | append_singleton more raw ih =>
    rw [← List.append_assoc, content_concat, content_concat, ih, List.map_append, List.append_assoc]
    congr 2
    split
    · rfl
    · simp only [List.map_singleton, Entry.shift, List.length_append, List.cons.injEq, Entry.mk.injEq, and_true]
      omega

theorem tail_map (n : Nat) (es : List Entry) : tail (es.map (Entry.shift n)) = (tail es).map (Entry.shift n) := by
  simp only [tail, List.rtakeWhile, ← List.map_reverse, List.takeWhile_map]
  rfl

theorem blockOf_map (n : Nat) (es : List Entry) : blockOf (es.map (Entry.shift n)) = (blockOf es).shift n := by
  simp only [blockOf, Block.shift, List.takeWhile_map, List.dropWhile_map, List.filter_map]
  rfl

def shift (n : Nat) (bs : List (Block × Entry)) : List (Block × Entry) := bs.map fun b => (b.1.shift n, b.2.shift n)

theorem blocks_map (n : Nat) (es : List Entry) : blocks (es.map (Entry.shift n)) = shift n (blocks es) := by
  induction es using List.reverseRecOn with
  | nil => rfl
  | append_singleton es e ih =>
    rw [List.map_append, List.map_singleton, blocks_concat, blocks_concat, ih, shift, shift, List.map_append, tail_map,
      blockOf_map]
    congr 1
    show (if isClose e then _ else _) = _
    split <;> rfl

/-- A range stays as long as it was, since a block with keywords has replies. -/
theorem rules_shift (hfull : ∀ b ∈ bs, b.1.keywords = [] ∨ b.1.replies ≠ []) (n k first : Nat) :
    rules (first + n) (shift k bs) = (rules first bs).map (Rule.shift n k) := by
  induction bs generalizing first with
  | nil => rfl
  | cons b bs ih =>
    have hkeywords : (b.1.shift k).keywords.map
          (Entry.rule ⟨first + n, first + n + (b.1.shift k).replies.length - 1⟩) =
        (b.1.keywords.map (Entry.rule ⟨first, first + b.1.replies.length - 1⟩)).map (Rule.shift n k) := by
      simp only [Block.shift, List.map_map, List.length_map]
      refine List.map_congr_left fun e he => ?_
      have : 0 < b.1.replies.length :=
        List.length_pos_iff.mpr ((hfull b List.mem_cons_self).resolve_left (List.ne_nil_of_mem he))
      simp only [Function.comp_apply, Entry.rule, Entry.shift, Rule.shift, Rule.mk.injEq, ReplyRange.mk.injEq, true_and,
        and_true]
      omega
    have hrest := ih (fun b hb => hfull b (List.mem_cons_of_mem _ hb)) (first + b.1.replies.length)
    rw [shift, List.map_cons, rules, rules, List.map_append, ← hkeywords, ← hrest, shift]
    simp [Block.shift, Nat.add_right_comm]

theorem replies_shift (n : Nat) (bs : List (Block × Entry)) : replies (shift n bs) = replies bs := by
  simp [replies, shift, Block.shift, List.flatMap_map, Function.comp_def, Entry.shift]

/-! ### Blocks behind blocks -/

theorem tail_append (es es' : List Entry) :
    tail (es ++ es') = if es'.any isClose then tail es' else tail es ++ es' := by
  induction es' using List.reverseRecOn with
  | nil => simp
  | append_singleton es' e ih =>
    rw [← List.append_assoc, tail_concat, tail_concat, ih]
    cases he : isClose e <;> cases hes : es'.any isClose <;> simp [he, hes]

theorem blocks_tail (es : List Entry) : blocks (tail es) = [] := by
  induction es using List.reverseRecOn with
  | nil => rfl
  | append_singleton es e ih =>
    rw [tail_concat]
    cases he : isClose e with
    | true => rfl
    | false => simp [blocks_concat, ih, he]

theorem tail_tail_append (es es' : List Entry) : tail (tail es ++ es') = tail (es ++ es') := by
  have htail : tail (tail es) = tail es := List.rtakeWhile_idempotent _ _
  rw [tail_append, tail_append, htail]

/-- The lines behind the last block of the first file go before the first block of the second. -/
theorem blocks_append (es es' : List Entry) : blocks (es ++ es') = blocks es ++ blocks (tail es ++ es') := by
  induction es' using List.reverseRecOn with
  | nil => simp [blocks_tail]
  | append_singleton es' e ih =>
    rw [← List.append_assoc, ← List.append_assoc, blocks_concat, blocks_concat, ih, tail_tail_append, List.append_assoc]

theorem replies_append (bs bs' : List (Block × Entry)) : replies (bs ++ bs') = replies bs ++ replies bs' :=
  List.flatMap_append

theorem rules_append (first : Nat) (bs bs' : List (Block × Entry)) :
    rules first (bs ++ bs') = rules first bs ++ rules (first + (replies bs).length) bs' := by
  induction bs generalizing first with
  | nil => rfl
  | cons b bs ih =>
    rw [List.cons_append, rules, rules, ih, List.append_assoc]
    simp [replies, Nat.add_assoc]

theorem first_le_of_mem_rules {first : Nat} {r : Rule} (h : r ∈ rules first bs) : first ≤ r.range.first := by
  induction bs generalizing first with
  | nil => exact absurd h List.not_mem_nil
  | cons b bs ih =>
    rcases List.mem_append.mp h with h | h
    · obtain ⟨k, -, rfl⟩ := List.mem_map.mp h
      exact Nat.le_refl first
    · exact Nat.le_trans (Nat.le_add_right _ _) (ih h)

theorem blocks_front {front rest : List Entry} {close : Entry} (hfront : ∀ e ∈ front, ¬isClose e)
    (hclose : isClose close) : blocks (front ++ close :: rest) = (blockOf front, close) :: blocks rest := by
  have htail : tail front = front := List.rtakeWhile_eq_self_iff.mpr fun e he => by simp [hfront e he]
  rw [List.append_cons, blocks_append, tail_concat, blocks_concat, if_pos hclose, if_pos hclose,
    blocks_eq_nil_iff.mpr hfront, htail]
  rfl

/-! ### Turns in front

A `!` line in front of a file makes replies of the keywords of its first block. -/

def absorb : List (Block × Entry) → List (Block × Entry)
  | [] => []
  | (b, close) :: bs => (⟨[], b.keywords ++ b.replies⟩, close) :: bs

theorem absorb_shift (n : Nat) (bs : List (Block × Entry)) : absorb (shift n bs) = shift n (absorb bs) := by
  cases bs <;> simp [absorb, shift, Block.shift]

theorem absorb_of_replies (h : ∀ b ∈ bs.head?, b.1.keywords = []) : absorb bs = bs := by
  cases bs with
  | nil => rfl
  | cons b bs =>
    obtain ⟨⟨keywords, replies⟩, close⟩ := b
    obtain rfl : keywords = [] := h _ rfl
    rfl

theorem full_absorb (h : ∀ b ∈ bs, b.1.keywords = [] ∨ b.1.replies ≠ []) :
    ∀ b ∈ absorb bs, b.1.keywords = [] ∨ b.1.replies ≠ [] := by
  cases bs with
  | nil => exact h
  | cons b bs => exact List.forall_mem_cons.mpr ⟨Or.inl rfl, fun b' hb' => h b' (List.mem_cons_of_mem b hb')⟩

/-- The keywords that become replies make the pool longer. -/
theorem length_replies_absorb {b : Block × Entry} (hb : b.1.keywords ≠ []) :
    (replies (b :: bs)).length < (replies (absorb (b :: bs))).length := by
  have := List.length_pos_iff.mpr hb
  simp only [absorb, replies, List.flatMap_cons, List.length_append, List.length_map]
  omega

theorem blockOf_turns {ts : List Entry} (hts : ∀ e ∈ ts, isTurn e) (hne : ts ≠ []) (es : List Entry) :
    blockOf (ts ++ es) = ⟨[], (blockOf es).keywords ++ (blockOf es).replies⟩ := by
  obtain ⟨t, ts, rfl⟩ := List.exists_cons_of_ne_nil hne
  have ht : isTurn t = true := hts t List.mem_cons_self
  have hfilter : ts.filter (!isTurn ·) = [] :=
    List.filter_eq_nil_iff.mpr fun e he => by simp [hts e (List.mem_cons_of_mem t he)]
  rw [keywords_append_replies]
  simp [blockOf, ht, hfilter]

theorem blocks_turns {ts : List Entry} (hts : ∀ e ∈ ts, isTurn e) (hne : ts ≠ []) (hes : ∃ e ∈ es, isClose e) :
    blocks (ts ++ es) = absorb (blocks es) := by
  obtain ⟨close, hfind⟩ := Option.isSome_iff_exists.mp (List.find?_isSome.mpr hes)
  obtain ⟨hclose, front, rest, rfl, hfront⟩ := List.find?_eq_some_iff_append.mp hfind
  have hopen : ∀ e ∈ front, ¬isClose e := by simpa using hfront
  have hturns : ∀ e ∈ ts ++ front, ¬isClose e := by
    refine List.forall_mem_append.mpr ⟨fun e he => ?_, hopen⟩
    have hhead : e.text.head? = some '!' := by simpa [isTurn] using hts e he
    simp [isClose, hhead]
  rw [← List.append_assoc, blocks_front hturns hclose, blocks_front hopen hclose, blockOf_turns hts hne]
  rfl

end Layout

/-! ### Scripts -/

namespace Layout
variable {fallback : Text} {es es' : List Entry} {bs bs' : List (Block × Entry)} {s t u : Script}

/-- The lines that count read to this script. -/
structure Reads (fallback : Text) (es : List Entry) (s : Script) : Prop where
  full : ∀ b ∈ blocks es, b.1.keywords = [] ∨ b.1.replies ≠ []
  closed : ∃ e ∈ es, isClose e
  settled : ∀ e ∈ tail es, isTurn e
  rules : s.rules = unshadowed (Layout.rules 0 (blocks es))
  replies : s.replies = Layout.replies (blocks es)
  found : s.rules.findIdx? (·.phrase = fallback) = some s.fallback

theorem findSome?_emptyReplies?_eq_none_iff :
    bs.findSome? emptyReplies? = none ↔ ∀ b ∈ bs, b.1.keywords = [] ∨ b.1.replies ≠ [] := by
  rw [List.findSome?_eq_none_iff]
  exact forall₂_congr fun _ _ => emptyReplies?_eq_none_iff

theorem reads_iff_script_eq_ok {d : Draft} (h : d.Follows es) : d.script fallback = .ok s ↔ Reads fallback es s := by
  have hclosed : d.blocks ≠ 0 ↔ ∃ e ∈ es, isClose e := by simpa using h.blocks_eq_zero_iff.not
  have hsettled : d.block.line? = none ↔ ∀ e ∈ tail es, isTurn e := by simp [h.line?_eq]
  rw [Draft.script_eq_ok_iff, hclosed, hsettled]
  constructor
  · rintro ⟨hc, ht, hrules, hreplies, hfound⟩
    exact ⟨findSome?_emptyReplies?_eq_none_iff.mp h.sound, hc, ht, hrules.trans h.rules, hreplies.trans h.replies,
      hrules ▸ hfound⟩
  · rintro ⟨-, hc, ht, hrules, hreplies, hfound⟩
    have hd : s.rules = d.rules := hrules.trans h.rules.symm
    exact ⟨hc, ht, hd, hreplies.trans h.replies.symm, hd ▸ hfound⟩

theorem ofLines_eq_ok_iff_reads {lines : List Text} :
    (ofLines fallback lines).result = .ok s ↔ Reads fallback (content lines) s := by
  have h := Draft.agrees_pushAll lines
  rw [Draft.ofLines_eq_ok_iff]
  cases hd : Draft.empty.pushAll lines with
  | ok d =>
    rw [hd] at h
    rw [← reads_iff_script_eq_ok h.2]
    simp
  | error defect =>
    rw [hd] at h
    have hfirst : (blocks (content lines)).findSome? emptyReplies? = some defect := h
    refine iff_of_false (by simp) fun hreads => ?_
    rw [findSome?_emptyReplies?_eq_none_iff.mpr hreads.full] at hfirst
    cases hfirst

theorem full_shift {n : Nat} (h : ∀ b ∈ bs, b.1.keywords = [] ∨ b.1.replies ≠ []) :
    ∀ b ∈ shift n bs, b.1.keywords = [] ∨ b.1.replies ≠ [] := by
  refine List.forall_mem_map.mpr fun b hb => ?_
  simpa [Block.shift] using h b hb

theorem blocks_content_append {lines more : List Text} (hsettled : ∀ e ∈ tail (content lines), isTurn e)
    (hclosed : ∃ e ∈ content more, isClose e) : blocks (content (lines ++ more)) = blocks (content lines) ++
      shift lines.length (if tail (content lines) = [] then blocks (content more)
        else absorb (blocks (content more))) := by
  rw [content_append, blocks_append]
  congr 1
  split
  · rename_i htail
    rw [htail, List.nil_append, blocks_map]
  · rename_i htail
    have hclosed' : ∃ e ∈ (content more).map (Entry.shift lines.length), isClose e := by
      simpa [isClose, Entry.shift] using hclosed
    rw [blocks_turns hsettled htail hclosed', blocks_map, absorb_shift]

/-- The rules behind others are those whose phrases are new, further down in lines and pool. -/
theorem unshadowed_rules_append (hfull : ∀ b ∈ bs', b.1.keywords = [] ∨ b.1.replies ≠ []) (n : Nat) :
    unshadowed (rules 0 (bs ++ shift n bs')) = unshadowed (rules 0 bs) ++
      ((unshadowed (rules 0 bs')).filter fun q => ∀ r ∈ unshadowed (rules 0 bs), r.keyword ≠ q.keyword).map
        (Rule.shift (replies bs).length n) := by
  rw [rules_append, rules_shift hfull, unshadowed_append, unshadowed_map (Rule.phrase_shift _ _), List.filter_map]
  congr 2
  refine List.filter_congr fun q _ => decide_eq_decide.mpr ?_
  have hphrase : (¬∃ r ∈ unshadowed (rules 0 bs), r.phrase = q.phrase) ↔ ¬∃ r ∈ rules 0 bs, r.phrase = q.phrase :=
    not_congr exists_mem_unshadowed
  simpa [Rule.keyword_inj] using hphrase.symm

end Layout

/-- More rules and replies behind those of a script. The new rules leave its replies alone. -/
structure GrowsTo (s u : Script) : Prop where
  rules : ∃ more, u.rules = s.rules ++ more ∧ ∀ q ∈ more, s.replies.length ≤ q.range.first
  replies : s.replies <+: u.replies
  fallback : u.fallback = s.fallback

/-- What a second file holds, behind a script that was read from so many lines. A keyword that the script
    has gets no second rule. -/
def append (s : Script) (lines : Nat) (rules : List Rule) (replies : List Text) : Script where
  rules := s.rules ++
    (rules.filter fun q => ∀ r ∈ s.rules, r.keyword ≠ q.keyword).map (Rule.shift s.replies.length lines)
  replies := s.replies ++ replies
  fallback := s.fallback

namespace Layout.Reads
variable {fallback : Text} {es es' : List Entry} {bs : List (Block × Entry)} {s t u : Script}

/-- What goes on behind a file leaves its rules and replies as they are. -/
theorem growsTo (hs : Reads fallback es s) (hu : Reads fallback (es ++ es') u) : s.GrowsTo u := by
  have hrules : u.rules = s.rules ++ (unshadowed (Layout.rules s.replies.length (blocks (tail es ++ es')))).filter
      fun q => ∀ r ∈ Layout.rules 0 (blocks es), r.phrase ≠ q.phrase := by
    rw [hu.rules, blocks_append, rules_append, unshadowed_append, ← hs.rules, ← hs.replies, Nat.zero_add]
  refine ⟨⟨_, hrules, fun q hq => ?_⟩, ?_, ?_⟩
  · exact first_le_of_mem_rules ((unshadowed_sublist _).subset (List.mem_of_mem_filter hq))
  · rw [hu.replies, blocks_append, replies_append, ← hs.replies]
    exact List.prefix_append _ _
  · have hfound := hu.found
    rw [hrules, List.findIdx?_append, hs.found] at hfound
    exact (Option.some.inj hfound).symm

variable {lines more : List Text}

/-- A file that is read goes on as another that is read. -/
theorem exists_append (hs : Reads fallback (content lines) s) (ht : Reads fallback (content more) t) :
    ∃ u, Reads fallback (content (lines ++ more)) u := by
  have hclosed : ∃ e ∈ (content more).map (Entry.shift lines.length), isClose e := by
    simpa [isClose, Entry.shift] using ht.closed
  have hblocks := blocks_content_append hs.settled ht.closed
  refine ⟨⟨_, _, s.fallback⟩, ?_, ?_, ?_, rfl, rfl, ?_⟩
  · rw [hblocks]
    refine List.forall_mem_append.mpr ⟨hs.full, full_shift ?_⟩
    split
    · exact ht.full
    · exact full_absorb ht.full
  · rw [content_append]
    obtain ⟨e, he, hc⟩ := hclosed
    exact ⟨e, List.mem_append_right _ he, hc⟩
  · rw [content_append, tail_append, if_pos (by simpa using hclosed), tail_map]
    exact List.forall_mem_map.mpr ht.settled
  · rw [hblocks, rules_append, unshadowed_append, List.findIdx?_append, ← hs.rules, hs.found]
    rfl

/-- The blocks behind those of a file give the rules and replies behind its own. -/
theorem eq_append (hs : Reads fallback (content lines) s) (hu : Reads fallback (content (lines ++ more)) u)
    (hblocks : blocks (content (lines ++ more)) = blocks (content lines) ++ shift lines.length bs)
    (hfull : ∀ b ∈ bs, b.1.keywords = [] ∨ b.1.replies ≠ []) :
    u = s.append lines.length (unshadowed (Layout.rules 0 bs)) (Layout.replies bs) := by
  have hfallback : u.fallback = s.fallback := (hs.growsTo (content_append lines more ▸ hu)).fallback
  have hrules : u.rules = (s.append lines.length (unshadowed (Layout.rules 0 bs)) (Layout.replies bs)).rules := by
    rw [hu.rules, hblocks, unshadowed_rules_append hfull, ← hs.rules, ← hs.replies]
    rfl
  have hreplies : u.replies = s.replies ++ Layout.replies bs := by
    rw [hu.replies, hblocks, replies_append, replies_shift, ← hs.replies]
  obtain ⟨rules, replies, place⟩ := u
  cases hfallback
  cases hrules
  cases hreplies
  rfl

/-- A `!` line that is left over makes replies of the first keywords of the second file. -/
theorem eq_append_absorb (hs : Reads fallback (content lines) s) (ht : Reads fallback (content more) t)
    (hu : Reads fallback (content (lines ++ more)) u) (htail : tail (content lines) ≠ []) :
    u = s.append lines.length (unshadowed (Layout.rules 0 (absorb (blocks (content more)))))
      (Layout.replies (absorb (blocks (content more)))) := by
  have hblocks := blocks_content_append hs.settled ht.closed
  rw [if_neg htail] at hblocks
  exact hs.eq_append hu hblocks (full_absorb ht.full)

/-- The two scripts compose exactly where no `!` line is left over for the keywords of the second file. -/
theorem eq_append_iff (hs : Reads fallback (content lines) s) (ht : Reads fallback (content more) t)
    (hu : Reads fallback (content (lines ++ more)) u) : u = s.append lines.length t.rules t.replies ↔
      tail (content lines) = [] ∨ ∀ b ∈ (blocks (content more)).head?, b.1.keywords = [] := by
  rw [ht.rules, ht.replies]
  constructor
  · intro h
    by_contra hleak
    obtain ⟨htail, hkeywords⟩ := not_or.mp hleak
    have hreplies : s.replies ++ Layout.replies (blocks (content more)) =
        s.replies ++ Layout.replies (absorb (blocks (content more))) :=
      congrArg Script.replies (h.symm.trans (hs.eq_append_absorb ht hu htail))
    rw [List.append_cancel_left_eq] at hreplies
    cases hbs : blocks (content more) with
    | nil => simp [hbs] at hkeywords
    | cons b bs =>
      rw [hbs] at hreplies hkeywords
      have hlt : (Layout.replies (b :: bs)).length < (Layout.replies (absorb (b :: bs))).length :=
        length_replies_absorb (by simpa using hkeywords)
      rw [← hreplies] at hlt
      exact Nat.lt_irrefl _ hlt
  · intro h
    by_cases htail : tail (content lines) = []
    · have hblocks := blocks_content_append hs.settled ht.closed
      rw [if_pos htail] at hblocks
      exact hs.eq_append hu hblocks ht.full
    · have hbs := absorb_of_replies (h.resolve_left htail)
      have hu' := hs.eq_append_absorb ht hu htail
      rwa [hbs] at hu'

end Layout.Reads

section Files
variable {fallback : Text} {lines more : List Text} {s t u : Script}

theorem growsTo_of_append (hs : (ofLines fallback lines).result = .ok s)
    (hu : (ofLines fallback (lines ++ more)).result = .ok u) : s.GrowsTo u := by
  rw [Layout.ofLines_eq_ok_iff_reads] at hs hu
  rw [Layout.content_append] at hu
  exact hs.growsTo hu

/-- Two files that are read compose: so does one behind the other, with the rules, the replies and the
    fallback rule of the first in front. What follows them are the rules and the replies of the second,
    less the keywords that the first one has and moved down, exactly where no `!` line stands behind the
    last `.` of the first file or no keyword before the first `!` or `.` of the second. Where a `!` line
    does, the keywords of the first block of the second file are read as replies, and the rest follows as
    ever. -/
theorem ofLines_append (hs : (ofLines fallback lines).result = .ok s) (ht : (ofLines fallback more).result = .ok t) :
    ∃ u, (ofLines fallback (lines ++ more)).result = .ok u ∧ s.rules <+: u.rules ∧ s.replies <+: u.replies ∧
      u.fallback = s.fallback ∧
      (u = s.append lines.length t.rules t.replies ↔ Layout.tail (Layout.content lines) = [] ∨
        ∀ b ∈ (Layout.blocks (Layout.content more)).head?, b.1.keywords = []) ∧
      (Layout.tail (Layout.content lines) ≠ [] → ∀ bs, bs = Layout.absorb (Layout.blocks (Layout.content more)) →
        u = s.append lines.length (unshadowed (Layout.rules 0 bs)) (Layout.replies bs)) := by
  have hgrows : ∀ u, (ofLines fallback (lines ++ more)).result = .ok u → s.GrowsTo u := fun u => growsTo_of_append hs
  rw [Layout.ofLines_eq_ok_iff_reads] at hs ht
  obtain ⟨u, hu⟩ := hs.exists_append ht
  have hread := Layout.ofLines_eq_ok_iff_reads.mpr hu
  obtain ⟨⟨new, hrules, -⟩, hreplies, hfallback⟩ := hgrows u hread
  refine ⟨u, hread, ⟨new, hrules.symm⟩, hreplies, hfallback, hs.eq_append_iff ht hu, fun htail bs hbs => ?_⟩
  rw [hbs]
  exact hs.eq_append_absorb ht hu htail

/-- The second file has a keyword of the first, replies without keywords, and lines to skip in front. -/
theorem ofLines_append_shadowed :
    let lines := ["A", "!", "X*", "Y", ".", "N", "!", "Z", ".", "// end"].map String.toList
    let more := ["", "B", "A", "!", "O", ".", "!", "P", ".", "N", "C", "!", "Q", "."].map String.toList
    let s : Script := ⟨[⟨['A'], ⟨0, 1⟩, 1⟩, ⟨['N'], ⟨2, 2⟩, 6⟩], [['X', '*'], ['Y'], ['Z']], 1⟩
    let t : Script := ⟨[⟨['B'], ⟨0, 0⟩, 2⟩, ⟨['A'], ⟨0, 0⟩, 3⟩, ⟨['N'], ⟨2, 2⟩, 10⟩, ⟨['C'], ⟨2, 2⟩, 11⟩],
      [['O'], ['P'], ['Q']], 2⟩
    (ofLines ['N'] lines).result = .ok s ∧ (ofLines ['N'] more).result = .ok t ∧
      (ofLines ['N'] (lines ++ more)).result = .ok ⟨[⟨['A'], ⟨0, 1⟩, 1⟩, ⟨['N'], ⟨2, 2⟩, 6⟩, ⟨['B'], ⟨3, 3⟩, 12⟩,
        ⟨['C'], ⟨5, 5⟩, 21⟩], [['X', '*'], ['Y'], ['Z'], ['O'], ['P'], ['Q']], 1⟩ := by
  intro lines more s t
  have hs : (ofLines ['N'] lines).result = .ok s := by rfl
  have ht : (ofLines ['N'] more).result = .ok t := by rfl
  obtain ⟨u, hu, -, -, -, happend, -⟩ := ofLines_append hs ht
  refine ⟨hs, ht, ?_⟩
  rw [hu, happend.mpr (Or.inl (by decide))]
  decide

/-- The first file ends in a `!` line, so the keyword that opens the second one is read as a reply. -/
theorem ofLines_append_turn :
    let lines := ["NOKEYFOUND", "!", "OK", ".", "!"].map String.toList
    let more := ["NOKEYFOUND", "!", "OK", "."].map String.toList
    ∃ s t u, (ofLines fallbackPhrase lines).result = .ok s ∧ (ofLines fallbackPhrase more).result = .ok t ∧
      (ofLines fallbackPhrase (lines ++ more)).result = .ok u ∧ u.replies ≠ s.replies ++ t.replies := by
  refine ⟨_, _, _, rfl, rfl, rfl, ?_⟩
  decide

end Files

end Script

end Dialogue
