import Dialogue.Proofs.Script.Draft

/-! # The layout of a script file

The file format, said of the whole file at once: which lines count, where blocks end, what a block lists,
and which script or which defect that comes to. The second half says how each part grows with one more
line. -/

namespace Dialogue.Script.Layout

/-- The lines that count, trimmed and numbered from 1: neither blank nor comments. -/
def content (lines : List Text) : List Entry :=
  ((lines.zipIdx 1).map fun (raw, n) => ⟨n, raw.trim⟩).filter fun e => ¬Blank e.text

def isTurn (e : Entry) : Bool := e.text.head? = some '!'

def isClose (e : Entry) : Bool := e.text.head? = some '.'

/-- Keywords come before the first `!`, replies after it. -/
def blockOf (es : List Entry) : Block :=
  ⟨es.takeWhile (!isTurn ·), (es.dropWhile (!isTurn ·)).filter (!isTurn ·)⟩

/-- The closed blocks, each with the line that closes it. -/
def blocks (es : List Entry) : List (Block × Entry) :=
  ((es.splitOnP isClose).zip (es.filter isClose)).map fun (es, close) => (blockOf es, close)

/-- What follows the last line that closes a block. -/
def tail (es : List Entry) : List Entry := es.rtakeWhile (!isClose ·)

/-- What is wrong with a block that has keywords and no replies. -/
def emptyReplies? : Block × Entry → Option Defect
  | (⟨k :: _, []⟩, close) => some (.emptyReplies close.line k.text)
  | _ => none

def replies (bs : List (Block × Entry)) : List Text := bs.flatMap (·.1.replies.map (·.text))

/-- A rule for each keyword. `first` is the place of the first block's replies in the pool. -/
def rules (first : Nat) : List (Block × Entry) → List Rule
  | [] => []
  | (b, _) :: bs =>
    b.keywords.map (Entry.rule ⟨first, first + b.replies.length - 1⟩) ++ rules (first + b.replies.length) bs

/-- The script of a file, or its first defect. -/
def script (fallback : Text) (lines : List Text) : Except Defect Script :=
  let es := content lines
  let bs := blocks es
  match bs.findSome? emptyReplies? with
  | some defect => .error defect
  | none =>
    if ∀ e ∈ es, ¬isClose e then .error .noBlocks
    else
      match (tail es).find? (!isTurn ·) with
      | some e => .error (.unterminatedBlock e.line)
      | none =>
        if ∀ b ∈ bs, ∀ k ∈ b.1.keywords, k.text ≠ fallback then .error (.missingFallback fallback)
        else
          let rs := unshadowed (rules 0 bs)
          .ok ⟨rs, replies bs, rs.findIdx (·.phrase = fallback)⟩

theorem emptyReplies?_eq_none_iff {b : Block} {close : Entry} :
    emptyReplies? (b, close) = none ↔ b.keywords = [] ∨ b.replies ≠ [] := by
  obtain ⟨keywords, replies⟩ := b
  cases keywords <;> cases replies <;> simp [emptyReplies?]

/-- The keywords of the closed blocks are the phrases of their rules. -/
theorem exists_mem_rules {p : Text} {bs : List (Block × Entry)} {first : Nat} :
    (∃ r ∈ rules first bs, r.phrase = p) ↔ ∃ b ∈ bs, ∃ k ∈ b.1.keywords, k.text = p := by
  induction bs generalizing first with
  | nil => simp [rules]
  | cons b bs ih =>
    simp only [rules, List.mem_append, or_and_right, exists_or, ih, List.exists_mem_cons_iff]
    simp [Entry.rule]

/-- Keywords and replies are the lines of a block in order, less its markers. -/
theorem keywords_append_replies (es : List Entry) :
    (blockOf es).keywords ++ (blockOf es).replies = es.filter (!isTurn ·) := by
  have htake : (es.takeWhile (!isTurn ·)).filter (!isTurn ·) = es.takeWhile (!isTurn ·) :=
    List.filter_eq_self.mpr (List.all_eq_true.mp List.all_takeWhile)
  rw [blockOf, ← htake, ← List.filter_append, List.takeWhile_append_dropWhile]

theorem line?_blockOf (es : List Entry) : (blockOf es).line? = (es.find? (!isTurn ·)).map (·.line) := by
  rw [Block.line?, keywords_append_replies, List.head?_filter]

/-! ### One more line -/

theorem content_concat (lines : List Text) (raw : Text) : content (lines ++ [raw]) =
    content lines ++ if Blank raw.trim then [] else [⟨lines.length + 1, raw.trim⟩] := by
  unfold content
  rw [List.zipIdx_append, List.map_append, List.filter_append]
  by_cases h : Blank raw.trim <;> simp [h, Nat.add_comm]

theorem splitOnP_concat {α : Type} {p : α → Bool} {e : α} (he : p e = false) : ∀ {es : List α} {init : List (List α)}
    {last : List α}, es.splitOnP p = init ++ [last] → (es ++ [e]).splitOnP p = init ++ [last ++ [e]]
  | [], init, last, h => by
    have hnil : init = [] ∧ last = [] := by
      cases init with
      | nil => simpa using h.symm
      | cons a init => simp at h
    rw [List.nil_append, List.splitOnP_eq_singleton (by simpa using he), hnil.1, hnil.2]
    rfl
  | a :: es, init, last, h => by
    obtain ⟨init', last', h'⟩ : ∃ init' last', es.splitOnP p = init' ++ [last'] :=
      ⟨_, _, (List.dropLast_append_getLast (List.splitOnP_ne_nil p es)).symm⟩
    have ih := splitOnP_concat he h'
    rw [List.splitOnP_cons_eq_if_modifyHead, h'] at h
    rw [List.cons_append, List.splitOnP_cons_eq_if_modifyHead, ih]
    by_cases ha : p a = true
    · rw [if_pos ha, ← List.cons_append] at h
      obtain ⟨rfl, hlast⟩ := List.append_inj' h rfl
      rw [if_pos ha, (List.cons.inj hlast).1, List.cons_append]
    · rw [if_neg ha] at h ⊢
      cases init' with
      | nil =>
        change [] ++ [a :: last'] = init ++ [last] at h
        obtain ⟨rfl, hlast⟩ := List.append_inj' h rfl
        rw [← (List.cons.inj hlast).1]
        rfl
      | cons x init' =>
        rw [List.cons_append, List.modifyHead_cons, ← List.cons_append] at h
        obtain ⟨rfl, hlast⟩ := List.append_inj' h rfl
        rw [← (List.cons.inj hlast).1]
        rfl

theorem tail_concat (es : List Entry) (e : Entry) :
    tail (es ++ [e]) = if isClose e then [] else tail es ++ [e] := by
  rw [tail, List.rtakeWhile_concat]
  cases isClose e <;> rfl

/-- The last piece is the tail, and each piece before it is closed by a line of its own. -/
theorem splitOnP_isClose (es : List Entry) : ∃ init, es.splitOnP isClose = init ++ [tail es] ∧
    init.length = (es.filter isClose).length := by
  induction es using List.reverseRecOn with
  | nil => exact ⟨[], rfl, rfl⟩
  | append_singleton es e ih =>
    obtain ⟨init, hs, hlen⟩ := ih
    cases he : isClose e with
    | true =>
      refine ⟨init ++ [tail es], ?_, by simp [he, hlen]⟩
      rw [List.splitOnP_append_cons es [] he, hs, tail_concat, if_pos he]
      rfl
    | false =>
      refine ⟨init, ?_, by simp [he, hlen]⟩
      rw [splitOnP_concat he hs, tail_concat, he]
      rfl

theorem blocks_concat (es : List Entry) (e : Entry) :
    blocks (es ++ [e]) = blocks es ++ if isClose e then [(blockOf (tail es), e)] else [] := by
  obtain ⟨init, hs, hlen⟩ := splitOnP_isClose es
  have hes : (es.splitOnP isClose).zip (es.filter isClose) = init.zip (es.filter isClose) := by
    rw [hs, ← List.append_nil (es.filter isClose), List.zip_append hlen, List.append_nil]
    simp
  unfold blocks
  rw [hes]
  cases he : isClose e with
  | true =>
    rw [List.splitOnP_append_cons es [] he, hs, List.append_assoc, List.filter_append, List.zip_append hlen]
    simp [he]
  | false =>
    rw [splitOnP_concat he hs, List.filter_append, List.zip_append hlen]
    simp [he]

theorem blocks_eq_nil_iff {es : List Entry} : blocks es = [] ↔ ∀ e ∈ es, ¬isClose e := by
  obtain ⟨init, hs, hlen⟩ := splitOnP_isClose es
  rw [blocks, List.map_eq_nil_iff, hs, List.zip_eq_nil_iff]
  simp

def partOf (es : List Entry) : Part := if es.any isTurn then .replies else .keywords

theorem partOf_concat (es : List Entry) (e : Entry) : partOf (es ++ [e]) = if isTurn e then .replies else partOf es := by
  unfold partOf
  cases he : isTurn e <;> simp [he]

theorem blockOf_concat (es : List Entry) (e : Entry) :
    blockOf (es ++ [e]) = if isTurn e then blockOf es else (blockOf es).add (partOf es) e := by
  cases h : es.any isTurn with
  | true =>
    obtain ⟨t, ht, htt⟩ := List.any_eq_true.mp h
    have hnot : ¬∀ x ∈ es, (!isTurn x) = true := fun hall => by simpa [htt] using hall t ht
    have htake : (es.takeWhile (!isTurn ·)).length ≠ es.length := fun hlen => hnot (by
      rw [← List.takeWhile_eq_self_iff]
      exact (List.takeWhile_prefix _).eq_of_length hlen)
    have hdrop : (es.dropWhile (!isTurn ·)).isEmpty = false := by
      rw [List.isEmpty_eq_false_iff]
      exact fun hnil => hnot (List.dropWhile_eq_nil_iff.mp hnil)
    rw [blockOf, List.takeWhile_append, List.dropWhile_append, if_neg htake, hdrop]
    cases he : isTurn e <;> simp [blockOf, partOf, h, Block.add, he]
  | false =>
    have hall : ∀ x ∈ es, (!isTurn x) = true := by simpa using h
    rw [blockOf, List.takeWhile_append_of_pos hall, List.dropWhile_append_of_pos hall]
    rw [blockOf, List.takeWhile_eq_self_iff.mpr hall, List.dropWhile_eq_nil_iff.mpr hall]
    cases he : isTurn e <;> simp [partOf, h, Block.add, he]

theorem replies_concat (bs : List (Block × Entry)) (b : Block × Entry) :
    replies (bs ++ [b]) = replies bs ++ b.1.replies.map (·.text) := by
  simp [replies]

theorem rules_concat (bs : List (Block × Entry)) (b : Block × Entry) (first : Nat) : rules first (bs ++ [b]) =
    rules first bs ++ b.1.keywords.map (Entry.rule
      ⟨first + (replies bs).length, first + (replies bs).length + b.1.replies.length - 1⟩) := by
  induction bs generalizing first with
  | nil => simp [rules, replies]
  | cons b' bs ih =>
    rw [List.cons_append, rules, rules, ih, List.append_assoc]
    simp [replies, Nat.add_assoc]

end Dialogue.Script.Layout
