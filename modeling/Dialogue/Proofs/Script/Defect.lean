import Dialogue.Script.Defect

/-! # What a message tells of its defect

The message of a defect has the line and the keyword of the defect in it, and no other defect has that message
(`Defect.told_message`), but that a reason which the system words itself may read like any other. -/

namespace Dialogue

/-- A number ends at the colon behind it. -/
theorem Text.ofNat_colon_inj {m n : Nat} {s t : Text} (h : ofNat m ++ ':' :: s = ofNat n ++ ':' :: t) :
    m = n ∧ s = t := by
  have hcolon (k : Nat) : ':' ∉ ofNat k := fun hmem => absurd (isDigit_of_mem_ofNat hmem) (by decide)
  have hdigits : ofNat m = ofNat n := by
    rw [← takeWhile_append_of_notMem (hcolon m) s, h, takeWhile_append_of_notMem (hcolon n)]
  obtain rfl := ofNat_injective hdigits
  exact ⟨rfl, (List.cons.inj (List.append_cancel_left h)).2⟩

namespace Script

/-- Reasons of one message are the same, unless one of them is the system's own text and that is the message of
    the other. -/
theorem Unreadable.eq_of_message_eq {r r' : Unreadable} (h : r.message = r'.message) :
    r = r' ∨ r = .other r'.message ∨ r' = .other r.message := by
  cases r with
  | other reason => exact Or.inr (Or.inl (congrArg other h))
  | _ =>
    cases r' with
    | other reason => exact Or.inr (Or.inr (congrArg other h.symm))
    -- The fixed messages begin with letters of their own.
    | _ => first
      | exact Or.inl rfl
      | exact absurd (congrArg List.head? h) (by decide)

namespace Defect
open Text
variable {d e : Defect} {line : Nat} {keyword : Text}

/-! ### Lines and keywords -/

/-- The line that a defect is found at. -/
def line? : Defect → Option Nat
  | unterminatedBlock line => some line
  | emptyReplies line _ => some line
  | _ => none

/-- The keyword that a defect is about. -/
def keyword? : Defect → Option Text
  | emptyReplies _ keyword => some keyword
  | missingFallback keyword => some keyword
  | _ => none

theorem line_prefix_message (h : d.line? = some line) : "line ".toList ++ ofNat line ++ [':'] <+: d.message := by
  cases d with
  | unterminatedBlock _ =>
    cases h
    exact (List.prefix_append_right_inj _).mpr ⟨" block is never closed (missing terminating '.')".toList, rfl⟩
  | emptyReplies _ k =>
    cases h
    have hcolon : [':'] <+: ": block for keyword '".toList := ⟨" block for keyword '".toList, rfl⟩
    exact ((List.prefix_append_right_inj _).mpr hcolon).trans
      ((List.prefix_append _ k).trans (List.prefix_append _ _))
  | _ => cases h

/-- A keyword between a text that ends in a quote and one that begins with a quote. -/
theorem quoted_infix {before before' after after' : Text} (hbefore : before' = before ++ ['\''])
    (hafter : after' = '\'' :: after) (start keyword : Text) :
    '\'' :: keyword ++ ['\''] <:+: start ++ before' ++ keyword ++ after' := by
  subst hbefore hafter
  exact ⟨start ++ before, after, by simp⟩

theorem keyword_infix_message (h : d.keyword? = some keyword) : '\'' :: keyword ++ ['\''] <:+: d.message := by
  cases d with
  | emptyReplies l _ =>
    cases h
    have hbefore : ": block for keyword '".toList = ": block for keyword ".toList ++ ['\''] := rfl
    have hafter : "' has no replies".toList = '\'' :: " has no replies".toList := rfl
    exact quoted_infix hbefore hafter ("line ".toList ++ ofNat l) keyword
  | missingFallback _ =>
    cases h
    have hbefore : "fallback keyword '".toList = "fallback keyword ".toList ++ ['\''] := rfl
    have hafter : "' is not defined".toList = '\'' :: " is not defined".toList := rfl
    exact quoted_infix hbefore hafter [] keyword
  | _ => cases h

/-! ### Messages that are the same -/

/-- How the message of a defect begins. -/
def opening : Defect → Text
  | noBlocks => ['r', 'u', 'l']
  | unterminatedBlock _ => ['l', 'i', 'n']
  | emptyReplies .. => ['l', 'i', 'n']
  | missingFallback _ => ['f', 'a', 'l']
  | unreadable _ => ['f', 'a', 'i']

theorem take_message (d : Defect) : d.message.take 3 = d.opening := by
  cases d <;> rfl

theorem line_eq_of_message_eq {line' : Nat} (h : d.message = e.message) (hd : d.line? = some line)
    (he : e.line? = some line') : line = line' := by
  obtain ⟨s, hs⟩ := line_prefix_message hd
  obtain ⟨t, ht⟩ := line_prefix_message he
  rw [← hs, ← ht, List.append_assoc, List.append_assoc, List.append_assoc, List.append_assoc] at h
  exact (ofNat_colon_inj (List.append_cancel_left h)).1

theorem rest_eq_of_append_eq {a b c k r : Text} (h : a ++ b = a ++ c ++ k ++ r) : b = c ++ (k ++ r) := by
  rw [List.append_assoc, List.append_assoc] at h
  exact List.append_cancel_left h

theorem unterminatedBlock_message_ne (line line' : Nat) (keyword : Text) :
    (unterminatedBlock line).message ≠ (emptyReplies line' keyword).message := by
  intro h
  obtain rfl := line_eq_of_message_eq h rfl rfl
  have hrest : ": block is never closed (missing terminating '.')".toList =
      ": block for keyword '".toList ++ (keyword ++ "' has no replies".toList) := rest_eq_of_append_eq h
  have hletter : some 'i' = some 'f' := congrArg (fun t : Text => t[8]?) hrest
  cases hletter

/-- Defects of one message are the same, or unreadable files of which one has the reason of the other for a text. -/
theorem eq_of_message_eq (h : d.message = e.message) : d = e ∨ ∃ r r' : Unreadable,
    d = unreadable r ∧ e = unreadable r' ∧ (r = .other r'.message ∨ r' = .other r.message) := by
  have hopening : d.opening = e.opening := by rw [← take_message, ← take_message, h]
  cases d with
  | noBlocks =>
    cases e with
    | noBlocks => exact Or.inl rfl
    | _ => cases hopening
  | unterminatedBlock line =>
    cases e with
    | unterminatedBlock line' => exact Or.inl (congrArg unterminatedBlock (line_eq_of_message_eq h rfl rfl))
    | emptyReplies line' keyword => exact absurd h (unterminatedBlock_message_ne line line' keyword)
    | _ => cases hopening
  | emptyReplies line keyword =>
    cases e with
    | unterminatedBlock line' => exact absurd h.symm (unterminatedBlock_message_ne line' line keyword)
    | emptyReplies line' keyword' =>
      obtain rfl := line_eq_of_message_eq h rfl rfl
      exact Or.inl (congrArg (emptyReplies line) (List.append_cancel_left (List.append_cancel_right h)))
    | _ => cases hopening
  | missingFallback keyword =>
    cases e with
    | missingFallback keyword' =>
      exact Or.inl (congrArg missingFallback (List.append_cancel_left (List.append_cancel_right h)))
    | _ => cases hopening
  | unreadable r =>
    cases e with
    | unreadable r' =>
      rcases Unreadable.eq_of_message_eq (List.append_cancel_left h) with rfl | hother
      · exact Or.inl rfl
      · exact Or.inr ⟨r, r', rfl, rfl, hother⟩
    | _ => cases hopening

/-- A text that has the line and the keyword of a defect in it, and is the message of no other. -/
structure Told (d : Defect) (t : Text) : Prop where
  line : ∀ line, d.line? = some line → "line ".toList ++ ofNat line ++ [':'] <+: t
  keyword : ∀ keyword, d.keyword? = some keyword → '\'' :: keyword ++ ['\''] <:+: t
  sole : ∀ e : Defect, t = e.message → d = e ∨ ∃ r r' : Unreadable,
    d = .unreadable r ∧ e = .unreadable r' ∧ (r = .other r'.message ∨ r' = .other r.message)

theorem told_message (d : Defect) : d.Told d.message where
  line _ h := line_prefix_message h
  keyword _ h := keyword_infix_message h
  sole _ h := eq_of_message_eq h

end Defect

end Script

end Dialogue
