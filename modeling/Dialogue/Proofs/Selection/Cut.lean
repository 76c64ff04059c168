import Dialogue.Proofs.Selection
import Dialogue.Proofs.Text.Slice
import Dialogue.Query

/-! # Where a query is cut

The rule that is hit is the first one whose keyword occurs, at the leftmost place where it does (`Wins`). Any
rule but the fallback one cuts the query there: the keyword and the rest share the space between them, so the
rest starts at the last byte of the keyword. -/

namespace Dialogue
open Text

namespace Script
variable {s : Script} {query : Text} {hit : Hit} {r : Rule}

/-- The rule `r` wins a query: its keyword occurs where the hit says and nowhere before, and the keyword of no
    earlier rule occurs at all. -/
structure Wins (s : Script) (query : Text) (hit : Hit) (r : Rule) : Prop where
  rule : s.rules[hit.rule]? = some r
  split : query = hit.place.before ++ r.keyword ++ hit.place.after
  leftmost : ∀ before after, query = before ++ r.keyword ++ after → hit.offset ≤ before.byteLength
  first : ∀ j < hit.rule, ∀ q, s.rules[j]? = some q → ¬ q.keyword <:+: query

theorem hit?_eq_some_iff_wins : s.hit? query = some hit ↔ ∃ r, s.Wins query hit r := by
  rw [hit?_eq_some_iff]
  refine exists_congr fun r => ?_
  have hopens : ∀ before after, query = before ++ r.keyword ++ after → before <+: query := fun before after h =>
    ⟨r.keyword ++ after, by rw [h, List.append_assoc]⟩
  constructor
  · rintro ⟨hr, hplace, hfirst⟩
    obtain ⟨hquery, hleft⟩ := occurrence?_eq_some_iff.mp hplace
    exact {
      rule := hr
      split := hquery
      leftmost := fun before after h =>
        (prefix_iff_byteLength_le (hopens _ _ hquery) (hopens _ _ h)).mp (hleft before after h)
      first := fun j hj q hq => occurrence?_eq_none_iff.mp (hfirst j hj q hq) }
  · intro h
    refine ⟨h.rule, occurrence?_eq_some_iff.mpr ⟨h.split, fun before after hquery => ?_⟩, fun j hj q hq => ?_⟩
    · exact (prefix_iff_byteLength_le (hopens _ _ h.split) (hopens _ _ hquery)).mpr (h.leftmost before after hquery)
    · exact occurrence?_eq_none_iff.mpr (h.first j hj q hq)

/-- At the last byte of a keyword stands its closing space. -/
theorem dropBytes?_keyword (r : Rule) (before after : Text) :
    dropBytes? (before.byteLength + r.keyword.byteLength - 1) (before ++ r.keyword ++ after) = some (' ' :: after) := by
  have hplace : before.byteLength + r.keyword.byteLength - 1 = (before ++ ' ' :: r.phrase).byteLength := by
    rw [Rule.keyword, byteLength_pad, byteLength_append]
    rfl
  have hquery : before ++ r.keyword ++ after = (before ++ ' ' :: r.phrase) ++ ' ' :: after := by
    simp [Rule.keyword, pad]
  rw [hplace, hquery]
  exact dropBytes?_append _ _

theorem Wins.dropBytes? (h : s.Wins query hit r) :
    dropBytes? (hit.offset + r.keyword.byteLength - 1) query = some (' ' :: hit.place.after) := by
  have hdrop := dropBytes?_keyword r hit.place.before hit.place.after
  rwa [← h.split] at hdrop

theorem getLast?_remainder (h : (s.select query).rule ≠ s.fallback) :
    (s.select query).remainder.getLast? = query.getLast? := by
  obtain ⟨before, hbefore⟩ := (remainder_suffix h).1
  have hlast := List.getLast?_append_of_ne_nil before (mt remainder_eq_nil_iff.mp h)
  rw [hbefore] at hlast
  exact hlast.symm

/-- What any rule but the fallback one leaves of a query starts and ends with a space. -/
theorem remainder_ends {input : Text} (h : (s.select (Query.normalize input)).rule ≠ s.fallback) :
    (s.select (Query.normalize input)).remainder.head? = some ' ' ∧
    (s.select (Query.normalize input)).remainder.getLast? = some ' ' :=
  ⟨(remainder_suffix h).2, (getLast?_remainder h).trans List.getLast?_concat⟩

/-- A text is cut at the keyword that wins it. Any rule but the fallback one is chosen for the leftmost
    occurrence of its keyword, where no earlier keyword occurs anywhere, and leaves the closing space of the
    keyword and what follows: the text from the last byte of the keyword on. The fallback rule leaves
    nothing; it is chosen where no keyword occurs, or when its own wins. The rest of a query has a space at
    either end. -/
theorem select_cuts (s : Script) (query : Text) :
    ((s.select query).rule ≠ s.fallback → ∃ hit r, s.Wins query hit r ∧ (s.select query).hit = some hit ∧
      (s.select query).rule = hit.rule ∧ (s.select query).remainder = [' '] ++ hit.place.after ∧
      dropBytes? (hit.offset + r.keyword.byteLength - 1) query = some (s.select query).remainder) ∧
    ((s.select query).rule = s.fallback → (s.select query).remainder = [] ∧
      (((s.select query).hit = none ∧ ∀ r ∈ s.rules, ¬ r.keyword <:+: query) ∨
        ∃ hit r, s.Wins query hit r ∧ (s.select query).hit = some hit ∧ hit.rule = s.fallback)) ∧
    ∀ input, query = Query.normalize input → (s.select query).rule ≠ s.fallback →
      (s.select query).remainder.head? = some ' ' ∧ (s.select query).remainder.getLast? = some ' ' := by
  refine ⟨fun h => ?_, fun h => ⟨remainder_eq_nil_iff.mpr h, ?_⟩, ?_⟩
  · obtain ⟨hit, hhit, hrule⟩ := exists_hit h
    obtain ⟨r, hwins⟩ := hit?_eq_some_iff_wins.mp hhit
    rw [select_of_hit hhit hrule]
    exact ⟨hit, r, hwins, rfl, rfl, rfl, hwins.dropBytes?⟩
  · cases hhit : s.hit? query with
    | none =>
      rw [select_of_unhit hhit]
      exact Or.inl ⟨rfl, firstHit?_eq_none_iff.mp hhit⟩
    | some hit =>
      have hrule : hit.rule = s.fallback := (rule_select hhit).symm.trans h
      obtain ⟨r, hwins⟩ := hit?_eq_some_iff_wins.mp hhit
      rw [select_of_sentinel hhit hrule]
      exact Or.inr ⟨hit, r, hwins, rfl, hrule⟩
  · rintro input rfl h
    exact remainder_ends h

end Script

end Dialogue
