import Dialogue.Proofs.Selection
import Dialogue.Query

/-! # Rules that a line can reach

Every rule whose keyword stands in that of a later rule is tried first, so the later one is never hit; nor is a
rule whose phrase holds what no query holds. These are the only dead rules (`exists_hit?_iff_live`): the phrase
of any other one, typed as it stands, hits its rule. So in a script longer phrases come before the words
they contain. -/

namespace Dialogue
open Text

namespace Script
variable {s : Script} {j : Nat} {r : Rule} {input : Text} {hit : Hit}

/-- The rule `r` at the place `j` has a phrase of upper-case letters, digits and spaces, and no keyword of an
    earlier rule stands in its own. -/
structure Live (s : Script) (j : Nat) (r : Rule) : Prop where
  rule : s.rules[j]? = some r
  spelled : ∀ c ∈ r.phrase, ('A' ≤ c ∧ c ≤ 'Z') ∨ ('0' ≤ c ∧ c ≤ '9') ∨ c = ' '
  clear : ∀ i < j, ∀ q, s.rules[i]? = some q → ¬ q.keyword <:+: r.keyword

/-- What stands in the keyword of the rule that is hit stands in the query. -/
theorem live_of_hit? (h : s.hit? (Query.normalize input) = some hit) : ∃ r, s.Live hit.rule r := by
  obtain ⟨r, hr, hplace, hfirst⟩ := hit?_eq_some_iff.mp h
  have hstands : r.keyword <:+: Query.normalize input :=
    ⟨hit.place.before, hit.place.after, (eq_of_occurrence? hplace).symm⟩
  refine ⟨r, hr, fun c hc => ?_, fun i hi q hq hqr => ?_⟩
  · have hmem : c ∈ r.keyword := List.mem_append_left _ (List.mem_cons_of_mem _ hc)
    exact Query.keeps_iff.mp (Query.keeps_of_mem_normalize (hstands.subset hmem))
  · exact occurrence?_eq_none_iff.mp (hfirst i hi q hq) (hqr.trans hstands)

/-- The query of the phrase is the keyword itself. -/
theorem Live.hit?_phrase (h : s.Live j r) : s.hit? (Query.normalize r.phrase) = some ⟨j, ⟨[], []⟩⟩ := by
  have hquery : Query.normalize r.phrase = r.keyword :=
    Query.normalize_of_keeps fun c hc => Query.keeps_iff.mpr (h.spelled c hc)
  rw [hquery]
  refine hit?_eq_some_iff.mpr ⟨r, h.rule, occurrence?_self r.keyword, fun i hi q hq => ?_⟩
  exact occurrence?_eq_none_iff.mpr (h.clear i hi q hq)

/-- Some line hits a rule just when the rule is live, and then its own phrase does: it hits at the start of the
    query and selects the rule. -/
theorem exists_hit?_iff_live (s : Script) (j : Nat) :
    ((∃ input hit, s.hit? (Query.normalize input) = some hit ∧ hit.rule = j) ↔ ∃ r, s.Live j r) ∧
    ∀ r, s.Live j r → s.hit? (Query.normalize r.phrase) = some ⟨j, ⟨[], []⟩⟩ ∧
      (s.select (Query.normalize r.phrase)).rule = j := by
  refine ⟨⟨?_, ?_⟩, fun r h => ⟨h.hit?_phrase, rule_select h.hit?_phrase⟩⟩
  · rintro ⟨input, hit, hhit, rfl⟩
    exact live_of_hit? hhit
  · rintro ⟨r, h⟩
    exact ⟨r.phrase, _, h.hit?_phrase, rfl⟩

end Script

end Dialogue
