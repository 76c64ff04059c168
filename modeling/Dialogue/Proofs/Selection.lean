import Dialogue.Proofs.Script.Invariant
import Dialogue.Proofs.Text.Words
import Dialogue.Selection

/-! # The rule that is chosen

The first hit is the earliest rule with an occurrence of its keyword, and where that keyword occurs; on a
row of words, the earliest rule with a run of its words. In a script that was read there is always a rule
to choose. -/

namespace Dialogue
open Text

theorem firstHit?_eq_some_iff {query : Text} {i : Nat} {rules : List Rule} {hit : Hit} :
    firstHit? query i rules = some hit ↔ ∃ k r, hit.rule = i + k ∧ rules[k]? = some r ∧
      occurrence? r.keyword query = some hit.place ∧
      ∀ j < k, ∀ q, rules[j]? = some q → occurrence? q.keyword query = none := by
  induction rules generalizing i with
  | nil => simp [firstHit?]
  | cons r rules ih =>
    rw [firstHit?]
    cases ho : occurrence? r.keyword query with
    | some place =>
      constructor
      · intro h
        cases h
        exact ⟨0, r, rfl, rfl, ho, fun j hj => absurd hj (Nat.not_lt_zero j)⟩
      · rintro ⟨k, q, hrule, hq, hplace, hearlier⟩
        obtain rfl : k = 0 := by
          by_contra hk
          have := hearlier 0 (Nat.pos_of_ne_zero hk) r rfl
          rw [ho] at this
          cases this
        cases hq
        rw [ho] at hplace
        obtain ⟨rule, place⟩ := hit
        cases hplace
        cases hrule
        rfl
    | none =>
      rw [ih]
      constructor
      · rintro ⟨k, q, hrule, hq, hplace, hearlier⟩
        refine ⟨k + 1, q, by omega, hq, hplace, fun j hj q' hq' => ?_⟩
        cases j with
        | zero =>
          cases hq'
          exact ho
        | succ j => exact hearlier j (by omega) q' hq'
      · rintro ⟨k, q, hrule, hq, hplace, hearlier⟩
        cases k with
        | zero =>
          cases hq
          rw [ho] at hplace
          cases hplace
        | succ k => exact ⟨k, q, by omega, hq, hplace, fun j hj q' hq' => hearlier (j + 1) (by omega) q' hq'⟩

theorem firstHit?_eq_none_iff {query : Text} {i : Nat} {rules : List Rule} :
    firstHit? query i rules = none ↔ ∀ r ∈ rules, ¬ r.keyword <:+: query := by
  induction rules generalizing i with
  | nil => simp [firstHit?]
  | cons r rules ih =>
    rw [firstHit?, List.forall_mem_cons, ← occurrence?_eq_none_iff]
    cases occurrence? r.keyword query with
    | some place => simp
    | none => simp [ih]

theorem firstHit?_append (query : Text) (i : Nat) (rules more : List Rule) : firstHit? query i (rules ++ more) =
    (firstHit? query i rules).or (firstHit? query (i + rules.length) more) := by
  induction rules generalizing i with
  | nil => rfl
  | cons r rules ih =>
    rw [List.cons_append, firstHit?, firstHit?, ih, List.length_cons, Nat.add_assoc, Nat.add_comm 1]
    cases occurrence? r.keyword query <;> rfl

namespace Script
variable {s : Script} {query : Text}

/-- Some keyword occurs in the query. -/
def Knows (s : Script) (query : Text) : Prop := ∃ r ∈ s.rules, r.keyword <:+: query

theorem hit?_eq_none_iff : s.hit? query = none ↔ ¬ s.Knows query := by
  simp [hit?, firstHit?_eq_none_iff, Knows]

theorem hit?_eq_some_iff {hit : Hit} : s.hit? query = some hit ↔ ∃ r, s.rules[hit.rule]? = some r ∧
    occurrence? r.keyword query = some hit.place ∧
    ∀ j < hit.rule, ∀ q, s.rules[j]? = some q → occurrence? q.keyword query = none := by
  rw [hit?, firstHit?_eq_some_iff]
  constructor
  · rintro ⟨k, r, hrule, h⟩
    rw [Nat.zero_add] at hrule
    exact ⟨r, hrule ▸ h⟩
  · rintro ⟨r, h⟩
    exact ⟨hit.rule, r, (Nat.zero_add _).symm, h⟩

theorem select_of_unhit (h : s.hit? query = none) : s.select query = ⟨s.fallback, none, []⟩ := by rw [select, h]

theorem select_of_sentinel {hit : Hit} (h : s.hit? query = some hit) (hrule : hit.rule = s.fallback) :
    s.select query = ⟨s.fallback, some hit, []⟩ := by
  rw [select, h]
  exact if_pos hrule

theorem select_of_hit {hit : Hit} (h : s.hit? query = some hit) (hrule : hit.rule ≠ s.fallback) :
    s.select query = ⟨hit.rule, some hit, ' ' :: hit.place.after⟩ := by
  rw [select, h]
  exact if_neg hrule

theorem rule_select {hit : Hit} (h : s.hit? query = some hit) : (s.select query).rule = hit.rule := by
  by_cases hrule : hit.rule = s.fallback
  · rw [select_of_sentinel h hrule, hrule]
  · rw [select_of_hit h hrule]

theorem exists_rule_select (hs : s.WellFormed) (query : Text) : ∃ r, s.rules[(s.select query).rule]? = some r := by
  cases hhit : s.hit? query with
  | none =>
    rw [select_of_unhit hhit]
    exact ⟨_, List.getElem?_eq_getElem hs.fallback⟩
  | some hit =>
    obtain ⟨r, hr, -⟩ := hit?_eq_some_iff.mp hhit
    exact ⟨r, rule_select hhit ▸ hr⟩

/-- The fallback rule, and no other one, leaves nothing of the query. -/
theorem remainder_eq_nil_iff :
    (s.select query).remainder = [] ↔ (s.select query).rule = s.fallback := by
  cases hhit : s.hit? query with
  | none => simp [select_of_unhit hhit]
  | some hit =>
    by_cases hrule : hit.rule = s.fallback
    · simp [select_of_sentinel hhit hrule]
    · simp [select_of_hit hhit hrule, hrule]

theorem exists_hit (h : (s.select query).rule ≠ s.fallback) : ∃ hit, s.hit? query = some hit ∧ hit.rule ≠ s.fallback := by
  cases hhit : s.hit? query with
  | none => exact absurd (by rw [select_of_unhit hhit]) h
  | some hit => exact ⟨hit, rfl, fun hrule => h ((rule_select hhit).trans hrule)⟩

/-- What any other rule leaves is the end of the query, from the space that closes the keyword on. -/
theorem remainder_suffix (h : (s.select query).rule ≠ s.fallback) :
    (s.select query).remainder <:+ query ∧ (s.select query).remainder.head? = some ' ' := by
  obtain ⟨hit, hhit, hrule⟩ := exists_hit h
  obtain ⟨r, -, hplace, -⟩ := hit?_eq_some_iff.mp hhit
  rw [select_of_hit hhit hrule]
  refine ⟨⟨hit.place.before ++ ' ' :: r.phrase, ?_⟩, rfl⟩
  rw [eq_of_occurrence? hplace, Rule.keyword, pad]
  simp

/-! ### Rules and rows of words -/

section Words
variable {ws before after : List Text} {i : Nat} {r : Rule}

theorem occurrence?_keyword_eq_none_iff (hws : Unspaced ws) (q : Rule) :
    occurrence? q.keyword (spaced ws) = none ↔ ¬ words q.phrase <:+: ws := by
  rw [Rule.keyword, pad_eq_spaced]
  exact occurrence?_spaced_eq_none_iff (words_ne_nil q.phrase) (unspaced_words q.phrase) hws

theorem hit?_spaced (hws : Unspaced ws) (hr : s.rules[i]? = some r)
    (hfirst : ∀ j < i, ∀ q, s.rules[j]? = some q → ¬ words q.phrase <:+: ws)
    (hrun : LeftmostRun (words r.phrase) ws before after) :
    s.hit? (spaced ws) = some ⟨i, ⟨opened before, closed after⟩⟩ := by
  refine hit?_eq_some_iff.mpr ⟨r, hr, ?_, fun j hj q hq => ?_⟩
  · rw [Rule.keyword, pad_eq_spaced]
    exact occurrence?_of_leftmostRun (unspaced_words r.phrase) hws hrun
  · exact (occurrence?_keyword_eq_none_iff hws q).mpr (hfirst j hj q hq)

/-- A hit comes from a run of words. -/
theorem exists_run_of_hit? (hws : Unspaced ws) {hit : Hit} (h : s.hit? (spaced ws) = some hit) :
    ∃ r before after, s.rules[hit.rule]? = some r ∧ LeftmostRun (words r.phrase) ws before after ∧
      (∀ j < hit.rule, ∀ q, s.rules[j]? = some q → ¬ words q.phrase <:+: ws) ∧
      hit.place = ⟨opened before, closed after⟩ := by
  obtain ⟨r, hr, hplace, hearlier⟩ := hit?_eq_some_iff.mp h
  have hinfix : words r.phrase <:+: ws := by
    by_contra hno
    rw [(occurrence?_keyword_eq_none_iff hws r).mpr hno] at hplace
    cases hplace
  obtain ⟨before, after, hrun⟩ := exists_leftmostRun hinfix
  have hfirst : ∀ j < hit.rule, ∀ q, s.rules[j]? = some q → ¬ words q.phrase <:+: ws := fun j hj q hq =>
    (occurrence?_keyword_eq_none_iff hws q).mp (hearlier j hj q hq)
  have hhit := Option.some.inj (h.symm.trans (hit?_spaced hws hr hfirst hrun))
  exact ⟨r, before, after, hr, hrun, hfirst, congrArg Hit.place hhit⟩

/-- The rest of a query is the row of the words behind the run. -/
theorem select_spaced (hws : Unspaced ws) (hr : s.rules[i]? = some r)
    (hfirst : ∀ j < i, ∀ q, s.rules[j]? = some q → ¬ words q.phrase <:+: ws)
    (hrun : LeftmostRun (words r.phrase) ws before after) (hi : i ≠ s.fallback) :
    s.select (spaced ws) = ⟨i, some ⟨i, ⟨opened before, closed after⟩⟩, spaced after⟩ :=
  select_of_hit (hit?_spaced hws hr hfirst hrun) hi

end Words

/-- The search in a padded text is a search for whole words. The rule that is hit is the first one whose
    words are a run of the words of the text, and the offset is that of the leftmost such run: the bytes of
    the words before it, and one more for each of them. Without such a rule there is no hit. -/
theorem hit?_pad_iff (s : Script) (t : Text) :
    (∀ i offset, (∃ hit, s.hit? (pad t) = some hit ∧ hit.rule = i ∧ hit.offset = offset) ↔
      ∃ r before after, s.rules[i]? = some r ∧
        (∀ j < i, ∀ q, s.rules[j]? = some q → ¬ words q.phrase <:+: words t) ∧
        LeftmostRun (words r.phrase) (words t) before after ∧
        offset = byteLength before.flatten + before.length) ∧
    (s.hit? (pad t) = none ↔ ∀ r ∈ s.rules, ¬ words r.phrase <:+: words t) := by
  have hws := unspaced_words t
  rw [pad_eq_spaced t]
  refine ⟨fun i offset => ⟨?_, ?_⟩, ?_⟩
  · rintro ⟨hit, hhit, rfl, rfl⟩
    obtain ⟨r, before, after, hr, hrun, hfirst, hplace⟩ := exists_run_of_hit? hws hhit
    refine ⟨r, before, after, hr, hfirst, hrun, ?_⟩
    rw [Hit.offset, hplace, byteLength_opened]
  · rintro ⟨r, before, after, hr, hfirst, hrun, rfl⟩
    exact ⟨_, hit?_spaced hws hr hfirst hrun, rfl, byteLength_opened before⟩
  · rw [hit?, firstHit?_eq_none_iff]
    refine forall₂_congr fun r _ => ?_
    rw [← occurrence?_eq_none_iff, occurrence?_keyword_eq_none_iff hws]

example : hit? ⟨[⟨"YOU".toList, ⟨0, 0⟩, 1⟩], [['X']], 0⟩ (pad "YOURS TRULY".toList) = none := by decide

end Script

end Dialogue
