import Dialogue.Proofs.Text.Utf8
import Dialogue.Report.Basic

/-! # The first lines of reports

What a report says below the reply goes from the line of the query to the line of the flags. These two are
told by their beginnings, so a text with reports in it can be brought down to their first lines
(`firstLines`). That leaves the replies where no text of an answer breaks a line, and no reply looks like the
line of the query (`Answer.Legible`). -/

namespace Dialogue
open Text

/-- A line that is not taken for the line of a query. -/
structure Report.Outer (line : Text) : Prop where
  feed : '\n' ∉ line
  opening : line.head? ≠ some ' ' ∨ 'q' ∉ line

/-- The texts of an answer are lines, and the reply is not taken for the line of a query. -/
structure Answer.Legible (a : Answer) : Prop where
  reply : Report.Outer a.reply
  query : '\n' ∉ a.query
  phrase : ∀ t ∈ a.phrase?, '\n' ∉ t
  template : ∀ t ∈ a.template?, '\n' ∉ t
  remainder : '\n' ∉ a.remainder
  conjugated : ∀ t ∈ a.conjugated?, '\n' ∉ t

namespace Report
variable {line took : Text} {ls : List Text} {a : Answer}

/-- The line of the query, below the reply. -/
def opens (line : Text) : Bool := "  query: ".toList <+: line

/-- The line of the flags, the last one. -/
def closes (line : Text) : Bool := "  flags: ".toList <+: line

/-- The lines that are not below the first line of a report. `inside` tells whether the first of them would
    be. -/
def outside (inside : Bool) : List Text → List Text
  | [] => []
  | line :: rest =>
    if inside then outside (!closes line) rest
    else if opens line then outside true rest
    else line :: outside false rest

/-- A text that has no more than the first line of each report. -/
def firstLines (t : Text) : Text := (outside false (cutAfter '\n' t)).flatten

theorem Outer.opens_eq_false (h : Outer line) : opens (line ++ ['\n']) = false := by
  refine decide_eq_false ?_
  rintro ⟨rest, hrest⟩
  rcases h.opening with h | h
  · cases line with
    | nil => simp at hrest
    | cons c line => exact h (congrArg some (List.cons.inj hrest).1.symm)
  · have hmem : 'q' ∈ line ++ ['\n'] := by simp [← hrest]
    exact h (by simpa using hmem)

theorem outside_cons (h : opens line = false) (rest : List Text) :
    outside false (line :: rest) = line :: outside false rest := by
  simp [outside, h]

theorem outside_opening (h : opens line = true) (rest : List Text) :
    outside false (line :: rest) = outside true rest := by
  simp [outside, h]

theorem outside_closing (h : closes line = true) (rest : List Text) :
    outside true (line :: rest) = outside false rest := by
  simp [outside, h]

theorem outside_append (h : ∀ line ∈ ls, closes line = false) (rest : List Text) :
    outside true (ls ++ rest) = outside true rest := by
  induction ls with
  | nil => rfl
  | cons line ls ih =>
    obtain ⟨hline, hls⟩ := List.forall_mem_cons.mp h
    simp [outside, hline, ih hls]

/-! ### Lines of a report -/

theorem newline_notMem_ofNat (n : Nat) : '\n' ∉ Text.ofNat n := fun h =>
  absurd (Text.isDigit_of_mem_ofNat h) (by decide)

theorem notMem_join {c : Char} {separator : Text} (hseparator : c ∉ separator) {ts : List Text} (h : ∀ t ∈ ts, c ∉ t) :
    c ∉ join separator ts := by
  induction ts with
  | nil => exact List.not_mem_nil
  | cons t ts ih =>
    obtain ⟨ht, hts⟩ := List.forall_mem_cons.mp h
    by_cases hne : ts = []
    · rw [hne, join, List.intercalate_singleton]
      exact ht
    · rw [join, List.intercalate_cons_of_ne_nil hne, List.mem_append, List.mem_append]
      rintro ((hmem | hmem) | hmem)
      · exact ht hmem
      · exact hseparator hmem
      · exact ih hts hmem

theorem newline_notMem_name (f : Flag) : '\n' ∉ f.name.map Char.toLower := by
  cases f <;> decide

theorem newline_notMem_flagNames (s : Flags) : '\n' ∉ flagNames s := by
  rw [flagNames]
  by_cases h : s.toList = []
  · rw [if_pos h]
    simp
  · rw [if_neg h]
    refine notMem_join (by simp) fun t ht => ?_
    obtain ⟨f, -, rfl⟩ := List.mem_map.mp ht
    exact newline_notMem_name f

theorem newline_notMem_field {label : String} {value : Text} (hlabel : '\n' ∉ label.toList) (hvalue : '\n' ∉ value) :
    '\n' ∉ field false label value := by
  simp [field, Style.paint, hlabel, hvalue]

/-- The labels of the lines between those of the query and of the flags. -/
def courseLabels : List String := ["rule:", "template:", "remainder:", "conjugated:", "rotation:"]

/-- A line between those of the query and of the flags. -/
theorem of_mem_courseLines (ha : a.Legible) (h : line ∈ courseLines false a) :
    line = "  repeated input, rotation unchanged".toList ∨
      ∃ label ∈ courseLabels, ∃ value, '\n' ∉ value ∧ line = field false label value := by
  unfold courseLines at h
  cases hchoice : a.choice? with
  | none =>
    rw [hchoice] at h
    exact Or.inl (List.mem_singleton.mp h)
  | some choice =>
    right
    rw [hchoice] at h
    simp only [List.mem_append, List.mem_singleton, Option.mem_toList, Option.map_eq_some_iff, or_assoc] at h
    rcases h with rfl | ⟨t, ht, rfl⟩ | h | ⟨t, ht, rfl⟩ | ⟨t, -, rfl⟩
    · have hphrase : '\n' ∉ choice.phrase := ha.phrase choice.phrase (congrArg (Option.map Choice.phrase) hchoice)
      refine ⟨"rule:", by simp [courseLabels], _, ?_, rfl⟩
      cases choice.selection.hit <;> simp [Style.paint, hphrase, newline_notMem_ofNat]
    · exact ⟨"template:", by simp [courseLabels], t, ha.template t ht, rfl⟩
    · split at h
      · cases h
      · refine ⟨"remainder:", by simp [courseLabels], quote a.remainder, ?_, List.mem_singleton.mp h⟩
        simp [quote, ha.remainder]
    · refine ⟨"conjugated:", by simp [courseLabels], quote t, ?_, rfl⟩
      simp [quote, ha.conjugated t ht]
    · refine ⟨"rotation:", by simp [courseLabels], _, ?_, rfl⟩
      simp [Style.paint, newline_notMem_ofNat]

theorem newline_notMem_lines (ha : a.Legible) (htook : '\n' ∉ took) : ∀ line ∈ lines false took a, '\n' ∉ line := by
  intro line hline
  rw [lines, List.mem_append, List.mem_append, List.mem_singleton, List.mem_cons, List.mem_singleton] at hline
  rcases hline with ((rfl | rfl) | hline) | rfl
  · exact ha.reply.feed
  · exact newline_notMem_field (by simp) (by simp [Style.paint, quote, ha.query])
  · rcases of_mem_courseLines ha hline with rfl | ⟨label, hlabel, value, hvalue, rfl⟩
    · simp
    · have hlabels : ∀ label ∈ courseLabels, '\n' ∉ label.toList := by simp [courseLabels]
      exact newline_notMem_field (hlabels label hlabel) hvalue
  · exact newline_notMem_field (by simp) (by simp [Style.paint, newline_notMem_flagNames, htook])

theorem closes_courseLines (ha : a.Legible) : ∀ line ∈ (courseLines false a).map (· ++ ['\n']), closes line = false := by
  have hlabels (value : Text) : ∀ label ∈ courseLabels, closes (field false label value ++ ['\n']) = false := by
    simp [courseLabels, closes, field, Style.paint]
  intro piece hpiece
  obtain ⟨line, hline, rfl⟩ := List.mem_map.mp hpiece
  rcases of_mem_courseLines ha hline with rfl | ⟨label, hlabel, value, -, rfl⟩
  · simp [closes]
  · exact hlabels value label hlabel

/-- Of a report, the first line is left. -/
theorem outside_lines (ha : a.Legible) (took : Text) (rest : List Text) :
    outside false ((lines false took a).map (· ++ ['\n']) ++ rest) = (a.reply ++ ['\n']) :: outside false rest := by
  have hquery : opens (field false "query:" (quote a.query) ++ ['\n']) = true := by simp [opens, field, Style.paint]
  have hfooter : closes (footer false took a.flags ++ ['\n']) = true := by simp [closes, footer, field, Style.paint]
  have hlines : (lines false took a).map (· ++ ['\n']) ++ rest = (a.reply ++ ['\n']) ::
      (field false "query:" (quote a.query) ++ ['\n']) ::
        ((courseLines false a).map (· ++ ['\n']) ++ (footer false took a.flags ++ ['\n']) :: rest) := by
    simp [lines, Style.paint]
  rw [hlines, outside_cons ha.reply.opens_eq_false, outside_opening hquery, outside_append (closes_courseLines ha),
    outside_closing hfooter]

end Report

end Dialogue
