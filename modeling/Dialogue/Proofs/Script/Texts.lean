import Dialogue.Proofs.Script.Source
import Dialogue.Proofs.Script.Warnings

/-! # Every text of a script stands on one line

The phrases and the replies of a script are lines of its file, less the white space around them. So none of
them breaks a line, and none begins with a space, wherever the script was read from. -/

namespace Dialogue

namespace Text
variable {t : Text} {c : Char}

theorem mem_of_mem_trim (h : c ∈ t.trim) : c ∈ t := by
  have hstart : t.trim <+: t.dropWhile isBlank := List.rdropWhile_prefix isBlank _
  exact (List.dropWhile_suffix _).subset (hstart.subset h)

theorem newline_notMem_dropLineEnd {line piece : Text} (hline : '\n' ∉ line)
    (h : piece = line ∨ piece = line ++ ['\n']) : '\n' ∉ dropLineEnd '\n' '\r' piece := by
  unfold dropLineEnd
  rcases h with rfl | rfl
  · rw [if_neg fun hlast => hline (List.mem_of_getLast? hlast)]
    exact hline
  · rw [if_pos List.getLast?_concat, List.dropLast_concat]
    split
    · exact fun hmem => hline (List.dropLast_subset _ hmem)
    · exact hline

theorem newline_notMem_lines (t : Text) : ∀ line ∈ t.lines, '\n' ∉ line := by
  intro line hline
  obtain ⟨piece, hpiece, rfl⟩ := List.mem_map.mp hline
  obtain ⟨stem, hstem, hends⟩ := exists_of_mem_cutAfter hpiece
  exact newline_notMem_dropLineEnd hstem hends

end Text

namespace Script
open Text

/-- The texts of a script are lines, and none begins with a space. -/
structure Legible (s : Script) : Prop where
  phrases : ∀ r ∈ s.rules, '\n' ∉ r.phrase
  replies : ∀ t ∈ s.replies, '\n' ∉ t
  openings : ∀ t ∈ s.replies, t.head? ≠ some ' '

section Lines
variable {fallback : Text} {lines : List Text} {es : List Entry} {s : Script}

theorem Layout.exists_line_of_mem_content {e : Entry} (h : e ∈ content lines) : ∃ raw ∈ lines, e.text = raw.trim := by
  obtain ⟨⟨raw, n⟩, hmem, rfl⟩ := List.mem_map.mp (List.mem_filter.mp h).1
  exact ⟨raw, List.fst_mem_of_mem_zipIdx hmem, rfl⟩

/-- A phrase is the text of a line that counts. -/
theorem Layout.Reads.exists_phrase (h : Reads fallback es s) {r : Rule} (hr : r ∈ s.rules) :
    ∃ e ∈ es, e.text = r.phrase := by
  have hrule : r ∈ Layout.rules 0 (blocks es) := (unshadowed_sublist _).subset (h.rules ▸ hr)
  have hentry : r.entry ∈ listing .keywords .keywords es := h.map_entry_rules ▸ List.mem_map_of_mem hrule
  exact ⟨r.entry, (listing_sublist _ _ _).subset hentry, rfl⟩

/-- So is a reply. -/
theorem Layout.Reads.exists_reply (h : Reads fallback es s) {t : Text} (ht : t ∈ s.replies) :
    ∃ e ∈ es, e.text = t := by
  rw [h.replies] at ht
  obtain ⟨b, hb, ht⟩ := List.mem_flatMap.mp ht
  obtain ⟨e, he, rfl⟩ := List.mem_map.mp ht
  have hlisted : e ∈ listing .replies .keywords es := by
    rw [listing_of_settled h.settled]
    exact List.mem_flatMap.mpr ⟨b, hb, he⟩
  exact ⟨e, (listing_sublist _ _ _).subset hlisted, rfl⟩

theorem legible_of_ofLines (hlines : ∀ raw ∈ lines, '\n' ∉ raw) (h : (ofLines fallback lines).result = .ok s) :
    s.Legible := by
  have hreads : Layout.Reads fallback (Layout.content lines) s := Layout.ofLines_eq_ok_iff_reads.mp h
  have hfeed : ∀ e ∈ Layout.content lines, '\n' ∉ e.text := by
    intro e he hmem
    obtain ⟨raw, hraw, htext⟩ := Layout.exists_line_of_mem_content he
    exact hlines raw hraw (mem_of_mem_trim (htext ▸ hmem))
  refine ⟨fun r hr => ?_, fun t ht => ?_, fun t ht hhead => ?_⟩
  · obtain ⟨e, he, htext⟩ := hreads.exists_phrase hr
    exact htext ▸ hfeed e he
  · obtain ⟨e, he, rfl⟩ := hreads.exists_reply ht
    exact hfeed e he
  · obtain ⟨e, he, rfl⟩ := hreads.exists_reply ht
    obtain ⟨raw, -, htext⟩ := Layout.exists_line_of_mem_content he
    rw [htext] at hhead
    exact absurd (head?_trim hhead) (by decide)

end Lines

theorem legible_of_ofText {fallback source : Text} {s : Script} (h : (ofText fallback source).result = .ok s) :
    s.Legible :=
  legible_of_ofLines (newline_notMem_lines source) h

theorem legible_of_ofFile {fallback : Text} {f : File} {s : Script} (h : (ofFile fallback f).result = .ok s) :
    s.Legible := by
  obtain ⟨source, h⟩ := exists_text_of_ofFile h
  exact legible_of_ofText h

end Script

end Dialogue
