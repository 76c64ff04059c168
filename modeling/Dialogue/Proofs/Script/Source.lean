import Dialogue.Proofs.Script.Invariant
import Dialogue.Proofs.Text.Utf8

/-! # Every source of a script reads the same

A text gives the same script, or the same defect, and the same notices whether it comes as lines, as one
text, as bytes or as a file. Bytes that are no text give a defect: the first one that the lines before the
first unreadable line come to, or that line itself. -/

namespace Dialogue.Script

theorem Draft.result_read_unreadable (fallback : Text) (d : Draft) (before : List Text) (after : List (Option Text)) :
    (d.read fallback (before.map some ++ none :: after)).result =
      d.pushAll before >>= fun _ => .error (.unreadable .notUtf8) := by
  induction before generalizing d with
  | nil => rfl
  | cons raw before ih =>
    rw [List.map_cons, List.cons_append, read, pushAll, List.foldlM_cons]
    cases d.push raw with
    | ok d' => exact ih d'
    | error e => rfl

/-- The lines before the first one that is no text. -/
theorem exists_unreadable {lines : List (Option Text)} (h : none ∈ lines) :
    ∃ (before : List Text) (after : List (Option Text)), lines = before.map some ++ none :: after := by
  induction lines with
  | nil => cases h
  | cons line lines ih =>
    cases line with
    | none => exact ⟨[], lines, rfl⟩
    | some raw =>
      obtain ⟨before, after, rfl⟩ := ih (List.mem_of_ne_of_mem (by simp) h)
      exact ⟨raw :: before, after, rfl⟩

theorem ofBytes_ofText (fallback : Text) (t : Text) : ofBytes fallback (Bytes.ofText t) = ofText fallback t := by
  rw [ofBytes, Bytes.lines_ofText]
  rfl

/-- A file that gives a script is a text. -/
theorem exists_text_of_ofFile {fallback : Text} {f : File} {s : Script} (h : (ofFile fallback f).result = .ok s) :
    ∃ t, (ofText fallback t).result = .ok s := by
  cases f with
  | unreadable reason => cases h
  | contents b =>
    have htext : none ∉ b.lines := by
      intro hmem
      obtain ⟨before, after, hlines⟩ := exists_unreadable hmem
      rw [ofFile, ofBytes, hlines, Draft.result_read_unreadable] at h
      cases hbefore : Draft.empty.pushAll before with
      | ok d => simp [hbefore, bind, Except.bind] at h
      | error e => simp [hbefore, bind, Except.bind] at h
    obtain ⟨t, rfl⟩ := Bytes.exists_text_of_lines htext
    rw [ofFile, ofBytes_ofText] at h
    exact ⟨t, h⟩

/-- A file that can be read gives a script that some lines give. -/
theorem loaded_of_ofFile {fallback : Text} {f : File} {s : Script} (h : (ofFile fallback f).result = .ok s) :
    s.Loaded := by
  obtain ⟨t, h⟩ := exists_text_of_ofFile h
  exact ⟨fallback, t.lines, h⟩

/-- A file reads as its bytes. Where these are a text they read as the text does, and that as its lines.
    Where they are none, the reading fails at the first line that is no text, if none before it does. -/
theorem ofFile_eq_ofText (fallback : Text) (b : Bytes) : ofFile fallback (.contents b) = ofBytes fallback b ∧
    (∀ t, b.text? = some t → ofBytes fallback b = ofText fallback t ∧ ofText fallback t = ofLines fallback t.lines) ∧
    (b.text? = none → ∃ (before : List Text) (after : List (Option Text)), b.lines = before.map some ++ none :: after ∧
      (∀ e, Draft.empty.pushAll before = .error e → (ofBytes fallback b).result = .error e) ∧
      (∀ d, Draft.empty.pushAll before = .ok d →
        (ofBytes fallback b).result = .error (.unreadable .notUtf8) ∧
        Unreadable.message .notUtf8 = "stream did not contain valid UTF-8".toList)) := by
  refine ⟨rfl, fun t ht => ⟨?_, rfl⟩, fun hnone => ?_⟩
  · rw [Bytes.text?_eq_some_iff.mp ht, ofBytes_ofText]
  · have hmem : none ∈ b.lines := by
      by_contra hall
      obtain ⟨t, ht⟩ := Bytes.exists_text_of_lines hall
      rw [Bytes.text?_eq_some_iff.mpr ht] at hnone
      cases hnone
    obtain ⟨before, after, hlines⟩ := exists_unreadable hmem
    have hresult := Draft.result_read_unreadable fallback .empty before after
    rw [← hlines] at hresult
    refine ⟨before, after, hlines, fun e he => ?_, fun d hd => ⟨?_, rfl⟩⟩
    · rw [ofBytes, hresult, he]
      rfl
    · rw [ofBytes, hresult, hd]
      rfl

/-- Line ends of both kinds, a lone carriage return, a character of two bytes and a last line without an
    end; and bytes that are no text. -/
theorem ofFile_eq_ofText_mixed :
    let t : Text := "A\r\n!\nÉ*\r\n.\n\r\nN\n!\nx\ry\n.".toList
    let s : Script := ⟨[⟨['A'], ⟨0, 0⟩, 1⟩, ⟨['N'], ⟨1, 1⟩, 6⟩], [['É', '*'], ['x', '\r', 'y']], 1⟩
    (ofFile ['N'] (.contents (Bytes.ofText t))).result = .ok s ∧
    ∃ e, (ofFile ['N'] (.contents [65, 10, 46, 10, 255])).result = .error e := by
  intro t s
  have htext : Bytes.text? (Bytes.ofText t) = some t := Bytes.text?_eq_some_iff.mpr rfl
  have hs : (ofText ['N'] t).result = .ok s := by rfl
  obtain ⟨hfile, hbytes, -⟩ := ofFile_eq_ofText ['N'] (Bytes.ofText t)
  refine ⟨by rw [hfile, (hbytes t htext).1, hs], ?_⟩
  obtain ⟨hfile, -, hnone⟩ := ofFile_eq_ofText ['N'] [65, 10, 46, 10, 255]
  obtain ⟨before, after, -, herror, hok⟩ := hnone (by decide +kernel)
  rw [hfile]
  cases hpush : Draft.empty.pushAll before with
  | error e => exact ⟨e, herror e hpush⟩
  | ok d => exact ⟨_, (hok d hpush).1⟩

end Dialogue.Script
