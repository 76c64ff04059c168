import Dialogue.Script.Basic
import Dialogue.Text.Occurrence

/-! # Choosing a rule

Rules are tried in the order of the script, and the first one whose keyword occurs anywhere in the query
answers. Where in the query it occurs does not count. -/

namespace Dialogue
open Text

/-- A rule whose keyword occurs in a query, and where. -/
structure Hit where
  rule : Nat
  place : Occurrence
deriving DecidableEq, Repr

/-- The offset of the keyword, its leading space included, in bytes. -/
def Hit.offset (h : Hit) : Nat := h.place.before.byteLength

/-- The first of some rules to hit. `i` is the place of the first of them in the script. -/
def firstHit? (query : Text) (i : Nat) : List Rule → Option Hit
  | [] => none
  | r :: rules =>
    match occurrence? r.keyword query with
    | some place => some ⟨i, place⟩
    | none => firstHit? query (i + 1) rules

/-- The rule that answers a query, and the rest of the query for its reply. -/
structure Selection where
  rule : Nat
  hit : Option Hit
  /-- The query from the space that closes the keyword; nothing for the fallback rule. -/
  remainder : Text
deriving DecidableEq, Repr

namespace Script

def hit? (s : Script) (query : Text) : Option Hit := firstHit? query 0 s.rules

/-- The first rule that hits, or else the fallback rule. -/
def select (s : Script) (query : Text) : Selection :=
  match s.hit? query with
  | some hit =>
    if hit.rule = s.fallback then ⟨s.fallback, some hit, []⟩
    else ⟨hit.rule, some hit, ' ' :: hit.place.after⟩
  | none => ⟨s.fallback, none, []⟩

end Script

def Selection.isFallback (x : Selection) (s : Script) : Bool := x.rule = s.fallback

end Dialogue
