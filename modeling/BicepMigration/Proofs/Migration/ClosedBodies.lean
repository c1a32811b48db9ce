import BicepMigration.Migration.Validation
import BicepMigration.Proofs.Migration.RepairedText
import BicepMigration.Proofs.Template.FragmentText

/-!
# Bodies are closed

A statement with a body ends where its body is closed, so its text ends with a closing brace. This is what the check of
module calls asks of a template that can be scanned.
-/

namespace BicepMigration.Template

open Text

variable {source : String}

/-- The lexemes of a statement with a body end with a brace. -/
theorem IsPiece.exists_braceClose {here : Cursor} {first : Lexeme} {body rest : List Lexeme} {s : Statement}
    (h : IsPiece source here first body rest s) (hb : Balanced ((first :: (body ++ rest)).map (·.kind)))
    (hs : s.body.isSome) : ∃ before close, first :: body = before ++ [close] ∧ close.kind = .braceClose := by
  obtain ⟨entries, hs⟩ := Option.isSome_iff_exists.1 hs
  have hreads := h.reads
  rw [← kinds_tokensAt here] at hb
  obtain ⟨before, close, hall, hclose⟩ := (@Template.exists_braceClose source) hb
    ((congrArg (fun r => r.1.body) hreads).trans hs)
  rw [hreads] at hall
  obtain ⟨x, l, hrun, hkind⟩ := exists_last_lexeme hall
  exact ⟨x, l, hrun, hkind.trans hclose⟩

end BicepMigration.Template

namespace BicepMigration.Migration

open Template Text

/-- The text of a statement with a body ends with a brace. -/
theorem endsWithBrace_of_body {source : String} {template : ScannedTemplate} (h : scan source = .ok template)
    {s : Statement} (hs : s ∈ template.statements) (hb : s.body.isSome) : endsWithBrace template s = true := by
  obtain ⟨l, hsource, hchars, -, hpieces⟩ := exists_layout h
  obtain ⟨x, first, body, rest, hls, hpiece, hbalanced⟩ := hpieces.exists_piece l.balanced hs
  obtain ⟨before, close, hrun, hclose⟩ := hpiece.exists_braceClose hbalanced hb
  have htext := toList_slice_runSpan hchars (show l.lexemes = x ++ (first :: body ++ rest) from hls)
  have hspelled : IsSpelled close.kind close.text := by
    refine l.legible.forall_spelled close ?_
    rw [hls, ← List.cons_append, hrun]
    simp
  rw [hclose] at hspelled
  have hlast : (bare (first :: body)).reverse = '}' :: (bare (first :: body)).reverse.tail := by
    rw [hrun]
    have hclosed : close.text = ['}'] := hspelled
    cases before with
    | nil => simp [hclosed]
    | cons b before => simp [hclosed]
  rw [endsWithBrace, hpiece.span, hsource, htext, trimEnd, hlast]
  simp [isBlank]

end BicepMigration.Migration
