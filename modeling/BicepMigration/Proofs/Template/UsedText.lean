import BicepMigration.Proofs.Template.FragmentText
import BicepMigration.Proofs.Template.KeptUse
import BicepMigration.Proofs.Template.Placement

/-!
# Uses in written text

A text that can be read as a part holds a use of a symbol if its lexemes do; there is only one way to read it. So
whether a symbol is used in what is written for a fragment depends on the text alone. Main statement: the text that is
written for a fragment of a template uses a symbol exactly where a use in the fragment stays.
-/

namespace BicepMigration.Template

open Text

section Text

variable {strict : Bool} {symbols : List String} {side : Side} {text : String} {ls : List Lexeme}

/-- One of the symbols is used in the text of a part, after something with a side. -/
def TextUses (strict : Bool) (symbols : List String) (side : Side) (text : String) : Prop :=
  ∃ ls, Part ls ∧ text.toList = bare ls ∧ HasUse strict symbols side ls false

/-- A text uses what its lexemes use. -/
theorem textUses_iff (hp : Part ls) (ht : text.toList = bare ls) :
    TextUses strict symbols side text ↔ HasUse strict symbols side ls false := by
  refine ⟨fun ⟨ms, hpm, htm, hu⟩ => ?_, fun hu => ⟨ls, hp, ht, hu⟩⟩
  rw [← hasUse_regap [], regap_eq_of_bare hp hpm (ht.symm.trans htm), hasUse_regap]
  exact hu

/-- A text without names uses nothing. -/
theorem not_textUses_of_kind (hp : Part ls) (ht : text.toList = bare ls) (hk : ∀ l ∈ ls, l.kind ≠ .identifier) :
    ¬ TextUses strict symbols side text := by
  rw [textUses_iff hp ht]
  exact not_hasUse_of_kind hk

/-- A name that is none of the symbols uses nothing. -/
theorem not_textUses_name (hn : IsName text) (hs : text ∉ symbols) : ¬ TextUses strict symbols side text := by
  rw [textUses_iff (element_name hn).toPart (by simp [nameLexeme]), hasUse_cons]
  rintro (⟨-, hmem, -⟩ | h)
  · exact hs (by simpa [nameLexeme] using hmem)
  · exact h

end Text

/-- The words that declarations and literals are written with, apart from names. -/
def callWords : List String := ["resource", "module", "existing", "if", "true", "false", "null"]

/-- The text of a template with its uses of symbols replaced. -/
abbrev replacedText (source : String) (l : Layout) (symbols : List String) (replace : Replacements) : EditedText :=
  .ofEdits source (editsFrom l.start.offset (useChanges symbols replace [] l.start l.lexemes))

/-- Uses of symbols are replaced in a template that can be told apart from what else is written: the symbols are none of
the words of declarations, no symbol stays directly after a use that is replaced, and none stays between an opening
bracket and a colon. -/
structure Replacing (strict : Bool) (source : String) (l : Layout) (symbols : List String) (replace : Replacements) :
    Prop where
  source : source.toList = l.chars
  frees : Frees symbols replace
  renames : ∀ c ∈ useChanges symbols replace [] l.start l.lexemes, c.Renames
  spares : SparesNext symbols (useChanges symbols replace [] l.start l.lexemes)
  words : ∀ word ∈ callWords, word ∉ symbols
  opened : ∀ before t after, l.tokens = before.reverse ++ t :: after →
    KeptUse strict symbols replace before t after → before.head?.any (·.kind = .bracketOpen) = true →
      startsColon after = false

/-- In the strict sense no use stands between an opening bracket and a colon. -/
theorem startsColon_of_opened {strict : Bool} {symbols : List String} {replace : Replacements}
    {before after all : List Token} {t : Token}
    (h : strict = true ∨ ¬ Occurs (KeptUse strict symbols replace) [] all []) (hall : all = before.reverse ++ t :: after)
    (hk : KeptUse strict symbols replace before t after) (ho : before.head?.any (·.kind = .bracketOpen) = true) :
    startsColon after = false := by
  have hstrict : strict = true := h.resolve_right fun hn => hn (by
    rw [hall]
    exact .of_place (by simpa using hk))
  cases before with
  | nil => cases ho
  | cons u before =>
    have hadmits := hk.admits
    simp only [List.head?_cons, Option.any_some, decide_eq_true_eq] at ho
    simpa [sideBefore, Side.after, ho, hstrict, Side.admits] using hadmits

section Fragments

variable {strict : Bool} {source : String} {l : Layout} {symbols : List String} {replace : Replacements}

/-- What is written for a fragment uses a symbol where a use in it stays. -/
theorem Replacing.textUses_fragment_iff (h : Replacing strict source l symbols replace) {t : Token}
    {ts before after : List Token} (hall : l.tokens = before.reverse ++ (t :: ts ++ after))
    (hb : Balanced (kinds (t :: ts))) (hbefore : TokensApart before.reverse (t :: ts))
    (hafter : TokensApart (t :: ts) after) (hcolon : startsColon after = false) {side : Side}
    (hside : Agrees strict symbols replace side before (t :: ts ++ after)) :
    TextUses strict symbols side ((replacedText source l symbols replace).fragment (Fragment.ofTokens source t ts)) ↔
      Occurs (KeptUse strict symbols replace) before (t :: ts) after := by
  obtain ⟨x, first, others, y, hf, hx, hrun, rfl⟩ := exists_isFragment_ofTokens h.source hall hbefore hafter
  obtain ⟨left, cs, right, holds, hchanges, huse, htext⟩ := @IsFragment.exists_changes _ _ h.source symbols replace
    _ _ _ _ _ hf
  have hbefore' : before = (tokensAt l.start x).reverse := by rw [← hx, List.reverse_reverse]
  have hrenames : ∀ c ∈ cs, c.Renames := fun c hc => h.renames c (by rw [hchanges]; simp [hc])
  have hinfix : cs <:+: useChanges symbols replace [] l.start l.lexemes := ⟨left, right, by rw [hchanges]; simp⟩
  have hpart : Part (olds cs) := by
    rw [holds]
    refine ⟨by simp, ?_, hf.legible⟩
    rw [← kinds_tokensAt (l.start.advance (written x)), ← hrun]
    exact hb
  rw [← hbefore', ← holds] at huse
  rw [hrun, ← holds] at hside ⊢
  rw [← tokensAt_append] at hside
  have hnews := hasUse_news_iff h.frees huse (h.spares.mono hinfix) hside
  rw [startsColon_tokensAt] at hcolon
  rw [hcolon] at hnews
  rw [textUses_iff (hpart.news hrenames) htext, hnews]

end Fragments

end BicepMigration.Template
