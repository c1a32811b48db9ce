import BicepMigration.Proofs.Template.Holding
import BicepMigration.Proofs.Template.Renaming

/-!
# The text of a fragment

A fragment that was cut out of the tokens of a template is the text of the lexemes in that place, from the first
token to the last one. With edits that replace uses of symbols it is the text of these lexemes with the changes that
fall among them. What is read from this text is not described here.
-/

namespace BicepMigration.Template

open Text

/-- The last token is what the last lexeme is. -/
theorem getLast?_kind_tokensAt (here : Cursor) (ls : List Lexeme) :
    (tokensAt here ls).getLast?.map (·.kind) = ls.getLast?.map (·.kind) := by
  rw [← List.getLast?_map, ← List.getLast?_map, ← kinds_tokensAt here ls]
  rfl

/-- The first token is what the first lexeme is. -/
theorem head?_kind_tokensAt (here : Cursor) (ls : List Lexeme) :
    (tokensAt here ls).head?.map (·.kind) = ls.head?.map (·.kind) := by
  cases ls <;> rfl

/-- Lexemes are apart where their tokens are. -/
theorem apart_of_tokensApart {here there : Cursor} {a b : List Lexeme}
    (h : TokensApart (tokensAt here a) (tokensAt there b)) : Apart a b := by
  intro x y hx hy
  have hlast := getLast?_kind_tokensAt here a
  have hhead := head?_kind_tokensAt there b
  rw [hx] at hlast
  rw [hy] at hhead
  obtain ⟨t, ht, htk⟩ := Option.map_eq_some_iff.1 hlast
  obtain ⟨u, hu, huk⟩ := Option.map_eq_some_iff.1 hhead
  have htu := h t u ht hu
  rwa [htk, huk] at htu

/-- The lexemes of a fragment, with the lexemes before and after them. -/
structure IsFragment (l : Layout) (x : List Lexeme) (first : Lexeme) (others y : List Lexeme) (f : Fragment) :
    Prop where
  lexemes : l.lexemes = x ++ (first :: others ++ y)
  before : Apart x (first :: others)
  after : Apart (first :: others) y
  span : f.span = some (runSpan (l.start.advance (written x)).offset first others)
  raw : f.raw.toList = bare (first :: others)

variable {source : String} {l : Layout}

/-- The text of a run of lexemes is what is written for them. -/
theorem toList_slice_runSpan (hs : source.toList = l.chars) {x : List Lexeme} {first : Lexeme} {others y : List Lexeme}
    (hls : l.lexemes = x ++ (first :: others ++ y)) :
    (slice source (runSpan (l.start.advance (written x)).offset first others)).toList = bare (first :: others) := by
  have hoffset : (l.start.advance (written x)).offset = byteLength (l.mark ++ written x) := by
    rw [Cursor.advance_offset, byteLength_append]
    rfl
  refine (@toList_slice_of_append _ (l.mark ++ (written x ++ first.gap)) _ (written y ++ l.tail)) ?_ ?_ ?_
  · rw [hs, Layout.chars, hls]
    simp
  · simp [runSpan, hoffset, Nat.add_assoc]
  · simp [runSpan, hoffset, Nat.add_assoc]

/-- The text of tokens that no access goes over is a fragment of their lexemes. -/
theorem exists_isFragment_ofTokens (hs : source.toList = l.chars) {t : Token} {ts before after : List Token}
    (hall : l.tokens = before ++ (t :: ts ++ after)) (hbefore : TokensApart before (t :: ts))
    (hafter : TokensApart (t :: ts) after) :
    ∃ x first others y, IsFragment l x first others y (Fragment.ofTokens source t ts) ∧ before = tokensAt l.start x ∧
      t :: ts = tokensAt (l.start.advance (written x)) (first :: others) ∧
      after = tokensAt ((l.start.advance (written x)).advance (written (first :: others))) y := by
  obtain ⟨x, z, hxz, rfl, hz⟩ := tokensAt_eq_append hall
  obtain ⟨run, y, rfl, hrun, rfl⟩ := tokensAt_eq_append hz.symm
  obtain ⟨first, others, rfl, rfl, rfl⟩ := tokensAt_eq_cons hrun.symm
  rw [hrun] at hbefore hafter
  have hspan : (Fragment.ofTokens source
      (Token.ofChars first.kind ((l.start.advance (written x)).advance first.gap) first.text)
      (tokensAt ((l.start.advance (written x)).advance (first.gap ++ first.text)) others)).span =
      some (runSpan (l.start.advance (written x)).offset first others) := by
    simp only [Fragment.ofTokens, stop_getLast_tokensAt]
    simp [runSpan, Cursor.advance_offset]
  refine ⟨x, first, others, y, ⟨hxz, apart_of_tokensApart hbefore, apart_of_tokensApart hafter, hspan, ?_⟩, rfl, hrun,
    rfl⟩
  have hraw : (Fragment.ofTokens source
      (Token.ofChars first.kind ((l.start.advance (written x)).advance first.gap) first.text)
      (tokensAt ((l.start.advance (written x)).advance (first.gap ++ first.text)) others)).raw =
      slice source (runSpan (l.start.advance (written x)).offset first others) := by
    rw [← Option.some.inj hspan]
    rfl
  rw [hraw]
  exact toList_slice_runSpan hs hxz

/-- A fragment that was cut out of a template has lexemes. -/
theorem exists_isFragment (hs : source.toList = l.chars) {form : List TokenKind → Prop} {f : Fragment}
    (h : IsCut source l.tokens form f) :
    ∃ x first others y, IsFragment l x first others y f ∧ form ((first :: others).map (·.kind)) := by
  obtain ⟨t, ts, rfl, ⟨before, after, hall, hbefore, hafter⟩, hform⟩ := h
  obtain ⟨x, first, others, y, hf, -, hrun, -⟩ := exists_isFragment_ofTokens hs hall hbefore hafter
  refine ⟨x, first, others, y, hf, ?_⟩
  rw [← kinds_tokensAt (l.start.advance (written x)) (first :: others), ← hrun]
  exact hform

/-- The lexemes of a fragment can be read before a line end. -/
theorem IsFragment.legible {x : List Lexeme} {first : Lexeme} {others y : List Lexeme} {f : Fragment}
    (h : IsFragment l x first others y f) : Legible (first :: others) ['\n'] := by
  have hl := l.legible
  rw [h.lexemes] at hl
  exact (legible_append.1 (legible_append.1 hl).2).1.before_stop rfl

/-- Edits that replace uses make the changes of these uses. -/
theorem makes_useChanges (hs : source.toList = l.chars) (symbols : List String) (replace : Replacements) :
    Makes source (EditedText.ofEdits source (editsFrom l.start.offset
      (useChanges symbols replace [] l.start l.lexemes))).edits l.start.offset
      (useChanges symbols replace [] l.start l.lexemes) := by
  refine ⟨EditedText.inOrder_ofEdits _ _, fun e he => ?_, fun e he => ?_, fun e he => EditedText.mem_ofEdits.2 he⟩
  · refine (@isSound_of_mem_editsFrom _ _ _ _ l.mark l.tail) ?_ rfl ?_ (EditedText.mem_ofEdits.1 he)
    · rw [olds_useChanges]
      exact hs
    · rw [olds_useChanges]
      exact l.legible.forall_ne_nil
  · exact (fits_of_mem_editsFrom (EditedText.mem_ofEdits.1 he)).1

/-- The text of a fragment with edits that replace uses is that of its lexemes with the changes there. -/
theorem IsFragment.exists_changes (hs : source.toList = l.chars) {symbols : List String} {replace : Replacements}
    {x : List Lexeme} {first : Lexeme} {others y : List Lexeme} {f : Fragment} (h : IsFragment l x first others y f) :
    ∃ left cs right, olds cs = first :: others ∧
      useChanges symbols replace [] l.start l.lexemes = left ++ (cs ++ right) ∧
      useChanges symbols replace (tokensAt l.start x).reverse (l.start.advance (written x)) (first :: others ++ y) =
        cs ++ right ∧
      ((EditedText.ofEdits source (editsFrom l.start.offset
        (useChanges symbols replace [] l.start l.lexemes))).fragment f).toList = bare (news cs) := by
  obtain ⟨hlexemes, hbefore, hafter, hspan, -⟩ := h
  have hmakes := makes_useChanges hs symbols replace
  have hbefore' : Apart x (first :: others ++ y) := fun a b ha hb => hbefore a b ha hb
  obtain ⟨csx, hcsx, holdsx⟩ := (@useChanges_append symbols replace) hbefore' [] l.start
  obtain ⟨cs, hcs, holds⟩ := (@useChanges_append symbols replace) hafter
    ((tokensAt l.start x).reverse ++ []) (l.start.advance (written x))
  rw [List.append_nil] at hcs hcsx
  rw [hcs, ← hlexemes] at hcsx
  refine ⟨csx, cs, _, holds, hcsx, hcs, ?_⟩
  generalize useChanges symbols replace [] l.start l.lexemes = all at hmakes hcsx ⊢
  have hsource : (EditedText.ofEdits source (editsFrom l.start.offset all)).source = source := rfl
  generalize EditedText.ofEdits source (editsFrom l.start.offset all) = edited at hmakes hsource ⊢
  subst hcsx
  obtain ⟨hcs', -⟩ := hmakes.append.2.append
  rw [holdsx, ← Cursor.advance_offset] at hcs'
  have hchars : source.toList = (l.mark ++ written x) ++ (written (olds cs) ++ (written y ++ l.tail)) := by
    rw [hs, Layout.chars, hlexemes, holds]
    simp
  have hoffset : byteLength (l.mark ++ written x) = (l.start.advance (written x)).offset := by
    rw [Cursor.advance_offset, byteLength_append]
    rfl
  cases cs with
  | nil => simp at holds
  | cons c cs =>
    have hfirst : ∃ ls, c.old = first :: ls := by
      cases c with
      | keep k => exact ⟨[], by rw [Change.old, (List.cons.inj holds).1]⟩
      | swap k ks new more => exact ⟨ks, by rw [Change.old, (List.cons.inj holds).1]⟩
    obtain ⟨ls, hfirst⟩ := hfirst
    have htext := hcs'.toList_textFrom_bare hfirst hchars hoffset
    rw [EditedText.fragment, hspan]
    simp only [EditedText.text, runSpan, hsource]
    rw [← holds]
    exact htext

end BicepMigration.Template
