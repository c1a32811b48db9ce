import BicepMigration.Proofs.Template.UsePosition

/-!
# Uses that stay

Where uses of symbols are replaced, the others stay. A use that stays is one among the new lexemes too, and there are no
others: what is written in place of a use is none of the symbols, and a name after it stands where it stood, unless it
follows directly. So symbols that follow a replaced use directly have to be left out.
-/

namespace BicepMigration.Template

open Text

variable {strict : Bool} {symbols : List String} {replace : Replacements}

/-- A token uses one of the symbols, and nothing is written in its place. -/
structure KeptUse (strict : Bool) (symbols : List String) (replace : Replacements) (before : List Token) (t : Token)
    (after : List Token) : Prop where
  kind : t.kind = .identifier
  symbol : t.text ∈ symbols
  admits : (sideBefore strict before).admits (startsColon after) = true
  stays : (useAt? symbols before t after).bind replace = none

/-- What is written in place of uses is a name with members, and none of the symbols. -/
def Frees (symbols : List String) (replace : Replacements) : Prop :=
  ∀ use new more, replace use = some (new, more) →
    new.kind = .identifier ∧ String.ofList new.text ∉ symbols ∧ IsMembers more

/-- None of the symbols stays directly after a use that is replaced. -/
def SparesNext (symbols : List String) (cs : List Change) : Prop :=
  ∀ first others new more l, [.swap first others new more, .keep l] <:+: cs → l.kind = .identifier →
    String.ofList l.text ∉ symbols

/-- What spares the next use among all changes does so among some of them. -/
theorem SparesNext.mono {cs all : List Change} (h : SparesNext symbols all) (hs : cs <:+: all) :
    SparesNext symbols cs := fun _ _ _ _ _ hl => h _ _ _ _ _ (hl.trans hs)

/-- If the first token is one of the symbols and stays, it is a use after something with the side where it is one among
the tokens. -/
def Agrees (strict : Bool) (symbols : List String) (replace : Replacements) (side : Side) (before : List Token) :
    List Token → Prop
  | [] => True
  | t :: after => t.kind = .identifier → t.text ∈ symbols → (useAt? symbols before t after).bind replace = none →
    side.admits (startsColon after) = (sideBefore strict before).admits (startsColon after)

/-- Tokens that stay agree with themselves. -/
theorem agrees_self (before toks : List Token) :
    Agrees strict symbols replace (sideBefore strict before) before toks := by
  cases toks with
  | nil => trivial
  | cons t after => exact fun _ _ _ => rfl

/-- A use that is replaced is kept by no token. -/
theorem not_keptUse_of_some {before after : List Token} {t : Token} {r : Lexeme × List Lexeme}
    (h : (useAt? symbols before t after).bind replace = some r) : ¬ KeptUse strict symbols replace before t after :=
  fun hk => by rw [hk.stays] at h; cases h

/-- Only names are kept uses. -/
theorem not_keptUse_of_kind {before after : List Token} {t : Token} (h : t.kind ≠ .identifier) :
    ¬ KeptUse strict symbols replace before t after := fun hk => h hk.kind

/-- Tokens without names hold no kept use. -/
theorem not_occurs_of_kind {toks : List Token} (h : ∀ t ∈ toks, t.kind ≠ .identifier) (before after : List Token) :
    ¬ Occurs (KeptUse strict symbols replace) before toks after :=
  not_occurs fun t ht _ _ => not_keptUse_of_kind (h t ht)

/-- Members are no uses. -/
theorem not_occurs_members {members : List Lexeme} (h : IsMembers members) (before : List Token) (here : Cursor)
    (after : List Token) : ¬ Occurs (KeptUse strict symbols replace) before (tokensAt here members) after := by
  induction h generalizing before here with
  | nil => exact id
  | @cons point name others hp hn _ ih =>
    rw [tokensAt, occurs_cons, not_or, tokensAt, occurs_cons, not_or]
    refine ⟨not_keptUse_of_kind (by simp [Token.ofChars, hp]), fun hk => ?_, ih _ _⟩
    have hadmits := hk.admits
    simp [sideBefore, Side.after, Token.ofChars, hp, Side.admits] at hadmits

section Changes

variable {before : List Token} {here : Cursor} {ls : List Lexeme} {cs : List Change}

/-- What is kept first stays. -/
theorem useChanges_eq_keep {l : Lexeme} (h : useChanges symbols replace before here ls = .keep l :: cs) :
    ∃ rest, ls = l :: rest ∧ (useAt? symbols before (Token.ofChars l.kind (here.advance l.gap) l.text)
        (tokensAt (here.advance (l.gap ++ l.text)) rest)).bind replace = none ∧
      useChanges symbols replace (Token.ofChars l.kind (here.advance l.gap) l.text :: before)
        (here.advance (l.gap ++ l.text)) rest = cs := by
  cases ls with
  | nil =>
    rw [useChanges] at h
    cases h
  | cons m rest =>
    cases hr : (useAt? symbols before (Token.ofChars m.kind (here.advance m.gap) m.text)
        (tokensAt (here.advance (m.gap ++ m.text)) rest)).bind replace with
    | none =>
      rw [useChanges_keep hr] at h
      obtain ⟨hm, rfl⟩ := List.cons.inj h
      obtain rfl := Change.keep.inj hm
      exact ⟨rest, rfl, hr, rfl⟩
    | some r =>
      rw [useChanges_swap hr] at h
      cases (List.cons.inj h).1

/-- What is exchanged first is a use with its members. -/
theorem useChanges_eq_swap {first new : Lexeme} {others more : List Lexeme}
    (h : useChanges symbols replace before here ls = .swap first others new more :: cs) :
    ∃ rest, ls = first :: (others ++ rest) ∧ IsMembers others ∧
      (useAt? symbols before (Token.ofChars first.kind (here.advance first.gap) first.text)
        (tokensAt (here.advance (first.gap ++ first.text)) (others ++ rest))).bind replace = some (new, more) ∧
      useChanges symbols replace ((tokensAt (here.advance (first.gap ++ first.text)) others).reverse ++
          Token.ofChars first.kind (here.advance first.gap) first.text :: before)
        ((here.advance (first.gap ++ first.text)).advance (written others)) rest = cs := by
  cases ls with
  | nil =>
    rw [useChanges] at h
    cases h
  | cons m rest =>
    cases hr : (useAt? symbols before (Token.ofChars m.kind (here.advance m.gap) m.text)
        (tokensAt (here.advance (m.gap ++ m.text)) rest)).bind replace with
    | none =>
      rw [useChanges_keep hr] at h
      cases (List.cons.inj h).1
    | some r =>
      rw [useChanges_swap hr] at h
      obtain ⟨hm, rfl⟩ := List.cons.inj h
      obtain ⟨rfl, rfl, rfl, rfl⟩ := Change.swap.inj hm
      refine ⟨(splitMembers rest).2, ?_, isMembers_splitMembers rest, ?_, rfl⟩
      · rw [splitMembers_append]
      · rw [splitMembers_append]
        exact hr

/-- A colon stands first after the changes where it did before. -/
theorem colonAt_news (hf : Frees symbols replace) {more : List Change}
    (h : useChanges symbols replace before here ls = cs ++ more) (colon : Bool) :
    colonAt (news cs) colon = colonAt (olds cs) colon := by
  cases cs with
  | nil => rfl
  | cons c cs =>
    cases c with
    | keep l => rfl
    | swap first others new more' =>
      obtain ⟨rest, -, -, hr, -⟩ := useChanges_eq_swap h
      obtain ⟨use, hu, hnew⟩ := Option.bind_eq_some_iff.1 hr
      have hfirst : first.kind = .identifier := by
        have hne : ¬ useAt? symbols before (Token.ofChars first.kind (here.advance first.gap) first.text)
            (tokensAt (here.advance (first.gap ++ first.text)) (others ++ rest)) = none := by
          rw [hu]
          exact Option.some_ne_none use
        rw [useAt?_eq_none_iff, Classical.not_not] at hne
        exact hne.1
      simp [Change.new, Change.old, hfirst, (hf _ _ _ hnew).1]

/-- A lexeme that is kept is a use of a symbol where its use stays. -/
theorem uses_keep_iff (hf : Frees symbols replace) {l : Lexeme} {y : List Lexeme} {more : List Change}
    (hr : (useAt? symbols before (Token.ofChars l.kind (here.advance l.gap) l.text)
      (tokensAt (here.advance (l.gap ++ l.text)) (olds cs ++ y))).bind replace = none)
    (hrest : useChanges symbols replace (Token.ofChars l.kind (here.advance l.gap) l.text :: before)
      (here.advance (l.gap ++ l.text)) (olds cs ++ y) = cs ++ more) {side : Side}
    (hside : Agrees strict symbols replace side before (tokensAt here (l :: (olds cs ++ y)))) :
    l.uses symbols side (colonAt (news cs) (colonAt y false)) ↔
      KeptUse strict symbols replace before (Token.ofChars l.kind (here.advance l.gap) l.text)
        (tokensAt (here.advance (l.gap ++ l.text)) (olds cs ++ y)) := by
  have hagrees : l.kind = .identifier → String.ofList l.text ∈ symbols →
      side.admits (startsColon (tokensAt (here.advance (l.gap ++ l.text)) (olds cs ++ y))) =
        (sideBefore strict before).admits (startsColon (tokensAt (here.advance (l.gap ++ l.text)) (olds cs ++ y))) :=
    fun hk hmem => hside hk hmem hr
  rw [colonAt_news hf hrest, ← colonAt_append, ← startsColon_tokensAt (here.advance (l.gap ++ l.text))]
  exact ⟨fun ⟨hk, hmem, ha⟩ => ⟨hk, hmem, (hagrees hk hmem).symm.trans ha, hr⟩,
    fun ⟨hk, hmem, ha, _⟩ => ⟨hk, hmem, (hagrees hk hmem).trans ha⟩⟩

/-- Nothing is used in what is written instead of a use. -/
theorem hasUse_swap_iff {first new : Lexeme} {others more : List Lexeme}
    (hnew : String.ofList new.text ∉ symbols) (hmore : IsMembers more) (side : Side) (colon : Bool) :
    HasUse strict symbols side (news (.swap first others new more :: cs)) colon ↔
      HasUse strict symbols (sideAfter strict (Lexeme.side strict { new with gap := first.gap }) more) (news cs) colon := by
  rw [news_cons, Change.new, List.cons_append, hasUse_cons, or_iff_right fun hu => hnew hu.2.1, hasUse_members hmore]

/-- Nothing stays of a use that is exchanged. -/
theorem occurs_swap_iff {first new : Lexeme} {others more y : List Lexeme} (hmembers : IsMembers others)
    (hr : (useAt? symbols before (Token.ofChars first.kind (here.advance first.gap) first.text)
      (tokensAt (here.advance (first.gap ++ first.text)) (others ++ (olds cs ++ y)))).bind replace = some (new, more)) :
    Occurs (KeptUse strict symbols replace) before (tokensAt here (first :: (others ++ olds cs)))
        (tokensAt (here.advance (written (first :: (others ++ olds cs)))) y) ↔
      Occurs (KeptUse strict symbols replace)
        ((tokensAt (here.advance (first.gap ++ first.text)) others).reverse ++
          Token.ofChars first.kind (here.advance first.gap) first.text :: before)
        (tokensAt ((here.advance (first.gap ++ first.text)).advance (written others)) (olds cs))
        (tokensAt (((here.advance (first.gap ++ first.text)).advance (written others)).advance (written (olds cs))) y) := by
  have hplace : here.advance (written (first :: (others ++ olds cs))) =
      ((here.advance (first.gap ++ first.text)).advance (written others)).advance (written (olds cs)) := by
    simp [Cursor.advance_append]
  have hfirst := (@not_keptUse_of_some strict) hr
  have hnone := (@not_occurs_members strict symbols replace) hmembers
  rw [hplace, tokensAt, tokensAt_append, occurs_cons, occurs_append,
    or_iff_right (by simpa [tokensAt_append, Cursor.advance_append] using hfirst), or_iff_right (hnone _ _ _)]

/-- After a use that is exchanged every use stays where it would count: if what comes next is kept it is no symbol. -/
theorem agrees_after_swap {c : Change} {first new : Lexeme} {others more y : List Lexeme} {rest : List Change}
    (hs : SparesNext symbols (.swap first others new more :: c :: cs))
    (hrest : useChanges symbols replace before here (olds (c :: cs) ++ y) = c :: cs ++ rest) (side : Side) :
    Agrees strict symbols replace side before (tokensAt here (olds (c :: cs) ++ y)) := by
  cases c with
  | keep l =>
    intro hkind hmem _
    exact absurd hmem (hs first others new more l ⟨[], cs, rfl⟩ hkind)
  | swap first' others' new' more' =>
    obtain ⟨rest, hrest', -, hsome, -⟩ := useChanges_eq_swap hrest
    rw [hrest']
    intro _ _ hnone
    cases hnone.symm.trans hsome

/-- The symbols that are used among the new lexemes are those whose uses stay. -/
theorem hasUse_news_iff (hf : Frees symbols replace) {y : List Lexeme} {more : List Change}
    (h : useChanges symbols replace before here (olds cs ++ y) = cs ++ more) (hs : SparesNext symbols cs) {side : Side}
    (hside : Agrees strict symbols replace side before (tokensAt here (olds cs ++ y))) :
    HasUse strict symbols side (news cs) (colonAt y false) ↔
      Occurs (KeptUse strict symbols replace) before (tokensAt here (olds cs))
        (tokensAt (here.advance (written (olds cs))) y) := by
  induction cs generalizing before here side with
  | nil => simp
  | cons c cs ih =>
    have hs' := hs.mono (List.suffix_cons c cs).isInfix
    cases c with
    | keep l =>
      obtain ⟨rest, hls, hr, hrest⟩ := useChanges_eq_keep h
      obtain ⟨-, rfl⟩ := List.cons.inj (show l :: (olds cs ++ y) = l :: rest from hls)
      have hplace : here.advance (written (l :: olds cs)) =
          (here.advance (l.gap ++ l.text)).advance (written (olds cs)) := by simp [Cursor.advance_append]
      have hfirst := uses_keep_iff hf hr hrest hside
      have hcons : olds (.keep l :: cs) = l :: olds cs := rfl
      rw [tokensAt_append] at hfirst
      rw [hcons, hplace, tokensAt, occurs_cons, ← ih hrest hs' (agrees_self _ _), ← hfirst]
      rfl
    | swap first others new more' =>
      obtain ⟨rest, hls, hmembers, hr, hrest⟩ := useChanges_eq_swap h
      obtain ⟨use, -, hnew⟩ := Option.bind_eq_some_iff.1 hr
      obtain ⟨-, hfree, hmore⟩ := hf _ _ _ hnew
      obtain ⟨-, hls⟩ := List.cons.inj (show first :: (others ++ olds cs ++ y) = first :: (others ++ rest) from hls)
      obtain rfl : olds cs ++ y = rest := List.append_cancel_left (by rw [← hls, List.append_assoc])
      have hcons : olds (.swap first others new more' :: cs) = first :: (others ++ olds cs) := rfl
      rw [hasUse_swap_iff hfree hmore, hcons, occurs_swap_iff hmembers hr]
      cases cs with
      | nil => rfl
      | cons c cs => exact ih hrest hs' (agrees_after_swap hs hrest _)

end Changes

end BicepMigration.Template
