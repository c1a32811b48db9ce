import BicepMigration.Proofs.Template.Rewritten
import BicepMigration.Proofs.Template.Sighting
import BicepMigration.Proofs.Template.StatementUse

/-!
# Uses in a rewritten template

The uses in a template are those in its statements, before and after it is rewritten. Each statement stands at the start
of a line, and a line ends after it, so what becomes of its uses depends on the statement alone. A template shows the
same names when it is rewritten if each statement does.
-/

namespace BicepMigration.Template

open Text

/-- A line ends before the tokens, or nothing comes before them. -/
def AfterLine (before : List Token) : Prop := ∀ u, before.head? = some u → u.kind = .newline

/-- A statement in a template that is rewritten: its number, the tokens before it in reverse order, its lexemes and
those after it, and the changes of its uses. -/
structure Place where
  index : Nat
  before : List Token
  here : Cursor
  first : Lexeme
  body : List Lexeme
  rest : List Lexeme
  statement : Statement
  run : List Change

namespace Place

/-- The tokens of the statement. -/
def tokens (p : Place) : List Token := tokensAt p.here (p.first :: p.body)

/-- The tokens after the statement. -/
def after (p : Place) : List Token := tokensAt (p.here.advance (written (p.first :: p.body))) p.rest

/-- The lexemes that the statement becomes. -/
def lexemes (pick : Picks) (p : Place) : List Lexeme := news (statementChanges (pick p.index) p.first p.body p.run)

end Place

/-- A statement stands in the place, and its changes are some of all changes. -/
structure Place.IsIn (p : Place) (source : String) (symbols : List String) (replace : Replacements) (all : List Token)
    (changes : List Change) : Prop where
  piece : IsPiece source p.here p.first p.body p.rest p.statement
  tokens : all = p.before.reverse ++ (p.tokens ++ p.after)
  balanced : Balanced (kinds (p.tokens ++ p.after))
  afterLine : AfterLine p.before
  olds : olds p.run = p.first :: p.body
  uses : ∃ more, useChanges symbols replace p.before p.here (p.first :: (p.body ++ p.rest)) = p.run ++ more
  among : p.run <:+: changes

variable {source : String} {symbols : List String} {replace : Replacements} {pick : Picks} {index : Nat}
  {before : List Token} {here : Cursor} {ls : List Lexeme} {ss : List Statement} {cs : List Change}

/-- After newlines a key may stand. -/
theorem sideAfter_newlines {strict : Bool} {blank : List Lexeme} (h : ∀ l ∈ blank, l.kind = .newline) {side : Side}
    (hs : blank = [] → side = .key) : sideAfter strict side blank = .key := by
  induction blank generalizing side with
  | nil => exact hs rfl
  | cons l blank ih =>
    rw [sideAfter_cons]
    refine ih (fun m hm => h m (List.mem_cons_of_mem _ hm)) fun _ => ?_
    simp [Lexeme.side, Side.after, h l (by simp), TokenKind.separates]

/-- After newlines a line ends. -/
theorem afterLine_newlines {blank : List Lexeme} (h : ∀ l ∈ blank, l.kind = .newline)
    (hb : blank = [] → AfterLine before) : AfterLine ((tokensAt here blank).reverse ++ before) := by
  induction blank generalizing before here with
  | nil => exact hb rfl
  | cons l blank ih =>
    rw [tokensAt, List.reverse_cons, List.append_assoc, List.singleton_append]
    refine ih (fun m hm => h m (List.mem_cons_of_mem _ hm)) fun _ u hu => ?_
    rw [← Option.some.inj hu]
    exact h l (by simp)

/-- What is true of no newline does not occur in newlines. -/
theorem not_occurs_newlines {P : List Token → Token → List Token → Prop} {blank : List Lexeme}
    (h : ∀ l ∈ blank, l.kind = .newline) (hP : ∀ t, t.kind = .newline → ∀ before after, ¬ P before t after)
    (after : List Token) : ¬ Occurs P before (tokensAt here blank) after :=
  not_occurs fun t ht => hP t (forall_kind_tokensAt.2 h t ht)

/-- At the end of a line something new starts. -/
theorem detached_of_atLineEnd {ls : List Lexeme} (h : AtLineEnd ls) : Detached (spelled ls) := by
  intro t ht
  rw [spelled, List.head?_map, Option.map_eq_some_iff] at ht
  obtain ⟨l, hl, rfl⟩ := ht
  simp [h l hl]

/-- Newlines use nothing. -/
theorem not_hasUse_newlines {strict : Bool} {names : List String} {side : Side} {colon : Bool} {blank : List Lexeme}
    (h : ∀ l ∈ blank, l.kind = .newline) : ¬ HasUse strict names side blank colon :=
  not_hasUse_of_kind fun l hl => by simp [h l hl]

section AfterNewlines

variable {blank body rest : List Lexeme} {first : Lexeme}

/-- The tokens of a statement after newlines, and those after it. -/
theorem tokensAt_afterNewlines (here : Cursor) (blank : List Lexeme) (first : Lexeme) (body rest : List Lexeme) :
    tokensAt here (blank ++ first :: (body ++ rest)) =
      tokensAt here blank ++ (tokensAt (here.advance (written blank)) (first :: body) ++
        tokensAt ((here.advance (written blank)).advance (written (first :: body))) rest) := by
  rw [tokensAt_append, ← List.cons_append, tokensAt_append]

/-- A statement after newlines has a place. -/
theorem IsPiece.isIn_place {all : List Token} {changes run more : List Change} {s : Statement}
    (h : IsPiece source (here.advance (written blank)) first body rest s) (hblank : ∀ l ∈ blank, l.kind = .newline)
    (hall : all = before.reverse ++ tokensAt here (blank ++ first :: (body ++ rest)))
    (hb : Balanced ((first :: (body ++ rest)).map (·.kind))) (hline : blank = [] → AfterLine before)
    (hrun : olds run = first :: body)
    (huse : useChanges symbols replace ((tokensAt here blank).reverse ++ before) (here.advance (written blank))
      (first :: (body ++ rest)) = run ++ more) (hamong : run <:+: changes) :
    Place.IsIn ⟨index, (tokensAt here blank).reverse ++ before, here.advance (written blank), first, body, rest, s, run⟩
      source symbols replace all changes where
  piece := h
  tokens := by
    rw [hall, tokensAt_afterNewlines]
    simp [Place.tokens, Place.after]
  balanced := by
    rw [Place.tokens, Place.after, ← tokensAt_append, kinds_tokensAt]
    exact hb
  afterLine := afterLine_newlines hblank hline
  olds := hrun
  uses := ⟨more, huse⟩
  among := hamong

/-- Uses after newlines and before the end of a line are uses in the statement there. -/
theorem hasUse_afterNewlines {strict : Bool} {names : List String} {side : Side} {others : List Lexeme}
    (hblank : ∀ l ∈ blank, l.kind = .newline) (hside : blank = [] → side = .key) (hends : AtLineEnd others) :
    HasUse strict names side (blank ++ (body ++ others)) false ↔
      HasUse strict names .key body false ∨ HasUse strict names (sideAfter strict .key body) others false := by
  have hcolon : colonAt others false = false := by
    cases others with
    | nil => rfl
    | cons l ls => simp [hends l rfl]
  rw [hasUse_append, or_iff_right (not_hasUse_newlines hblank), sideAfter_newlines hblank hside, hasUse_append, hcolon]

/-- A template shows the same names if the statement after its first newlines does and what comes after it. -/
theorem alike_afterNewlines {names : List String} {body' rest' : List Lexeme} (hblank : ∀ l ∈ blank, l.kind = .newline)
    (hbody : Alike names (spelled body) (spelled body')) (hrest : Alike names (spelled rest) (spelled rest'))
    (hends : AtLineEnd rest) (hends' : AtLineEnd rest') :
    Alike names (spelled (blank ++ (body ++ rest))) (spelled (blank ++ (body' ++ rest'))) := by
  have hnl : ∀ t ∈ spelled blank, t.kind ≠ .identifier := by simpa using fun l hl => by simp [hblank l hl]
  rw [spelled, List.map_append, List.map_append, spelled, List.map_append, List.map_append]
  exact alike_of_kind hnl hnl (fun _ => rfl)
    (hbody.append hrest (detached_of_atLineEnd hends) (detached_of_atLineEnd hends'))

/-- What occurs after newlines occurs in the statement there or after it. -/
theorem occurs_afterNewlines {P : List Token → Token → List Token → Prop} (hblank : ∀ l ∈ blank, l.kind = .newline)
    (hP : ∀ t, t.kind = .newline → ∀ before after, ¬ P before t after) :
    Occurs P before (tokensAt here (blank ++ first :: (body ++ rest))) [] ↔
      Occurs P ((tokensAt here blank).reverse ++ before) (tokensAt (here.advance (written blank)) (first :: body))
        (tokensAt ((here.advance (written blank)).advance (written (first :: body))) rest) ∨
      Occurs P ((tokensAt (here.advance (written blank)) (first :: body)).reverse ++
          ((tokensAt here blank).reverse ++ before))
        (tokensAt ((here.advance (written blank)).advance (written (first :: body))) rest) [] := by
  rw [tokensAt_afterNewlines, occurs_append, or_iff_right (not_occurs_newlines hblank hP _), occurs_append,
    List.append_nil]

end AfterNewlines

/-- The statements of a template that is rewritten have places, and the uses before and after are those in them. -/
theorem Rewrites.exists_places {all : List Token} {changes : List Change}
    (h : Rewrites source symbols replace pick index before here ls ss cs) (hall : all = before.reverse ++ tokensAt here ls)
    (hb : Balanced (ls.map (·.kind))) (hline : AfterLine before ∨ AtLineEnd ls)
    (hchanges : useChanges symbols replace before here ls <:+: changes) :
    ∃ places : List Place,
      (∀ p ∈ places, p.IsIn source symbols replace all changes ∧ index ≤ p.index ∧
        ss[p.index - index]? = some p.statement ∧ ((pick p.index).isSome → p.statement.body.isSome)) ∧
      (∀ strict names side, side = .key ∨ AtLineEnd ls → (HasUse strict names side (news cs) false ↔
        ∃ p ∈ places, HasUse strict names .key (p.lexemes pick) false)) ∧
      (∀ names, (∀ p ∈ places, Alike names (spelled (p.first :: p.body)) (spelled (p.lexemes pick))) →
        Alike names (spelled ls) (spelled (news cs))) ∧
      ∀ P : List Token → Token → List Token → Prop, (∀ t, t.kind = .newline → ∀ before after, ¬ P before t after) →
        (Occurs P before (tokensAt here ls) [] ↔ ∃ p ∈ places, Occurs P p.before p.tokens p.after) := by
  induction h with
  | @done index before here ls hls =>
    refine ⟨[], by simp, fun strict names side _ => ?_, fun names _ => ?_, fun P hP => ?_⟩
    · rw [news_kept]
      simpa using not_hasUse_newlines hls
    · rw [news_kept]
      exact .refl names _
    · simpa using not_occurs_newlines hls hP []
  | @piece index before here blank first body rest s others run more hblank hpiece hbody hrun huse hrest ih =>
    have hstart : blank = [] → ¬ AtLineEnd (blank ++ first :: (body ++ rest)) := by
      rintro rfl he
      exact hpiece.first_ne (he first rfl)
    have hbhere : Balanced ((first :: (body ++ rest)).map (·.kind)) := by
      rw [List.map_append] at hb
      exact hb.of_append (balanced_newlineLexemes hblank)
    have hbrest : Balanced (rest.map (·.kind)) := by
      rw [← List.cons_append, List.map_append] at hbhere
      exact hbhere.of_append hpiece.balanced
    rw [useChanges_newlines hblank, huse] at hchanges
    have hin : Place.IsIn ⟨index, _, _, first, body, rest, s, run⟩ source symbols replace all changes :=
      hpiece.isIn_place hblank hall hbhere (fun hnil => hline.resolve_right (hstart hnil)) hrun huse
        (List.IsInfix.trans ⟨kept blank, _, List.append_assoc _ _ _⟩ hchanges)
    obtain ⟨places, hplaces, hnews, halike, holds⟩ := ih (by rw [hin.tokens]; simp [Place.tokens, Place.after]) hbrest
      (.inr hpiece.ends) (List.IsInfix.trans ⟨kept blank ++ run, [], by simp⟩ hchanges)
    refine ⟨_ :: places, List.forall_mem_cons.2 ⟨⟨hin, Nat.le_refl _, by simp, hbody⟩, fun q hq => ?_⟩,
      fun strict names side hside => ?_, fun names hall => ?_, fun P hP => ?_⟩
    · obtain ⟨hin, hle, hs, hbody⟩ := hplaces q hq
      refine ⟨hin, by omega, ?_, hbody⟩
      rw [show q.index - index = q.index - (index + 1) + 1 by omega]
      exact hs
    · rw [news_append, news_append, news_kept,
        hasUse_afterNewlines hblank (fun hnil => hside.resolve_right (hstart hnil)) (hrest.atLineEnd_news hpiece.ends),
        hnews strict names _ (.inr hpiece.ends)]
      simp only [List.mem_cons, exists_eq_or_imp]
      rfl
    · obtain ⟨hthis, hothers⟩ := List.forall_mem_cons.1 hall
      rw [news_append, news_append, news_kept, ← List.cons_append]
      exact alike_afterNewlines hblank hthis (halike names hothers) hpiece.ends (hrest.atLineEnd_news hpiece.ends)
    · rw [occurs_afterNewlines hblank hP, holds P hP]
      simp only [List.mem_cons, exists_eq_or_imp]
      rfl

section InPlace

variable {strict : Bool} {l : Layout} {p : Place}

/-- The statement is read from its tokens. -/
theorem Place.IsIn.exists_tokens {all : List Token} {changes : List Change}
    (hp : p.IsIn source symbols replace all changes) : ∃ first others, p.tokens = first :: others ∧
      readStatement source first (others ++ p.after) = (p.statement, p.after) := by
  have hplace : (p.here.advance (p.first.gap ++ p.first.text)).advance (written p.body) =
      p.here.advance (written (p.first :: p.body)) := by
    rw [written_cons, ← List.append_assoc, Cursor.advance_append _ (p.first.gap ++ p.first.text)]
  have hreads := hp.piece.reads
  rw [tokensAt_append, hplace] at hreads
  exact ⟨_, _, rfl, hreads⟩

/-- The uses among the changed lexemes of a statement are those that stay in it. -/
theorem Place.IsIn.hasUse_news_iff
    (hp : p.IsIn source symbols replace l.tokens (useChanges symbols replace [] l.start l.lexemes))
    (h : Replacing strict source l symbols replace) : HasUse strict symbols .key (news p.run) false ↔
      Occurs (KeptUse strict symbols replace) p.before p.tokens p.after := by
  obtain ⟨more, huse⟩ := hp.uses
  rw [← List.cons_append, ← hp.olds] at huse
  have hside : sideBefore strict p.before = .key := by
    cases hb : p.before with
    | nil => rfl
    | cons u before => simp [sideBefore, Side.after, hp.afterLine u (by rw [hb]; rfl), TokenKind.separates]
  have hcolon : colonAt p.rest false = false := by
    cases hr : p.rest with
    | nil => rfl
    | cons l rest => simp [hp.piece.ends l (by rw [hr]; rfl)]
  have hnews := Template.hasUse_news_iff h.frees huse (h.spares.mono hp.among) (hside ▸ agrees_self _ _)
  rwa [hcolon, hp.olds] at hnews

/-- The uses in the parts of a statement with a body are those that stay in it. -/
theorem Place.IsIn.statementUses_iff
    (hp : p.IsIn source symbols replace l.tokens (useChanges symbols replace [] l.start l.lexemes))
    (h : Replacing strict source l symbols replace) {body : ObjectLiteral} (hbody : p.statement.body = some body) :
    StatementUses strict symbols (replacedText source l symbols replace) p.statement ↔
      Occurs (KeptUse strict symbols replace) p.before p.tokens p.after := by
  obtain ⟨first, others, htokens, hreads⟩ := hp.exists_tokens
  have hall := hp.tokens
  have hbalanced := hp.balanced
  rw [htokens, List.cons_append] at hall hbalanced
  rw [htokens]
  exact h.statementUses_iff hreads hall hbalanced hbody

/-- A statement keeps its uses, or it is a block that uses symbols in its place. -/
theorem Place.IsIn.hasUse_cases
    (hp : p.IsIn source symbols replace l.tokens (useChanges symbols replace [] l.start l.lexemes))
    (h : Replacing strict source l symbols replace) (hbody : (pick p.index).isSome → p.statement.body.isSome) :
    (HasUse strict symbols .key (p.lexemes pick) false ↔
        Occurs (KeptUse strict symbols replace) p.before p.tokens p.after) ∨
      ∃ new more, pick p.index = some (new, more) ∧
        (HasUse strict symbols .key (p.lexemes pick) false ↔ HasUse strict symbols .key (new :: more) false) ∧
        (StatementUses strict symbols (replacedText source l symbols replace) p.statement ↔
          Occurs (KeptUse strict symbols replace) p.before p.tokens p.after) := by
  cases hpk : pick p.index with
  | none =>
    rw [Place.lexemes, hpk]
    exact .inl (hp.hasUse_news_iff h)
  | some block =>
    obtain ⟨new, more⟩ := block
    obtain ⟨body, hbody⟩ := Option.isSome_iff_exists.1 (hbody (by rw [hpk]; rfl))
    refine .inr ⟨new, more, rfl, ?_, hp.statementUses_iff h hbody⟩
    rw [Place.lexemes, hpk, show news (statementChanges (some (new, more)) p.first p.body p.run) =
      regap p.first.gap (new :: more) from List.append_nil _, hasUse_regap]

end InPlace

section Whole

variable {strict : Bool} {l : Layout}

/-- The places of the statements of a whole template. -/
theorem Rewrites.exists_allPlaces (hr : Rewrites source symbols replace pick 0 [] l.start l.lexemes ss cs) :
    ∃ places : List Place,
      (∀ p ∈ places, p.IsIn source symbols replace l.tokens (useChanges symbols replace [] l.start l.lexemes) ∧
        ss[p.index]? = some p.statement ∧ ((pick p.index).isSome → p.statement.body.isSome)) ∧
      (HasUse strict symbols .key (news cs) false ↔ ∃ p ∈ places, HasUse strict symbols .key (p.lexemes pick) false) ∧
      (Occurs (KeptUse strict symbols replace) [] l.tokens [] ↔
        ∃ p ∈ places, Occurs (KeptUse strict symbols replace) p.before p.tokens p.after) := by
  obtain ⟨places, hplaces, hnews, -, holds⟩ := hr.exists_places (show l.tokens = [].reverse ++ _ from rfl) l.balanced
    (.inl fun u hu => by cases hu) (List.infix_refl _)
  refine ⟨places, fun p hp => ?_, hnews strict symbols .key (.inl rfl), holds _ fun t ht _ _ =>
    not_keptUse_of_kind (by simp [ht])⟩
  obtain ⟨hin, -, hs, hbody⟩ := hplaces p hp
  exact ⟨hin, hs, hbody⟩

/-- Where blocks use no symbol that their statements do not use, the uses in the rewritten template are uses that
stay. -/
theorem Replacing.occurs_of_hasUse (h : Replacing strict source l symbols replace)
    (hr : Rewrites source symbols replace pick 0 [] l.start l.lexemes ss cs)
    (hpick : ∀ i s new more, ss[i]? = some s → pick i = some (new, more) →
      HasUse strict symbols .key (new :: more) false →
        StatementUses strict symbols (replacedText source l symbols replace) s)
    (hu : HasUse strict symbols .key (news cs) false) : Occurs (KeptUse strict symbols replace) [] l.tokens [] := by
  obtain ⟨places, hplaces, hnews, holds⟩ := hr.exists_allPlaces
  obtain ⟨p, hp, hu⟩ := hnews.1 hu
  obtain ⟨hin, hs, hbody⟩ := hplaces p hp
  refine holds.2 ⟨p, hp, ?_⟩
  rcases hin.hasUse_cases h hbody with hiff | ⟨new, more, hpk, hiff, hstatement⟩
  · exact hiff.1 hu
  · exact hstatement.1 (hpick p.index p.statement new more hs hpk (hiff.1 hu))

/-- Where blocks use the symbols that their statements use, the uses that stay are uses in the rewritten template. -/
theorem Replacing.hasUse_of_occurs (h : Replacing strict source l symbols replace)
    (hr : Rewrites source symbols replace pick 0 [] l.start l.lexemes ss cs)
    (hpick : ∀ i s new more, ss[i]? = some s → pick i = some (new, more) →
      StatementUses strict symbols (replacedText source l symbols replace) s →
        HasUse strict symbols .key (new :: more) false)
    (ho : Occurs (KeptUse strict symbols replace) [] l.tokens []) : HasUse strict symbols .key (news cs) false := by
  obtain ⟨places, hplaces, hnews, holds⟩ := hr.exists_allPlaces
  obtain ⟨p, hp, ho⟩ := holds.1 ho
  obtain ⟨hin, hs, hbody⟩ := hplaces p hp
  refine hnews.2 ⟨p, hp, ?_⟩
  rcases hin.hasUse_cases h hbody with hiff | ⟨new, more, hpk, hiff, hstatement⟩
  · exact hiff.2 ho
  · exact hiff.2 (hpick p.index p.statement new more hs hpk (hstatement.2 ho))

end Whole

end BicepMigration.Template
