import BicepMigration.Proofs.Template.Renaming
import BicepMigration.Proofs.Template.Rewriting

/-!
# Rewritten templates can be read

Where references are renamed and statements are written anew as blocks, the new lexemes are legible and balanced
again: they make a layout with the same mark and the same end. What is read from the new layout is left open here.
-/

namespace BicepMigration.Template

open Text

/-- Lexemes that can be written in place of a statement, whatever comes after its line. -/
structure IsBlock (new : Lexeme) (more : List Lexeme) : Prop where
  starts : new.kind = .identifier ∨ new.kind = .atSign
  balanced : Balanced ((new :: more).map (·.kind))
  legible : ∀ rest, Legible (new :: more) rest

/-- Newlines can be read before anything. -/
theorem legible_newlines {blank : List Lexeme} {rest : List Char} (hb : ∀ l ∈ blank, l.kind = .newline)
    (h : Legible blank rest) (rest' : List Char) : Legible blank rest' := by
  induction blank with
  | nil => trivial
  | cons l blank ih =>
    obtain ⟨hg, hs, -, hl⟩ := h
    have hk := hb l (by simp)
    have htext : l.text = ['\n'] := by
      have hspelled := hs.1
      rwa [hk] at hspelled
    refine ⟨hg.of_head_eq ?_, hs, ?_, ih (fun m hm => hb m (List.mem_cons_of_mem _ hm)) hl⟩
    · rw [htext]
      rfl
    · rw [hk]
      trivial

/-- Only a newline starts with one. -/
theorem kind_of_newline {kind : TokenKind} {text : List Char} (h : IsSpelled kind ('\n' :: text)) :
    kind = .newline := by
  cases kind with
  | newline => rfl
  | identifier | number =>
    obtain ⟨c, cs, he, hc, -⟩ := h
    obtain ⟨rfl, -⟩ := List.cons.inj he
    exact absurd hc (by decide)
  | stringText =>
    obtain ⟨-, h⟩ := h
    cases text <;> simp [splitString] at h
  | multilineString =>
    obtain ⟨body, he, -⟩ := h
    cases (List.cons.inj he).1
  | colon | comma | dot | question | atSign | assign | operator =>
    obtain ⟨c, hc, ⟨he, -⟩ | ⟨d, he, -⟩⟩ := h
    all_goals exact absurd (List.cons.inj he).1.symm hc.1
  | _ => exact absurd (List.cons.inj h).1 (by decide)

/-- The first character of a name or a decorator. -/
theorem head_of_spelled {kind : TokenKind} {text : List Char} (hs : IsSpelled kind text)
    (hk : kind = .identifier ∨ kind = .atSign) : ∃ c cs, text = c :: cs ∧ c ≠ '\n' ∧ c ≠ byteOrderMark := by
  rcases hk with rfl | rfl
  · obtain ⟨c, cs, rfl, hc, -⟩ := hs
    refine ⟨c, cs, rfl, ?_, ?_⟩
    all_goals
      rintro rfl
      revert hc
      decide
  · obtain ⟨c, -, ⟨rfl, hm⟩ | ⟨d, rfl, hm⟩⟩ := hs
    · refine ⟨c, [], rfl, ?_, ?_⟩
      all_goals
        rintro rfl
        revert hm
        decide
    · obtain ⟨kind, -, -, h | ⟨h, -⟩⟩ := markAt_cases c (some d)
      all_goals
        rw [h] at hm
        cases hm

variable {source : String} {symbols : List String} {replace : Replacements} {pick : Picks} {index : Nat}
  {before : List Token} {here : Cursor} {ls : List Lexeme} {ss : List Statement} {cs : List Change}

/-- Where a line ends it ends after the changes too. -/
theorem Rewrites.head_cases (h : Rewrites source symbols replace pick index before here ls ss cs)
    (he : AtLineEnd ls) :
    (ls = [] ∧ news cs = []) ∨ ∃ l ls' ns, ls = l :: ls' ∧ news cs = l :: ns ∧ l.kind = .newline := by
  cases h with
  | done _ =>
    cases ls with
    | nil => exact .inl ⟨rfl, rfl⟩
    | cons l ls => exact .inr ⟨l, ls, ls, rfl, news_kept _, he l rfl⟩
  | @piece _ _ _ blank first body rest s others run more hblank hpiece _ _ _ _ =>
    cases blank with
    | nil => exact absurd (he first rfl) hpiece.first_ne
    | cons l blank => exact .inr ⟨l, _, _, rfl, by rw [news_append, news_kept]; rfl, hblank l (by simp)⟩

/-- Lexemes at the end of a line are so when they are rewritten. -/
theorem Rewrites.atLineEnd_news (h : Rewrites source symbols replace pick index before here ls ss cs)
    (he : AtLineEnd ls) : AtLineEnd (news cs) := by
  rcases h.head_cases he with ⟨-, hn⟩ | ⟨l, _, ns, -, hn, hk⟩
  · simp [AtLineEnd, hn]
  · simp [AtLineEnd, hn, hk]

/-- What follows a line may be rewritten. -/
theorem Rewrites.follows (h : Rewrites source symbols replace pick index before here ls ss cs)
    (he : AtLineEnd ls) {tail : List Char} (hl : Legible ls tail) :
    Follows (written ls ++ tail) (written (news cs) ++ tail) := by
  rcases h.head_cases he with ⟨rfl, hn⟩ | ⟨l, ls', ns, rfl, hn, hk⟩
  · rw [hn]
    exact fun _ _ _ _ he => he
  · obtain ⟨-, ⟨hs, -⟩, -⟩ := hl
    have htext : l.text = ['\n'] := by rwa [hk] at hs
    rw [hn, written_cons, written_cons, htext]
    simp only [List.append_assoc, List.singleton_append]
    exact Follows.prepend (follows_of_isStop (c := '\n') rfl) _

/-- The changes of the first statement and of the others are among all changes. -/
theorem mem_useChanges {P : Change → Prop} {blank body rest : List Lexeme} {first : Lexeme} {run : List Change}
    (hblank : ∀ l ∈ blank, l.kind = .newline)
    (huse : useChanges symbols replace ((tokensAt here blank).reverse ++ before) (here.advance (written blank))
        (first :: (body ++ rest)) =
      run ++ useChanges symbols replace
        ((tokensAt (here.advance (written blank)) (first :: body)).reverse ++
          ((tokensAt here blank).reverse ++ before))
        ((here.advance (written blank)).advance (written (first :: body))) rest)
    (hr : ∀ c ∈ useChanges symbols replace before here (blank ++ first :: (body ++ rest)), P c) :
    (∀ c ∈ run, P c) ∧
      ∀ c ∈ useChanges symbols replace
        ((tokensAt (here.advance (written blank)) (first :: body)).reverse ++
          ((tokensAt here blank).reverse ++ before))
        ((here.advance (written blank)).advance (written (first :: body))) rest, P c := by
  rw [useChanges_newlines hblank, huse] at hr
  exact ⟨fun c hc => hr c (List.mem_append_right _ (List.mem_append_left _ hc)),
    fun c hc => hr c (List.mem_append_right _ (List.mem_append_right _ hc))⟩

/-- A statement that is written anew, or in which references are renamed, can be read. -/
theorem legible_statementChanges {i : Nat} {first : Lexeme} {body : List Lexeme} {run : List Change}
    {rest rest' : List Char} (hblock : ∀ new more, pick i = some (new, more) → IsBlock new more)
    (hrun : olds run = first :: body) (hr : ∀ c ∈ run, c.Renames) (hn : first.kind ≠ .newline)
    (h : Legible (first :: body) rest) (hf : Follows rest rest') :
    Legible (news (statementChanges (pick i) first body run)) rest' := by
  cases hp : pick i with
  | none =>
    rw [← hrun] at h
    exact legible_news hr h hf
  | some r =>
    obtain ⟨new, more⟩ := r
    obtain ⟨hstarts, hbalanced, hlegible⟩ := hblock new more hp
    obtain ⟨-, ⟨hs, hi⟩, he, hl⟩ := hlegible rest'
    obtain ⟨hg, ⟨hfs, -⟩, -, -⟩ := h
    obtain ⟨c, text, hc⟩ := List.exists_cons_of_ne_nil (text_ne_nil hfs)
    have hnewline : c ≠ '\n' := by
      rintro rfl
      rw [hc] at hfs
      exact hn (kind_of_newline hfs)
    have hnews : news (statementChanges (some (new, more)) first body run) =
        { new with gap := first.gap } :: more := List.append_nil _
    rw [hnews]
    refine ⟨?_, ⟨hs, fun h => ?_⟩, he, hl⟩
    · rw [hc] at hg
      exact IsGap.of_head_ne hg hnewline _
    · rcases hstarts with hk | hk <;> rw [hk] at h <;> cases h

/-- A rewritten template can be read. -/
theorem Rewrites.legible (h : Rewrites source symbols replace pick index before here ls ss cs)
    (hblock : ∀ i new more, pick i = some (new, more) → IsBlock new more)
    (hr : ∀ c ∈ useChanges symbols replace before here ls, c.Renames) {tail : List Char} (hl : Legible ls tail) :
    Legible (news cs) tail := by
  induction h with
  | done _ => rwa [news_kept]
  | @piece index before here blank first body rest s others run more hblank hpiece _ hrun huse hrest ih =>
    obtain ⟨hrunr, hrestr⟩ := mem_useChanges hblank huse hr
    obtain ⟨hl₁, hl₂⟩ := legible_append.1 hl
    rw [← List.cons_append] at hl₂
    obtain ⟨hl₃, hl₄⟩ := legible_append.1 hl₂
    rw [news_append, news_append, news_kept]
    refine legible_append.2 ⟨legible_newlines hblank hl₁ _, legible_append.2 ⟨?_, ih hrestr hl₄⟩⟩
    exact legible_statementChanges (fun new more => hblock index new more) hrun hrunr hpiece.first_ne hl₃
      (hrest.follows hpiece.ends hl₄)

/-- Brackets and strings of a rewritten template are closed as they are opened. -/
theorem Rewrites.balanced (h : Rewrites source symbols replace pick index before here ls ss cs)
    (hblock : ∀ i new more, pick i = some (new, more) → IsBlock new more)
    (hr : ∀ c ∈ useChanges symbols replace before here ls, c.Renames) : Balanced ((news cs).map (·.kind)) := by
  induction h with
  | done hls =>
    rw [news_kept]
    exact balanced_newlineLexemes hls
  | @piece index before here blank first body rest s others run more hblank hpiece _ hrun huse _ ih =>
    obtain ⟨hrunr, hrestr⟩ := mem_useChanges hblank huse hr
    rw [news_append, news_append, news_kept, List.map_append, List.map_append]
    refine (balanced_newlineLexemes hblank).append (Balanced.append ?_ (ih hrestr))
    cases hp : pick index with
    | none => exact run_news hrunr (by rw [hrun]; exact hpiece.balanced)
    | some r =>
      have hnews : news (statementChanges (some r) first body run) = { r.1 with gap := first.gap } :: r.2 :=
        List.append_nil _
      rw [hnews]
      exact (hblock index r.1 r.2 hp).balanced

/-- The first lexeme of a statement keeps its gap. Its text stays, or it becomes a name or a decorator. -/
theorem exists_head_statementChanges {i : Nat} {first : Lexeme} {body : List Lexeme} {run : List Change}
    (hblock : ∀ new more, pick i = some (new, more) → IsBlock new more) (hrun : olds run = first :: body)
    (hr : ∀ c ∈ run, c.Renames) (hs : IsSpelled first.kind first.text) :
    ∃ m ms, news (statementChanges (pick i) first body run) = m :: ms ∧ m.gap = first.gap ∧
      (m.text = first.text ∨ ∃ c text, m.text = c :: text ∧ c ≠ byteOrderMark) := by
  cases hp : pick i with
  | some r =>
    obtain ⟨new, more⟩ := r
    obtain ⟨hstarts, -, hlegible⟩ := hblock new more hp
    obtain ⟨-, ⟨hnew, -⟩, -⟩ := hlegible []
    obtain ⟨c, text, hc, -, hne⟩ := head_of_spelled hnew hstarts
    exact ⟨{ new with gap := first.gap }, more, List.append_nil _, rfl, .inr ⟨c, text, hc, hne⟩⟩
  | none =>
    cases run with
    | nil => cases hrun
    | cons change run =>
      cases change with
      | keep l =>
        obtain ⟨rfl, -⟩ := List.cons.inj hrun
        exact ⟨l, news run, rfl, rfl, .inl rfl⟩
      | swap l others new more =>
        obtain ⟨rfl, -⟩ := List.cons.inj hrun
        obtain ⟨hk, -, hrenaming, -⟩ := hr _ List.mem_cons_self
        obtain ⟨suffix, htext, -⟩ := hrenaming.text
        obtain ⟨c, text, hc, -, hne⟩ := head_of_spelled hs (.inl hk)
        exact ⟨{ new with gap := l.gap }, more ++ news run, rfl, rfl, .inr ⟨c, text ++ suffix, by simp [htext, hc], hne⟩⟩

/-- Lexemes start with a byte-order mark only if they did before the first of them was written anew. -/
theorem head_written_ne {l m : Lexeme} {ls ms : List Lexeme} {tail : List Char} (hgap : m.gap = l.gap)
    (hm : m.text = l.text ∨ ∃ c text, m.text = c :: text ∧ c ≠ byteOrderMark) (hl : l.text ≠ [])
    (hh : (written (l :: ls) ++ tail).head? ≠ some byteOrderMark) :
    (written (m :: ms) ++ tail).head? ≠ some byteOrderMark := by
  rw [written_cons, hgap, List.append_assoc, List.append_assoc]
  rw [written_cons, List.append_assoc, List.append_assoc] at hh
  cases hg : l.gap with
  | cons c gap =>
    rw [hg] at hh
    exact hh
  | nil =>
    rw [hg] at hh
    rcases hm with hm | ⟨c, text, hm, hne⟩
    · obtain ⟨c, text, hc⟩ := List.exists_cons_of_ne_nil hl
      rw [hm, hc]
      rw [hc] at hh
      exact hh
    · rw [hm]
      simpa using hne

/-- A rewritten template starts with a byte-order mark only if it did before. -/
theorem Rewrites.head_ne (h : Rewrites source symbols replace pick index before here ls ss cs)
    (hblock : ∀ i new more, pick i = some (new, more) → IsBlock new more)
    (hr : ∀ c ∈ useChanges symbols replace before here ls, c.Renames) {tail : List Char} (hl : Legible ls tail)
    (hh : (written ls ++ tail).head? ≠ some byteOrderMark) :
    (written (news cs) ++ tail).head? ≠ some byteOrderMark := by
  cases h with
  | done _ => rwa [news_kept]
  | @piece _ _ _ blank first body rest s others run more hblank hpiece _ hrun huse hrest =>
    have hne := hl.forall_ne_nil
    rw [news_append, news_append, news_kept]
    cases blank with
    | cons l blank => exact head_written_ne rfl (.inl rfl) (hne l (by simp)) hh
    | nil =>
      obtain ⟨hrunr, -⟩ := mem_useChanges hblank huse hr
      obtain ⟨-, ⟨hs, -⟩, -⟩ := hl
      obtain ⟨m, ms, hnews, hgap, htext⟩ := exists_head_statementChanges (hblock index) hrun hrunr hs
      rw [hnews]
      exact head_written_ne hgap htext (text_ne_nil hs) hh

/-- The layout of a rewritten template. -/
theorem Layout.exists_rewritten (l : Layout)
    (h : Rewrites source symbols replace pick index before l.start l.lexemes ss cs)
    (hblock : ∀ i new more, pick i = some (new, more) → IsBlock new more)
    (hr : ∀ c ∈ useChanges symbols replace before l.start l.lexemes, c.Renames) :
    ∃ l' : Layout, l'.mark = l.mark ∧ l'.lexemes = news cs ∧ l'.tail = l.tail :=
  ⟨{ mark := l.mark
     lexemes := news cs
     tail := l.tail
     mark_eq := l.mark_eq
     head_ne := fun hm => h.head_ne hblock hr l.legible (l.head_ne hm)
     legible := h.legible hblock hr l.legible
     isGap := l.isGap
     balanced := h.balanced hblock hr }, rfl, rfl, rfl⟩

end BicepMigration.Template
