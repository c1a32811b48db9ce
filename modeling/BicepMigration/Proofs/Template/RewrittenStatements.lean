import Mathlib.Data.List.Forall2
import BicepMigration.Proofs.Template.RenamedTokens
import BicepMigration.Proofs.Template.Rewritten

/-!
# The statements of a rewritten template

A rewritten template has as many statements as before, in the same order. A statement that is written anew is read
from its new lexemes, and every other one from its lexemes with the changes among them. What a statement says depends
on these lexemes only, wherever they stand. Main statement: the statements of the new text, one by one.
-/

namespace BicepMigration.Template

open Text

section Reading

variable {source : String} {first : Token} {others blank : List Token}

/-- The tokens from the keyword of each statement on, after its decorators. -/
def keywordTails (source : String) (toks : List Token) : List (List Token) :=
  match h : skipNewlines toks with
  | [] => []
  | first :: others =>
    have := length_readStatement_lt source others (head_skipNewlines h)
    have := h ▸ length_skipNewlines_le toks
    (readDecorators source (first :: others)).2 :: keywordTails source (readStatement source first others).2
termination_by toks.length

/-- The keyword of the first statement after newlines, and those of the others. -/
theorem keywordTails_cons (hb : ∀ t ∈ blank, t.kind = .newline) (hf : first.kind ≠ .newline) :
    keywordTails source (blank ++ first :: others) =
      (readDecorators source (first :: others)).2 :: keywordTails source (readStatement source first others).2 := by
  have hskip := (@skipNewlines_cons _ others _) hb hf
  rw [keywordTails]
  split
  · next h =>
    rw [hskip] at h
    cases h
  · next h =>
    rw [hskip] at h
    obtain ⟨rfl, rfl⟩ := List.cons.inj h
    rfl

end Reading

/-- A statement says what is read from some lexemes alone, where they stand in a text. -/
def SaidBy (source : String) (ls : List Lexeme) (s : Statement) : Prop :=
  ∃ here first others, Placed source here ls ∧ tokensAt here ls = first :: others ∧
    s.sense = (readStatement source first others).1.sense

/-- Statements that are read from the same lexemes say the same. -/
theorem SaidBy.sense_eq {source source' : String} {ls : List Lexeme} {gap : List Char} {s s' : Statement}
    (h : SaidBy source ls s) (h' : SaidBy source' (regap gap ls) s') (hne : ∀ l ∈ ls, l.text ≠ []) :
    s'.sense = s.sense := by
  obtain ⟨here, first, others, hp, htoks, hs⟩ := h
  obtain ⟨here', first', others', hp', htoks', hs'⟩ := h'
  obtain ⟨g, hg, hmap⟩ := exists_carries gap hne hp hp'
  rw [htoks, htoks', List.map_cons] at hmap
  rw [htoks] at hg
  obtain ⟨rfl, rfl⟩ := List.cons.inj hmap
  rw [hs', hs]
  exact relocated_readStatement hg

/-- The lexemes of a statement are read as one statement by themselves. -/
theorem IsPiece.single {source : String} {here : Cursor} {first : Lexeme} {body rest : List Lexeme} {s : Statement}
    (h : IsPiece source here first body rest s) :
    IsSingle source (first.token here) (tokensAt (here.advance (first.gap ++ first.text)) body) (rest = []) := by
  have hb : Balanced (kinds (first.token here :: tokensAt (here.advance (first.gap ++ first.text)) body)) := by
    rw [← tokensAt_cons, kinds_tokensAt]
    exact h.balanced
  have hreads := congrArg Prod.snd h.reads
  have hplace : here.advance (written (first :: body)) =
      (here.advance (first.gap ++ first.text)).advance (written body) := by
    simp [Cursor.advance_append]
  rw [tokensAt_append, hplace] at hreads
  have he := (@atLineEnd_tokensAt ((here.advance (first.gap ++ first.text)).advance (written body)) rest).2 h.ends
  have hlast := readDecorators_ne_nil hb he hreads
  refine ⟨hb, ?_, fun hd => ?_⟩
  · have happend := snd_readStatement_append hb he hlast
    rw [hreads] at happend
    exact List.append_cancel_right (happend.symm.trans (List.nil_append _).symm)
  · have hnil := hlast hd
    cases rest with
    | nil => rfl
    | cons l rest => cases hnil

/-- The statement of lexemes says what they say alone. -/
theorem IsPiece.saidBy {source : String} {here : Cursor} {first : Lexeme} {body rest : List Lexeme} {s : Statement}
    (h : IsPiece source here first body rest s) (hp : Placed source here (first :: body)) :
    SaidBy source (first :: body) s := by
  refine ⟨here, _, _, hp, tokensAt_cons .., ?_⟩
  have hsingle := h.single
  have hplace : here.advance (written (first :: body)) =
      (here.advance (first.gap ++ first.text)).advance (written body) := by
    simp [Cursor.advance_append]
  have hs := congrArg (·.1.sense) h.reads
  rw [tokensAt_append] at hs
  have he := (@atLineEnd_tokensAt ((here.advance (first.gap ++ first.text)).advance (written body)) rest).2 h.ends
  rw [← hs]
  refine sense_readStatement_append hsingle.balanced he fun hd => ?_
  rw [hsingle.declared hd]
  rfl

/-- Lexemes that are read as one statement wherever they stand, and do not end with decorators. -/
def IsAlone (ls : List Lexeme) : Prop :=
  ∀ source here gap first others, tokensAt here (regap gap ls) = first :: others → IsSingle source first others False

/-- The same lexemes elsewhere are the same tokens, apart from their places. -/
theorem renamed_regap {r : Token → Token → Prop} {fixed : Bool} (ls : List Lexeme) (gap : List Char)
    (here here' : Cursor) : Renamed r fixed (tokensAt here ls) (tokensAt here' (regap gap ls)) := by
  have hsame (fixed : Bool) (ls : List Lexeme) (here here' : Cursor) :
      Renamed r fixed (tokensAt here ls) (tokensAt here' ls) := by
    induction ls generalizing fixed here here' with
    | nil => exact .nil
    | cons l ls ih => exact .keep rfl rfl (ih _ _ _)
  cases ls with
  | nil => exact .nil
  | cons l ls => exact .keep rfl rfl (hsame _ ls _ _)

/-- What is read as one statement in one place is so everywhere. -/
theorem IsSingle.isAlone {source : String} {here : Cursor} {ls : List Lexeme} {first : Token} {others : List Token}
    (htoks : tokensAt here ls = first :: others) (h : IsSingle source first others False) : IsAlone ls := by
  intro source' here' gap first' others' htoks'
  have hr := (@renamed_regap (fun _ _ => True) false) ls gap here here'
  rw [htoks, htoks'] at hr
  refine h.renamed hr ?_
  rw [← htoks', kinds_tokensAt, map_kind_regap, ← kinds_tokensAt here, htoks]
  exact h.balanced

/-- What becomes of a statement: some of all changes make the lexemes of the new statement from those of the old one,
unless others are written in their place. -/
def Becomes (source source' : String) (changes : List Change) (pick : Option (Lexeme × List Lexeme))
    (s s' : Statement) : Prop :=
  ∃ first body run, run <:+: changes ∧ olds run = first :: body ∧ (∀ l ∈ first :: body, l.text ≠ []) ∧
    SaidBy source (first :: body) s ∧ SaidBy source' (news (statementChanges pick first body run)) s'

/-- What a statement becomes under some changes it becomes under all. -/
theorem Becomes.mono {source source' : String} {changes all : List Change} {pick : Option (Lexeme × List Lexeme)}
    {s s' : Statement} (h : Becomes source source' changes pick s s') (hs : changes <:+: all) :
    Becomes source source' all pick s s' := by
  obtain ⟨first, body, run, hrun, hothers⟩ := h
  exact ⟨first, body, run, hrun.trans hs, hothers⟩

variable {source source' : String} {symbols : List String} {replace : Replacements} {pick : Picks} {index : Nat}
  {before : List Token} {here here' : Cursor} {ls : List Lexeme} {ss : List Statement} {cs : List Change}

/-- Lexemes make tokens. -/
theorem tokensAt_ne_nil {ls : List Lexeme} (h : ls ≠ []) (here : Cursor) :
    ∃ first others, tokensAt here ls = first :: others := by
  obtain ⟨l, ls, rfl⟩ := List.exists_cons_of_ne_nil h
  exact ⟨_, _, tokensAt_cons ..⟩

/-- A statement in which references are renamed, or which is written anew, is read as one statement. -/
theorem isSingle_statementChanges {i : Nat} {first : Lexeme} {body : List Lexeme} {run : List Change} {last : Prop}
    (h : IsSingle source (first.token here) (tokensAt (here.advance (first.gap ++ first.text)) body) last)
    (hblock : ∀ new more, pick i = some (new, more) → IsBlock new more ∧ IsAlone (new :: more))
    (hrun : olds run = first :: body) (hr : ∀ c ∈ run, c.Renames) (hs : SparesDeclared false run) {t : Token} {ts : List Token}
    (ht : tokensAt here' (news (statementChanges (pick i) first body run)) = t :: ts) :
    IsSingle source' t ts last ∧ (first.kind ≠ .newline → t.kind ≠ .newline) := by
  cases hp : pick i with
  | none =>
    rw [hp, statementChanges] at ht
    have hrenamed := (@renamed_news (fun _ _ => True) false run) hr (fun c _ => by
      cases c
      exacts [trivial, fun _ _ => trivial]) hs here here'
    rw [hrun, ht, tokensAt_cons] at hrenamed
    refine ⟨h.renamed hrenamed ?_, fun hf => ?_⟩
    · rw [← ht, kinds_tokensAt]
      refine run_news hr ?_
      rw [hrun, ← kinds_tokensAt here, tokensAt_cons]
      exact h.balanced
    · obtain ⟨u, us, heq, hk⟩ := hrenamed.cons_left
      obtain ⟨rfl, rfl⟩ := List.cons.inj heq
      exact hk ▸ hf
  | some block =>
    obtain ⟨new, more⟩ := block
    obtain ⟨hb, halone⟩ := hblock new more hp
    have hnews : news (statementChanges (some (new, more)) first body run) =
        { new with gap := first.gap } :: more := List.append_nil _
    rw [hp, hnews] at ht
    have hsingle := halone source' here' first.gap t ts ht
    refine ⟨⟨hsingle.balanced, hsingle.rest, fun hd => (hsingle.declared hd).elim⟩, fun _ => ?_⟩
    rw [tokensAt_cons] at ht
    obtain ⟨rfl, rfl⟩ := List.cons.inj ht
    rcases hb.starts with hk | hk <;> simp [hk]

/-- Rewritten lexemes start with those that the first statement becomes: these are read as one statement, and end their
line. -/
theorem Rewrites.exists_first_tokens (blank : List Lexeme) {first : Lexeme} {body rest : List Lexeme} {s : Statement}
    {others : List Statement} {run more : List Change} {there : Cursor} {last : Prop}
    (hrest : Rewrites source symbols replace pick (index + 1) before there rest others more)
    (hpiece : IsPiece source here first body rest s)
    (hsingle : IsSingle source (first.token here) (tokensAt (here.advance (first.gap ++ first.text)) body) last)
    (hrun : olds run = first :: body)
    (hblock : ∀ new more, pick index = some (new, more) → IsBlock new more ∧ IsAlone (new :: more))
    (hr : ∀ c ∈ run, c.Renames) (hs : SparesDeclared false run) (source' : String) (here' : Cursor) :
    ∃ t ts toks, tokensAt (here'.advance (written blank)) (news (statementChanges (pick index) first body run)) = t :: ts ∧
      toks = tokensAt ((here'.advance (written blank)).advance
        (written (news (statementChanges (pick index) first body run)))) (news more) ∧
      IsSingle source' t ts last ∧ t.kind ≠ .newline ∧ atLineEnd toks = true ∧ (rest = [] → toks = []) ∧
      tokensAt here' (news (kept blank ++ (statementChanges (pick index) first body run ++ more))) =
        tokensAt here' blank ++ t :: (ts ++ toks) := by
  have holds : olds (statementChanges (pick index) first body run) ≠ [] := by
    rw [olds_statementChanges _ hrun]
    exact List.cons_ne_nil _ _
  obtain ⟨t, ts, ht⟩ := tokensAt_ne_nil (news_ne_nil holds) (here'.advance (written blank))
  obtain ⟨hsingle', hnewline⟩ := (@isSingle_statementChanges _ source') hsingle hblock hrun hr hs ht
  have hrest_end := hrest.atLineEnd_news hpiece.ends
  refine ⟨t, ts, _, ht, rfl, hsingle', hnewline hpiece.first_ne, atLineEnd_tokensAt.2 hrest_end, fun hnil => ?_, ?_⟩
  · rcases hrest.head_cases hpiece.ends with ⟨-, hn⟩ | ⟨l, ls', ns, hl, -, -⟩
    · rw [hn]
      rfl
    · rw [hnil] at hl
      cases hl
  · rw [news_append, news_append, news_kept, tokensAt_append, tokensAt_append, ht, List.cons_append]

/-- The first statement of rewritten lexemes is read from the lexemes that it becomes, and the others after it. -/
theorem Rewrites.exists_first {blank : List Lexeme} {first : Lexeme} {body rest : List Lexeme} {s : Statement}
    {others : List Statement} {run more : List Change} {there : Cursor}
    (hrest : Rewrites source symbols replace pick (index + 1) before there rest others more)
    (hpiece : IsPiece source here first body rest s) (hrun : olds run = first :: body)
    (hblank : ∀ l ∈ blank, l.kind = .newline)
    (hblock : ∀ new more, pick index = some (new, more) → IsBlock new more ∧ IsAlone (new :: more))
    (hr : ∀ c ∈ run, c.Renames) (hs : SparesDeclared false run) (source' : String) (here' : Cursor) :
    ∃ t ts toks, tokensAt (here'.advance (written blank)) (news (statementChanges (pick index) first body run)) = t :: ts ∧
      toks = tokensAt ((here'.advance (written blank)).advance
        (written (news (statementChanges (pick index) first body run)))) (news more) ∧
      IsSingle source' t ts (toks = []) ∧ atLineEnd toks = true ∧
      readStatements source' (tokensAt here' (news (kept blank ++ (statementChanges (pick index) first body run ++ more)))) =
        (readStatement source' t (ts ++ toks)).1 :: readStatements source' toks := by
  obtain ⟨t, ts, toks, ht, htoks, hsingle, hnewline, hend, hnil, htokens⟩ :=
    hrest.exists_first_tokens blank hpiece hpiece.single hrun hblock hr hs source' here'
  have hsingle' := hsingle.imp hnil
  refine ⟨t, ts, toks, ht, htoks, hsingle', hend, ?_⟩
  rw [htokens, readStatements_cons (forall_kind_tokensAt.2 hblank) hnewline, (hsingle'.append hend).1]

/-- The changes of a statement name nothing that it declares. -/
theorem sparesDeclared_run {first : Lexeme} {body rest : List Lexeme} {run others : List Change}
    (huse : useChanges symbols replace before here (first :: (body ++ rest)) = run ++ others) :
    SparesDeclared false run := by
  have h := sparesDeclared_useChanges symbols replace before here (first :: (body ++ rest))
  rw [huse] at h
  exact h.append.1.loosen

/-- The statements of a rewritten template, one by one. -/
theorem Rewrites.statements (h : Rewrites source symbols replace pick index before here ls ss cs)
    (hblock : ∀ i new more, pick i = some (new, more) → IsBlock new more ∧ IsAlone (new :: more))
    (hr : ∀ c ∈ useChanges symbols replace before here ls, c.Renames) (hne : ∀ l ∈ ls, l.text ≠ [])
    (hp : Placed source here ls) (hp' : Placed source' here' (news cs)) :
    List.Forall₂ (fun s s' => Becomes source source' (useChanges symbols replace before here ls) (pick s.2) s.1 s')
      (ss.zipIdx index) (readStatements source' (tokensAt here' (news cs))) := by
  induction h generalizing here' with
  | done hls =>
    rw [news_kept, readStatements_newlines (forall_kind_tokensAt.2 hls)]
    exact .nil
  | @piece index before here blank first body rest s others run more hblank hpiece _ hrun huse hrest ih =>
    obtain ⟨hrunr, hrestr⟩ := mem_useChanges hblank huse hr
    have hall := (useChanges_newlines hblank before here (first :: (body ++ rest))).trans (congrArg (kept blank ++ ·) huse)
    have hplaced := hp.right
    rw [← List.cons_append] at hplaced
    obtain ⟨t, ts, toks, ht, htoks, hsingle, hend, hread⟩ := hrest.exists_first hpiece hrun hblank (hblock index) hrunr
      (sparesDeclared_run huse) source' here'
    rw [hread, List.zipIdx_cons, htoks]
    rw [news_append, news_append, news_kept] at hp'
    have hplaced' := hp'.right
    refine .cons ⟨first, body, run, ?_, hrun, ?_, hpiece.saidBy hplaced.left, ?_⟩
      ((ih hrestr (fun l hl => hne l (by simp [hl])) hplaced.right hplaced'.right).imp fun _ _ hb => hb.mono ?_)
    · rw [hall]
      exact ⟨kept blank, _, List.append_assoc _ _ _⟩
    · exact fun l hl => hne l (by rcases List.mem_cons.1 hl with rfl | hl <;> simp [*])
    · exact ⟨_, t, ts, hplaced'.left, ht, htoks ▸ (hsingle.append hend).2⟩
    · rw [hall]
      exact ⟨kept blank ++ run, [], by simp⟩

end BicepMigration.Template
