import BicepMigration.Proofs.Template.Element
import BicepMigration.Proofs.Template.Pieces
import BicepMigration.Proofs.Template.Placement
import BicepMigration.Proofs.Template.TokenWord

/-!
# The tokens of statements

The statements of a template take its tokens in order. Every token that is no newline stands in one statement, a
statement starts and ends outside brackets, and a line ends after it. Inside a statement a line ends only after a
decorator or after another line end. Main statement: all of this, for every template that can be scanned. What a
statement says of its tokens is not described here.
-/

namespace BicepMigration.Template

open Text

section Depth

/-- As many brackets are closed as are opened. -/
def AtDepthZero (toks : List Token) : Prop :=
  toks.countP (·.kind.opens) = toks.countP (·.kind.closes)

/-- The brackets that stand open are those that were opened and not closed. -/
theorem length_opened_of_run {n m : Nest} {toks : List Token} (h : n.run (kinds toks) = some m) :
    n.opened.length + toks.countP (·.kind.opens) = m.opened.length + toks.countP (·.kind.closes) := by
  induction toks generalizing n with
  | nil => simp_all
  | cons t ts ih =>
    rw [kinds_cons, Nest.run_cons] at h
    obtain ⟨n', hn, hr⟩ := Option.bind_eq_some_iff.1 h
    have hdepth := Nest.depthAfter_eq hn
    have hrest := ih hr
    have hclosed : t.kind.closes = true → n.opened.length ≠ 0 := by
      intro hc h0
      obtain ⟨zone, opened⟩ := n
      obtain rfl := List.length_eq_zero_iff.1 h0
      cases zone <;> cases hk : t.kind <;> simp_all [Nest.after, Nest.close, TokenKind.closes]
    unfold TokenKind.depthAfter at hdepth
    rw [List.countP_cons, List.countP_cons]
    by_cases ho : t.kind.opens = true
    · have hc := TokenKind.not_closes_of_opens ho
      simp only [ho, hc, if_true, Bool.false_eq_true, if_false] at hdepth ⊢
      omega
    · by_cases hc : t.kind.closes = true
      · have hpos := hclosed hc
        simp only [ho, hc, if_true, Bool.false_eq_true, if_false] at hdepth ⊢
        omega
      · simp only [ho, hc, Bool.false_eq_true, if_false] at hdepth ⊢
        omega

/-- Tokens end outside brackets if none is open behind them. -/
theorem atDepthZero_iff {toks : List Token} {m : Nest} (h : Nest.top.run (kinds toks) = some m) :
    AtDepthZero toks ↔ m.opened = [] := by
  have hlength := length_opened_of_run h
  simp only [Nest.top, List.length_nil] at hlength
  rw [AtDepthZero, ← List.length_eq_zero_iff]
  omega

/-- Balanced tokens end outside brackets. -/
theorem atDepthZero_of_balanced {toks : List Token} (h : Balanced (kinds toks)) : AtDepthZero toks :=
  (atDepthZero_iff h).2 rfl

/-- Tokens at depth zero do not change the depth of those after them. -/
theorem AtDepthZero.append_iff {a : List Token} (h : AtDepthZero a) (b : List Token) :
    AtDepthZero (a ++ b) ↔ AtDepthZero b := by
  unfold AtDepthZero at *
  rw [List.countP_append, List.countP_append]
  omega

/-- What ends at depth zero with other tokens at depth zero ends there without them. -/
theorem AtDepthZero.of_append {a b : List Token} (h : AtDepthZero (a ++ b)) (hb : AtDepthZero b) :
    AtDepthZero a := by
  unfold AtDepthZero at *
  rw [List.countP_append, List.countP_append] at h
  omega

/-- Outside brackets a line goes on up to its end. -/
theorem not_newline_of_breakLine {toks before after : List Token} {t : Token} (hb : Balanced (kinds toks))
    (h : (breakLine toks).1 = before ++ t :: after) (hz : AtDepthZero before) : t.kind ≠ .newline := by
  have hline := (balanced_breakLine hb).1
  rw [h, kinds_append, Balanced, Nest.run_append] at hline
  obtain ⟨m, hm, -⟩ := Option.bind_eq_some_iff.1 hline
  have hunbroken := unbroken_breakOutside (· = .newline) 0 toks
  rw [← breakLine, h, kinds_append, show (0 : Nat) = Nest.top.opened.length from rfl, unbroken_append hm,
    (atDepthZero_iff hm).1 hz] at hunbroken
  simpa [Unbroken] using hunbroken.2.1

end Depth

section Lines

/-- The token after some tokens of a statement comes directly after a decorator of it, or after a newline. -/
def AfterDecorator (decorators : List Fragment) (before : List Token) : Prop :=
  ∃ u, before.getLast? = some u ∧
    (u.kind = .newline ∨ ∃ f ∈ decorators, ∃ span, f.span = some span ∧ span.stop = u.span.stop)

/-- More decorators, and more tokens before them, change nothing behind a decorator. -/
theorem AfterDecorator.prepend {decorators others : List Fragment} {before : List Token}
    (h : AfterDecorator others before) (hs : others ⊆ decorators) (a : List Token) :
    AfterDecorator decorators (a ++ before) := by
  obtain ⟨u, hu, hcases⟩ := h
  refine ⟨u, by simp [List.getLast?_append, hu], hcases.imp_right fun ⟨f, hf, hspan⟩ => ⟨f, hs hf, hspan⟩⟩

/-- Outside brackets, every newline that is not the first token comes directly after a decorator or a newline. -/
def BreaksAfter (decorators : List Fragment) (toks : List Token) : Prop :=
  ∀ before t after, toks = before ++ t :: after → before ≠ [] → t.kind = .newline → AtDepthZero before →
    AfterDecorator decorators before

/-- A line has no newlines outside brackets. -/
theorem breaksAfter_line {toks : List Token} (hb : Balanced (kinds toks)) (decorators : List Fragment) :
    BreaksAfter decorators (breakLine toks).1 :=
  fun _ _ _ h _ hn hz => absurd hn (not_newline_of_breakLine hb h hz)

/-- In newlines each one comes behind another one. -/
theorem breaksAfter_newlines {toks : List Token} (h : ∀ t ∈ toks, t.kind = .newline) (decorators : List Fragment) :
    BreaksAfter decorators toks := by
  rintro before t after rfl hne - -
  obtain ⟨u, hu⟩ := Option.ne_none_iff_exists'.1 (mt List.getLast?_eq_none_iff.1 hne)
  exact ⟨u, hu, .inl (h u (List.mem_append_left _ (List.mem_of_getLast? hu)))⟩

/-- Lines go on after tokens that are balanced. If a newline comes first in them, it comes after a decorator. -/
theorem BreaksAfter.append {decorators others : List Fragment} {a b : List Token} (ha : BreaksAfter decorators a)
    (hb : BreaksAfter others b) (hs : others ⊆ decorators) (hbalanced : Balanced (kinds a))
    (hfirst : ∀ t, b.head? = some t → t.kind = .newline → AfterDecorator decorators a) :
    BreaksAfter decorators (a ++ b) := by
  intro before t after h hne hn hz
  rcases List.append_eq_append_iff.1 h with ⟨x, rfl, hx⟩ | ⟨x, rfl, hx⟩
  · rw [(atDepthZero_of_balanced hbalanced).append_iff] at hz
    cases x with
    | nil => simpa using hfirst t (by simp [hx]) hn
    | cons u us => exact (hb _ t after hx (List.cons_ne_nil _ _) hn hz).prepend hs a
  · cases x with
    | nil =>
      have hhead : b.head? = some t := by simp [← (List.nil_append b) ▸ hx]
      simpa using hfirst t hhead hn
    | cons u us =>
      obtain ⟨rfl, rfl⟩ := List.cons.inj hx
      exact ha before _ us rfl hne hn hz

/-- The first token of a line outside brackets is no newline. -/
theorem not_newline_of_head_breakLine {toks : List Token} {t : Token} (hb : Balanced (kinds toks))
    (h : (breakLine toks).1.head? = some t) : t.kind ≠ .newline := by
  obtain ⟨after, hafter⟩ := List.head?_eq_some_iff.1 h
  have hline : (breakLine toks).1 = [] ++ t :: after := hafter
  exact not_newline_of_breakLine hb hline rfl

/-- Decorators are lines of their own, with newlines after them. -/
theorem exists_decoratorLines (source : String) {toks : List Token} (hb : Balanced (kinds toks)) :
    ∃ taken, toks = taken ++ (readDecorators source toks).2 ∧ Balanced (kinds taken) ∧
      BreaksAfter (readDecorators source toks).1 taken ∧ ∀ t, taken.head? = some t → t.kind ≠ .newline := by
  have h := decorated_readDecorators source toks
  generalize (readDecorators source toks).1 = decorators at h ⊢
  generalize (readDecorators source toks).2 = after at h ⊢
  induction h with
  | done => exact ⟨[], rfl, rfl, fun _ _ _ h => by simp at h, by simp⟩
  | @line t ts blank rest after decorators hline _ ih =>
    obtain ⟨hl, hr⟩ := hline.balanced hb
    obtain ⟨taken, rfl, hbt, hbreaks, hhead⟩ := ih hr
    -- the first newline after the line comes after the decorator, and every other one after a newline
    have hafter : AfterDecorator (Fragment.ofTokens source t ts :: decorators) (t :: ts) :=
      ⟨ts.getLast?.getD t, List.getLast?_cons, .inr ⟨_, List.mem_cons_self, _, rfl, rfl⟩⟩
    have hbl := balanced_newlines hline.newlines
    have hothers : BreaksAfter decorators (blank ++ taken) :=
      (breaksAfter_newlines hline.newlines _).append hbreaks (List.Subset.refl _) hbl
        fun u hu hn => absurd hn (hhead u hu)
    have hthis := breaksAfter_line hb (Fragment.ofTokens source t ts :: decorators)
    rw [hline.breaks] at hthis
    refine ⟨t :: ts ++ (blank ++ taken), by simp, ?_, ?_, fun u hu => ?_⟩
    · rw [kinds_append, kinds_append]
      exact hl.append (hbl.append hbt)
    · exact hthis.append hothers (List.subset_cons_self ..) hl fun _ _ _ => hafter
    · rw [← Option.some.inj hu, hline.starts]
      simp

/-- Inside a statement lines end after decorators only. -/
theorem breaksAfter_readStatement (source : String) {first : Token} {body rest : List Token}
    (hb : Balanced (kinds (first :: (body ++ rest))))
    (h : (readStatement source first (body ++ rest)).2 = rest) :
    BreaksAfter (readStatement source first (body ++ rest)).1.decorators (first :: body) := by
  have hbody := (@balanced_readDecorators source) hb
  obtain ⟨taken, htaken, hbt, hbreaks, -⟩ := exists_decoratorLines source hb
  have hdecorators : (readStatement source first (body ++ rest)).1.decorators =
      (readDecorators source (first :: (body ++ rest))).1 := rfl
  have hrest : rest = (breakLine (readDecorators source (first :: (body ++ rest))).2).2 :=
    h.symm.trans (readStatementBody_snd ..)
  rw [hdecorators]
  generalize (readDecorators source (first :: (body ++ rest))).1 = decorators at hbreaks
  generalize (readDecorators source (first :: (body ++ rest))).2 = line at htaken hrest hbody
  have hrun : first :: body = taken ++ (breakLine line).1 := by
    have hall : (first :: body) ++ rest = taken ++ (breakLine line).1 ++ rest := by
      rw [List.append_assoc, hrest, breakLine_append, ← hrest]
      exact htaken
    exact List.append_cancel_right hall
  rw [hrun]
  exact hbreaks.append (breaksAfter_line hbody decorators) (List.Subset.refl _) hbt
    fun t ht hn => absurd hn (not_newline_of_head_breakLine hbody ht)

end Lines

section Runs

variable {source : String} {here : Cursor}

/-- The token stands in the span of the statement. -/
def Statement.Owns (s : Statement) (t : Token) : Prop :=
  s.span.start ≤ t.span.start ∧ t.span.stop ≤ s.span.stop

instance (s : Statement) (t : Token) : Decidable (s.Owns t) :=
  inferInstanceAs (Decidable (_ ∧ _))

/-- Tokens of a template from one on are read as a statement. -/
structure IsRun (source : String) (before : List Token) (first : Token) (body after : List Token) (s : Statement) :
    Prop where
  /-- Reading the statement takes these tokens. -/
  reads : readStatement source first (body ++ after) = (s, after)
  /-- It starts with its first token and ends with its last one. -/
  span : s.span = ⟨first.span.start, (body.getLast?.getD first).span.stop⟩
  /-- It does not start with a newline. -/
  first_ne : first.kind ≠ .newline
  /-- It starts outside brackets. -/
  starts : AtDepthZero before
  /-- It ends outside brackets. -/
  ends : AtDepthZero (before ++ first :: body)
  /-- A newline comes next, or nothing. -/
  line_ends : atLineEnd after = true
  /-- Outside brackets, newlines in it come after a decorator or a newline only. -/
  breaks : BreaksAfter s.decorators (first :: body)

/-- The lexemes of a statement make a run of tokens. -/
theorem IsPiece.isRun {before : List Token} {first : Lexeme} {body rest : List Lexeme} {s : Statement}
    (h : IsPiece source here first body rest s) (hb : AtDepthZero before)
    (hrest : Balanced ((first :: (body ++ rest)).map (·.kind))) :
    IsRun source before (first.token here) (tokensAt (here.advance (first.gap ++ first.text)) body)
      (tokensAt (here.advance (written (first :: body))) rest) s := by
  have hplace : (here.advance (first.gap ++ first.text)).advance (written body) =
      here.advance (written (first :: body)) := by
    rw [← Cursor.advance_append, written_cons, List.append_assoc]
  have hreads := h.reads
  rw [tokensAt_append, hplace] at hreads
  have hrun : Balanced (kinds (first.token here :: tokensAt (here.advance (first.gap ++ first.text)) body)) := by
    rw [← tokensAt_cons, kinds_tokensAt]
    exact h.balanced
  refine ⟨hreads, ?_, h.first_ne, hb, (hb.append_iff _).2 (atDepthZero_of_balanced hrun), atLineEnd_tokensAt.2 h.ends, ?_⟩
  · rw [h.span, stop_getLast_tokensAt]
    simp [runSpan, Cursor.advance_offset]
  · have hall : Balanced (kinds (first.token here :: (tokensAt (here.advance (first.gap ++ first.text)) body ++
        tokensAt (here.advance (written (first :: body))) rest))) := by
      rw [← hplace, ← tokensAt_append, ← tokensAt_cons, kinds_tokensAt]
      exact hrest
    have hbreaks := breaksAfter_readStatement source hall (congrArg Prod.snd hreads)
    rwa [hreads] at hbreaks

/-- Every statement of a template is read from tokens of its own, which are balanced together with those after them. -/
theorem Layout.exists_balancedRun {l : Layout} {s : Statement} (hs : s ∈ readStatements source l.tokens) :
    ∃ before first body after, l.tokens = before ++ first :: (body ++ after) ∧
      IsRun source before first body after s ∧ Balanced (kinds (first :: (body ++ after))) := by
  have hpieces : Pieces source l.start l.lexemes (readStatements source l.tokens) :=
    pieces_readStatements source l.balanced
  obtain ⟨x, first, body, rest, hls, hpiece, hrest⟩ := hpieces.exists_piece l.balanced hs
  have htokens : l.tokens = tokensAt l.start x ++
      tokensAt (l.start.advance (written x)) (first :: (body ++ rest)) := by
    rw [Layout.tokens, hls, tokensAt_append]
  have hall : AtDepthZero l.tokens := atDepthZero_of_balanced (by
    rw [Layout.tokens, kinds_tokensAt]
    exact l.balanced)
  have hbalanced : Balanced (kinds (tokensAt (l.start.advance (written x)) (first :: (body ++ rest)))) := by
    rwa [kinds_tokensAt]
  have hparts : tokensAt (l.start.advance (written x)) (first :: (body ++ rest)) =
      first.token (l.start.advance (written x)) ::
        (tokensAt ((l.start.advance (written x)).advance (first.gap ++ first.text)) body ++
          tokensAt ((l.start.advance (written x)).advance (written (first :: body))) rest) := by
    rw [tokensAt_cons, tokensAt_append]
    simp [Cursor.advance_append]
  rw [htokens] at hall
  refine ⟨_, _, _, _, ?_, hpiece.isRun (hall.of_append (atDepthZero_of_balanced hbalanced)) hrest, ?_⟩
  · rw [htokens, hparts]
  · rwa [← hparts]

/-- Every statement of a template is read from tokens of its own. -/
theorem Layout.exists_isRun {l : Layout} {s : Statement} (hs : s ∈ readStatements source l.tokens) :
    ∃ before first body after, l.tokens = before ++ first :: (body ++ after) ∧
      IsRun source before first body after s := by
  obtain ⟨before, first, body, after, htokens, hrun, -⟩ := l.exists_balancedRun hs
  exact ⟨before, first, body, after, htokens, hrun⟩

/-- Tokens end before their lexemes do. -/
theorem stop_tokensAt_le (here : Cursor) (ls : List Lexeme) :
    ∀ t ∈ tokensAt here ls, t.span.stop ≤ here.offset + byteLength (written ls) := by
  induction ls generalizing here with
  | nil => simp
  | cons l ls ih =>
    intro t ht
    rw [written_cons, ← List.append_assoc, byteLength_append, byteLength_append]
    rcases List.mem_cons.1 ht with rfl | ht
    · simp only [Token.ofChars_span, Cursor.advance_offset]
      omega
    · have hle := ih _ t ht
      rw [Cursor.advance_offset, byteLength_append] at hle
      omega

/-- Statements are no empty spans, and each one stops before the next one starts. -/
theorem Pieces.increasing {ls : List Lexeme} {ss : List Statement} (h : Pieces source here ls ss)
    (ht : ∀ l ∈ ls, l.text ≠ []) :
    (∀ s ∈ ss, here.offset ≤ s.span.start ∧ s.span.start < s.span.stop) ∧
      ss.Pairwise (fun a b => a.span.stop ≤ b.span.start) := by
  induction h with
  | done => exact ⟨by simp, .nil⟩
  | @piece here blank first body rest s others _ hpiece _ ih =>
    obtain ⟨hbounds, hpairs⟩ := ih fun l hl => ht l (by simp [hl])
    have hpos := byteLength_pos (ht first (by simp))
    have hspan := hpiece.span
    simp only [runSpan, Cursor.advance_offset, written_cons, byteLength_append] at hspan hbounds
    refine ⟨fun o ho => ?_, List.pairwise_cons.2 ⟨fun o ho => ?_, hpairs⟩⟩
    · rcases List.mem_cons.1 ho with rfl | ho
      · rw [hspan]
        simp only
        omega
      · have hb := hbounds o ho
        omega
    · have hb := hbounds o ho
      rw [hspan]
      simp only
      omega

/-- Every token that is no newline is in a statement. -/
theorem Pieces.exists_owner {ls : List Lexeme} {ss : List Statement} (h : Pieces source here ls ss)
    (ht : ∀ l ∈ ls, l.text ≠ []) {t : Token} (hmem : t ∈ tokensAt here ls) (hn : t.kind ≠ .newline) :
    ∃ s ∈ ss, s.Owns t := by
  induction h with
  | done hblank => exact absurd (forall_kind_tokensAt.2 hblank t hmem) hn
  | @piece here blank first body rest s others hblank hpiece _ ih =>
    rw [← List.cons_append, tokensAt_append, tokensAt_append, List.mem_append, List.mem_append] at hmem
    rcases hmem with hmem | hmem | hmem
    · exact absurd (forall_kind_tokensAt.2 hblank t hmem) hn
    · refine ⟨s, List.mem_cons_self, ?_⟩
      have hstart := contains_start_tokensAt (fun l hl => ht l (List.mem_append_right _
        (List.mem_append_left rest hl))) _ t hmem
      have hstop := stop_tokensAt_le _ _ t hmem
      simp only [Span.contains, Bool.and_eq_true, decide_eq_true_eq, ← hpiece.span] at hstart
      refine ⟨hstart.1, ?_⟩
      rw [hpiece.span]
      exact hstop
    · obtain ⟨o, ho, howns⟩ := ih (fun l hl => ht l (by simp [hl])) hmem
      exact ⟨o, List.mem_cons_of_mem _ ho, howns⟩

end Runs

section Parted

/-- The statements part the tokens of a template. -/
structure PartTokens (source : String) (toks : List Token) (ss : List Statement) : Prop where
  /-- Every statement is read from tokens of its own, one at least. -/
  runs : ∀ s ∈ ss, ∃ before first body after, toks = before ++ first :: (body ++ after) ∧
    IsRun source before first body after s
  /-- Every token that is no newline is in one statement and in no other. -/
  owner : ∀ t ∈ toks, t.kind ≠ .newline →
    ∃ earlier s later, ss = earlier ++ s :: later ∧ s.Owns t ∧ ∀ o ∈ earlier ++ later, ¬ o.Owns t
  /-- No statement is empty. -/
  nonempty : ∀ s ∈ ss, s.span.start < s.span.stop
  /-- A statement stops before later ones start. -/
  increasing : ss.Pairwise fun a b => a.span.stop ≤ b.span.start
  /-- Between a statement and the next one there are newlines only. -/
  between : ∀ earlier a b later, ss = earlier ++ a :: b :: later →
    ∀ t ∈ toks, a.span.stop ≤ t.span.start → t.span.stop ≤ b.span.start → t.kind = .newline

/-- Spans that do not overlap have no token in common. -/
theorem not_owns_of_stop_le {a b : Statement} {t : Token} (h : a.span.stop ≤ b.span.start)
    (ht : t.span.start < t.span.stop) : ¬ (a.Owns t ∧ b.Owns t) := by
  rintro ⟨⟨-, ha⟩, ⟨hb, -⟩⟩
  omega

/-- In a list of statements whose spans increase, one statement at most has a token. -/
theorem exists_only_owner {ss : List Statement} (h : ss.Pairwise fun a b => a.span.stop ≤ b.span.start)
    {t : Token} (ht : t.span.start < t.span.stop) {s : Statement} (hs : s ∈ ss) (howns : s.Owns t) :
    ∃ earlier s later, ss = earlier ++ s :: later ∧ s.Owns t ∧ ∀ o ∈ earlier ++ later, ¬ o.Owns t := by
  obtain ⟨earlier, later, rfl⟩ := List.append_of_mem hs
  obtain ⟨-, hlater, hcross⟩ := List.pairwise_append.1 h
  refine ⟨earlier, s, later, rfl, howns, fun o ho => ?_⟩
  rcases List.mem_append.1 ho with ho | ho
  · exact fun h => not_owns_of_stop_le (hcross o ho s List.mem_cons_self) ht ⟨h, howns⟩
  · exact fun h => not_owns_of_stop_le ((List.pairwise_cons.1 hlater).1 o ho) ht ⟨howns, h⟩

/-- A token between two statements that follow each other is in no statement. -/
theorem not_owns_of_between {earlier later : List Statement} {a b : Statement}
    (h : (earlier ++ a :: b :: later).Pairwise fun a b => a.span.stop ≤ b.span.start)
    (hne : ∀ s ∈ earlier ++ a :: b :: later, s.span.start < s.span.stop) {t : Token}
    (ht : t.span.start < t.span.stop) (ha : a.span.stop ≤ t.span.start) (hb : t.span.stop ≤ b.span.start)
    {s : Statement} (hs : s ∈ earlier ++ a :: b :: later) : ¬ s.Owns t := by
  obtain ⟨-, hpairs, hcross⟩ := List.pairwise_append.1 h
  obtain ⟨-, hpairs⟩ := List.pairwise_cons.1 hpairs
  have hlater := (List.pairwise_cons.1 hpairs).1
  rintro ⟨hstart, hstop⟩
  rcases List.mem_append.1 hs with hearlier | hs
  · have hle := hcross s hearlier a List.mem_cons_self
    have hne' := hne a (by simp)
    omega
  · rcases List.mem_cons.1 hs with rfl | hs
    · omega
    · rcases List.mem_cons.1 hs with rfl | hs
      · omega
      · have hle := hlater s hs
        have hne' := hne b (by simp)
        omega

/-- Every template that can be scanned is parted by its statements. -/
theorem scan_parts_tokens {source : String} {template : ScannedTemplate} (h : scan source = .ok template) :
    PartTokens source template.tokens template.statements := by
  obtain ⟨l, -, rfl⟩ := scan_eq_ok_iff.1 h
  have hpieces : Pieces source l.start l.lexemes (readStatements source l.tokens) :=
    pieces_readStatements source l.balanced
  have htext := l.legible.forall_ne_nil
  obtain ⟨hbounds, hpairs⟩ := hpieces.increasing htext
  have hnonempty (t : Token) (ht : t ∈ tokensAt l.start l.lexemes) : t.span.start < t.span.stop :=
    ((apart_tokensAt htext l.start).2 t ht).2
  refine ⟨fun s hs => l.exists_isRun hs, fun t ht hn => ?_, fun s hs => (hbounds s hs).2, hpairs, ?_⟩
  · obtain ⟨s, hs, howns⟩ := hpieces.exists_owner htext ht hn
    exact exists_only_owner hpairs (hnonempty t ht) hs howns
  · intro earlier a b later heq t ht ha hb
    refine Decidable.byContradiction fun hn => ?_
    obtain ⟨s, hs, howns⟩ := hpieces.exists_owner htext ht hn
    have heq' : readStatements source l.tokens = earlier ++ a :: b :: later := heq
    rw [heq'] at hpairs hs hbounds
    exact not_owns_of_between hpairs (fun s hs => (hbounds s hs).2) (hnonempty t ht) ha hb hs howns

/-- A decorated loop, and a resource without a symbol. -/
def decoratedSource : String :=
  "@batchSize(2)\n\nmodule m 'br:m/a' = [for i in [\n  1\n]: \x7b\n\x7d]\n\nresource = (\n)\n"

/-- The runs of a decorated loop and of a resource without a symbol. -/
theorem scan_parts_tokens_decorated :
    scan decoratedSource =
        .ok ⟨decoratedSource, tokensOf decoratedSource, readStatements decoratedSource (tokensOf decoratedSource)⟩ ∧
      PartTokens decoratedSource (tokensOf decoratedSource)
        (readStatements decoratedSource (tokensOf decoratedSource)) := by
  have ht : tokenize decoratedSource = .ok (tokensOf decoratedSource) := tokenize_eq (by decide +kernel)
  have h : scan decoratedSource = .ok ⟨decoratedSource, tokensOf decoratedSource,
      readStatements decoratedSource (tokensOf decoratedSource)⟩ := by
    rw [scan, ht]
    rfl
  exact ⟨h, scan_parts_tokens h⟩

end Parted

end BicepMigration.Template
