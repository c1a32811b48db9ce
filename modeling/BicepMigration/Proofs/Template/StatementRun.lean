import BicepMigration.Proofs.Template.Parted

/-!
# Runs of statements

A statement takes its decorators and the line after them, whatever it declares: a declaration that is read in
full ends where its line ends. So where a statement ends depends on the kinds of tokens only. What a statement
says is not described here.
-/

namespace BicepMigration.Template

section Parts

variable {source : String} {toks rest : List Token}

/-- A condition is read from tokens in parentheses, of which there is at least one. -/
theorem readCondition_cases {c : Fragment} (h : readCondition source toks = some (c, rest)) :
    ∃ opening first others close, toks = opening :: (first :: others ++ close :: rest) ∧ opening.kind = .parenOpen ∧
      breakAtClose 0 (first :: others ++ close :: rest) = some (first :: others, close, rest) ∧
      c = Fragment.ofTokens source first others := by
  unfold readCondition at h
  split at h
  · cases h
  · next opening inside =>
    split at h
    · next hopens =>
      split at h
      · next first others close after hbreak =>
        obtain ⟨rfl, rfl⟩ := Prod.mk.inj (Option.some.inj h)
        obtain rfl := breakAtClose_append hbreak
        exact ⟨opening, first, others, close, rfl, hopens, hbreak, rfl⟩
      · cases h
    · cases h

/-- There is a condition exactly if the word for it comes first. -/
theorem readOptionalCondition_eq_some {c : Option Fragment}
    (h : readOptionalCondition source toks = some (c, rest)) :
    (startsWithWord "if" toks = true ∧ ∃ f, c = some f ∧ readCondition source toks.tail = some (f, rest)) ∨
      (¬ startsWithWord "if" toks = true ∧ c = none ∧ toks = rest) := by
  unfold readOptionalCondition at h
  split at h
  · next hif =>
    obtain ⟨⟨f, after⟩, hf, heq⟩ := Option.map_eq_some_iff.1 h
    obtain ⟨rfl, rfl⟩ := Prod.mk.inj heq
    exact .inl ⟨hif, f, rfl, hf⟩
  · next hif =>
    obtain ⟨rfl, rfl⟩ := Prod.mk.inj (Option.some.inj h)
    exact .inr ⟨hif, rfl, rfl⟩

/-- A body is read from the elements in braces after which the line ends. -/
theorem readBody_cases {body : ObjectLiteral} (h : readBody source toks = some (body, rest)) :
    ∃ opening found close, toks = opening :: (found ++ close :: rest) ∧ opening.kind = .braceOpen ∧
      breakAtClose 0 (found ++ close :: rest) = some (found, close, rest) ∧
      readEntries source (elements found) = some body ∧ atLineEnd rest = true := by
  unfold readBody at h
  split at h
  · cases h
  · next opening inside =>
    split at h
    · next hopens =>
      split at h
      · next found close after hbreak =>
        split at h
        · next hend =>
          obtain ⟨entries, hentries, heq⟩ := Option.map_eq_some_iff.1 h
          obtain ⟨rfl, rfl⟩ := Prod.mk.inj heq
          obtain rfl := breakAtClose_append hbreak
          exact ⟨opening, found, close, rfl, hopens, hbreak, hentries, hend⟩
        · cases h
      · cases h
    · cases h

/-- A declaration has a head, and after that either a bracket and whatever is on its line, or a condition and a body. -/
theorem readDeclaration_cases {d : Declaration} (h : readDeclaration source toks = some (d, rest)) :
    ∃ head after, readHead toks = some (head, after) ∧
      ((after.head?.any (·.kind = .bracketOpen) = true ∧ rest = (breakLine after).2 ∧
          d = ⟨some head.symbol, some head.target, none, none, head.existing, startsLoop after⟩) ∨
        (¬ after.head?.any (·.kind = .bracketOpen) = true ∧ ∃ condition last body,
          readOptionalCondition source after = some (condition, last) ∧ readBody source last = some (body, rest) ∧
          d = ⟨some head.symbol, some head.target, some body, condition, head.existing, false⟩)) := by
  unfold readDeclaration at h
  split at h
  · cases h
  · next head after hhead =>
    refine ⟨head, after, hhead, ?_⟩
    split at h
    · next hbracket =>
      obtain ⟨rfl, rfl⟩ := Prod.mk.inj (Option.some.inj h)
      exact .inl ⟨hbracket, rfl, rfl⟩
    · next hbracket =>
      split at h
      · cases h
      · next condition last hcondition =>
        obtain ⟨⟨body, final⟩, hbody, heq⟩ := Option.map_eq_some_iff.1 h
        obtain ⟨rfl, rfl⟩ := Prod.mk.inj heq
        exact .inr ⟨hbracket, condition, last, body, hcondition, hbody, rfl⟩

end Parts

/-- Tokens in which a break would stand at a close are broken after it. -/
theorem breakOutside_of_breakAtClose (stop : TokenKind → Bool) {depth : Nat} {ts found rest : List Token}
    {close : Token} (h : breakAtClose depth ts = some (found, close, rest)) :
    breakOutside stop (depth + 1) ts =
      (found ++ close :: (breakOutside stop 0 rest).1, (breakOutside stop 0 rest).2) := by
  induction ts generalizing depth found with
  | nil => simp [breakAtClose] at h
  | cons t ts ih =>
    have hd : ¬ (depth + 1 = 0 && stop t.kind) = true := by simp
    rw [breakOutside, if_neg hd]
    unfold breakAtClose at h
    by_cases hc : (depth = 0 && t.kind.closes) = true
    · rw [if_pos hc] at h
      simp only [Option.some.injEq, Prod.mk.injEq] at h
      obtain ⟨rfl, rfl, rfl⟩ := h
      simp only [Bool.and_eq_true, decide_eq_true_eq] at hc
      obtain ⟨rfl, hc⟩ := hc
      have ho : t.kind.opens = false := by
        rw [Bool.eq_false_iff]
        intro ho
        rw [TokenKind.not_closes_of_opens ho] at hc
        cases hc
      have hdepth : t.kind.depthAfter (0 + 1) = 0 := by simp [TokenKind.depthAfter, ho, hc]
      rw [hdepth]
      rfl
    · rw [if_neg hc] at h
      obtain ⟨⟨a, b, c⟩, hr, he⟩ := Option.map_eq_some_iff.1 h
      simp only [Prod.mk.injEq] at he
      obtain ⟨rfl, rfl, rfl⟩ := he
      have hdepth : t.kind.depthAfter (depth + 1) = t.kind.depthAfter depth + 1 := by
        simp only [Bool.and_eq_true, decide_eq_true_eq, not_and, Bool.not_eq_true] at hc
        unfold TokenKind.depthAfter
        by_cases ho : t.kind.opens = true
        · simp [ho]
        · by_cases hcl : t.kind.closes = true
          · have hne : depth ≠ 0 := fun h => by simp [hc h] at hcl
            simp only [ho, hcl, if_true, if_false, Bool.false_eq_true]
            omega
          · simp [ho, hcl]
      rw [hdepth, ih hr]
      rfl

/-- A token that neither breaks nor changes the depth. -/
theorem breakOutside_cons (stop : TokenKind → Bool) {t : Token} (ts : List Token) (hs : stop t.kind = false)
    (ho : t.kind.opens = false) (hc : t.kind.closes = false) :
    breakOutside stop 0 (t :: ts) = (t :: (breakOutside stop 0 ts).1, (breakOutside stop 0 ts).2) := by
  simp [breakOutside, hs, TokenKind.depthAfter, ho, hc]

/-- What follows a line is at its end. -/
theorem atLineEnd_breakLine (toks : List Token) : atLineEnd (breakLine toks).2 = true := by
  cases h : (breakLine toks).2 with
  | nil => rfl
  | cons t ts =>
    have hs := stop_of_breakOutside h
    simpa [atLineEnd] using hs

/-- A line that is at its end has no more tokens. -/
theorem breakLine_of_atLineEnd {toks : List Token} (h : atLineEnd toks = true) : breakLine toks = ([], toks) := by
  cases toks with
  | nil => rfl
  | cons t ts =>
    have hk : t.kind = .newline := by simpa [atLineEnd] using h
    simp [breakLine, breakOutside, hk]

/-- A line and what follows it are all tokens. -/
theorem breakLine_append (toks : List Token) : (breakLine toks).1 ++ (breakLine toks).2 = toks :=
  breakOutside_append ..

/-- The line goes on after a token of it. -/
theorem breakLine_cons {t : Token} (ts : List Token) (hn : t.kind ≠ .newline) (ho : t.kind.opens = false)
    (hc : t.kind.closes = false) : breakLine (t :: ts) = (t :: (breakLine ts).1, (breakLine ts).2) :=
  breakOutside_cons _ ts (by simpa using hn) ho hc

/-- The line goes on after a bracket. -/
theorem breakLine_bracket {t close : Token} {ts found rest : List Token} (ho : t.kind.opens = true)
    (h : breakAtClose 0 ts = some (found, close, rest)) :
    breakLine (t :: ts) = (t :: (found ++ close :: (breakLine rest).1), (breakLine rest).2) := by
  have hn : t.kind ≠ .newline := by
    rintro hn
    simp [hn, TokenKind.opens] at ho
  have hb := breakOutside_of_breakAtClose (· = .newline) h
  rw [breakLine, breakOutside]
  simp only [hn, decide_false, Bool.and_false, Bool.false_eq_true, if_false, TokenKind.depthAfter, ho, if_true, hb]
  rfl

/-- A token of this kind neither ends a line nor is a bracket. -/
def TokenKind.StaysOnLine (kind : TokenKind) : Prop :=
  kind ≠ .newline ∧ kind.opens = false ∧ kind.closes = false

instance (kind : TokenKind) : Decidable kind.StaysOnLine :=
  inferInstanceAs (Decidable (kind ≠ .newline ∧ kind.opens = false ∧ kind.closes = false))

/-- A string does not end its line. -/
theorem IsLiteral.staysOnLine {literal : List Token} {text : String} (h : IsLiteral literal text) :
    ∀ t ∈ literal, t.kind.StaysOnLine := by
  cases h with
  | empty ho hc =>
    rw [List.forall_mem_cons, List.forall_mem_singleton, ho, hc]
    decide
  | text ho hm hc _ =>
    rw [List.forall_mem_cons, List.forall_mem_cons, List.forall_mem_singleton, ho, hm, hc]
    decide

/-- The head of a declaration stands on one line, outside brackets. -/
theorem IsHead.staysOnLine {taken : List Token} {head : DeclarationHead} (h : IsHead taken head)
    (hk : ∀ t, taken.head? = some t → t.kind = .identifier) : ∀ t ∈ taken, t.kind.StaysOnLine := by
  obtain ⟨keyword, name, literal, existing, equals, rfl, hn, -, hl, hw, he⟩ := h.parts
  have hidentifier {t : Token} (ht : t.kind = .identifier) : t.kind.StaysOnLine := by
    rw [ht]
    decide
  have hexisting : ∀ t ∈ existing, t.kind.StaysOnLine := by
    unfold IsExisting at hw
    split at hw
    · obtain ⟨w, rfl, hw⟩ := hw
      exact List.forall_mem_singleton.2 (hidentifier (kind_of_isWord hw))
    · rw [hw]
      exact fun t ht => absurd ht List.not_mem_nil
  have hequals : equals.kind.StaysOnLine := by
    rw [he]
    decide
  refine List.forall_mem_cons.2 ⟨hidentifier (hk keyword rfl), List.forall_mem_cons.2 ⟨hidentifier hn, ?_⟩⟩
  exact List.forall_mem_append.2 ⟨hl.staysOnLine,
    List.forall_mem_append.2 ⟨hexisting, List.forall_mem_singleton.2 hequals⟩⟩

/-- Tokens of the line are no part of what comes after it. -/
theorem breakLine_append_of_staysOnLine {taken : List Token} (h : ∀ t ∈ taken, t.kind.StaysOnLine)
    (rest : List Token) : (breakLine (taken ++ rest)).2 = (breakLine rest).2 := by
  induction taken with
  | nil => rfl
  | cons t taken ih =>
    obtain ⟨⟨hnewline, hopens, hcloses⟩, htaken⟩ := List.forall_mem_cons.1 h
    rw [List.cons_append, breakLine_cons _ hnewline hopens hcloses]
    exact ih htaken

/-- A word does not end its line. -/
theorem breakLine_dropWord (word : String) (toks : List Token) :
    (breakLine (dropWord word toks)).2 = (breakLine toks).2 := by
  unfold dropWord
  split
  · next h =>
    cases toks with
    | nil => rfl
    | cons t ts =>
      have hk : t.kind = .identifier := kind_of_isWord h
      rw [List.tail_cons, breakLine_cons] <;> simp [hk, TokenKind.opens, TokenKind.closes]
  · rfl

/-- The head of a declaration does not end its line. -/
theorem breakLine_readHead {t : Token} {ts rest : List Token} {head : DeclarationHead}
    (ht : t.kind = .identifier) (h : readHead (t :: ts) = some (head, rest)) :
    (breakLine rest).2 = (breakLine (t :: ts)).2 := by
  obtain ⟨taken, heq, hhead⟩ := readHead_cases h
  rw [heq]
  refine (breakLine_append_of_staysOnLine (hhead.staysOnLine fun u hu => ?_) rest).symm
  have hfirst : (taken ++ rest).head? = some u := by rw [List.head?_append, hu, Option.some_or]
  rw [← heq] at hfirst
  rw [← Option.some.inj hfirst, ht]

/-- A condition does not end its line. -/
theorem breakLine_readCondition {source : String} {toks rest : List Token} {c : Fragment}
    (h : readCondition source toks = some (c, rest)) : (breakLine rest).2 = (breakLine toks).2 := by
  obtain ⟨opening, first, others, close, rfl, hopens, hbreak, -⟩ := readCondition_cases h
  rw [breakLine_bracket (by simp [hopens, TokenKind.opens]) hbreak]

/-- A body does not end its line. -/
theorem breakLine_readBody {source : String} {toks rest : List Token} {body : ObjectLiteral}
    (h : readBody source toks = some (body, rest)) : (breakLine toks).2 = rest := by
  obtain ⟨opening, found, close, rfl, hopens, hbreak, -, hend⟩ := readBody_cases h
  rw [breakLine_bracket (by simp [hopens, TokenKind.opens]) hbreak, breakLine_of_atLineEnd hend]

/-- A condition, if there is one, does not end its line. -/
theorem breakLine_readOptionalCondition {source : String} {toks rest : List Token} {c : Option Fragment}
    (h : readOptionalCondition source toks = some (c, rest)) : (breakLine rest).2 = (breakLine toks).2 := by
  rcases readOptionalCondition_eq_some h with ⟨hif, f, -, hf⟩ | ⟨-, -, rfl⟩
  · have hdrop := breakLine_dropWord "if" toks
    rw [dropWord, if_pos hif] at hdrop
    rw [breakLine_readCondition hf, hdrop]
  · rfl

/-- What follows a declaration on its line is passed over. -/
theorem breakLine_readDeclaration {source : String} {t : Token} {ts rest : List Token} {d : Declaration}
    (ht : t.kind = .identifier) (h : readDeclaration source (t :: ts) = some (d, rest)) :
    rest = (breakLine (t :: ts)).2 := by
  obtain ⟨head, after, hhead, ⟨-, rfl, -⟩ | ⟨-, condition, last, body, hcondition, hbody, -⟩⟩ := readDeclaration_cases h
  · exact breakLine_readHead ht hhead
  · rw [← breakLine_readHead ht hhead, ← breakLine_readOptionalCondition hcondition, breakLine_readBody hbody]

/-- A declaration starts with its keyword. -/
theorem exists_keyword {toks : List Token} (h : (kindAt toks = .resource || kindAt toks = .module) = true) :
    ∃ t ts, toks = t :: ts ∧ t.kind = .identifier := by
  cases toks with
  | nil => simp [kindAt] at h
  | cons t ts =>
    refine ⟨t, ts, rfl, ?_⟩
    rcases Decidable.em (t.kind = .identifier) with hk | hk
    · exact hk
    · have hword (word : String) : t.isWord word = false := by simp [Token.isWord, hk]
      simp [kindAt, hword] at h

/-- What a statement declares goes up to the end of its line. -/
theorem readStatementBody_snd (source : String) (toks : List Token) :
    (readStatementBody source toks).2 = (breakLine toks).2 := by
  unfold readStatementBody
  simp only
  split
  · next hk =>
    cases hd : readDeclaration source toks with
    | none => rfl
    | some r =>
      obtain ⟨t, ts, rfl, ht⟩ := exists_keyword hk
      exact breakLine_readDeclaration ht hd
  · rfl

/-- Balanced tokens have balanced lines. -/
theorem balanced_breakLine {toks : List Token} (h : Balanced (kinds toks)) :
    Balanced (kinds (breakLine toks).1) ∧ Balanced (kinds (breakLine toks).2) :=
  balanced_breakOutside (fun k hk => by
    have hk' : k = .newline := by simpa using hk
    rw [hk']
    rfl) h

/-- Newlines are balanced. -/
theorem balanced_newlines {ts : List Token} (h : ∀ t ∈ ts, t.kind = .newline) : Balanced (kinds ts) := by
  induction ts with
  | nil => rfl
  | cons t ts ih =>
    rw [Balanced, kinds_cons, Nest.run_cons, h t (by simp)]
    exact ih fun u hu => h u (List.mem_cons_of_mem _ hu)

/-- What is passed over at the start are newlines. -/
theorem exists_newlines (toks : List Token) :
    ∃ blank, toks = blank ++ skipNewlines toks ∧ ∀ t ∈ blank, t.kind = .newline := by
  refine ⟨toks.takeWhile (·.kind = .newline), (List.takeWhile_append_dropWhile).symm, fun t ht => ?_⟩
  simpa using List.all_eq_true.1 List.all_takeWhile t ht

/-- A line that starts with a decorator, the newlines after it, and the tokens after these. -/
structure DecoratorLine (t : Token) (ts blank rest : List Token) : Prop where
  starts : t.kind = .atSign
  breaks : breakLine (t :: ts ++ (blank ++ rest)) = (t :: ts, blank ++ rest)
  newlines : ∀ u ∈ blank, u.kind = .newline
  head_ne : ∀ u, rest.head? = some u → u.kind ≠ .newline

namespace DecoratorLine

variable {t : Token} {ts blank rest : List Token}

/-- Behind a decorator its line ends. -/
theorem atLineEnd (h : DecoratorLine t ts blank rest) : atLineEnd (blank ++ rest) = true := by
  have hend := atLineEnd_breakLine (t :: ts ++ (blank ++ rest))
  rwa [h.breaks] at hend

/-- A decorator stands on one line, brackets apart. -/
theorem unbroken (h : DecoratorLine t ts blank rest) : Unbroken (· = .newline) 0 (kinds (t :: ts)) := by
  have hline := unbroken_breakOutside (· = .newline) 0 (t :: ts ++ (blank ++ rest))
  rwa [show breakOutside (· = .newline) 0 (t :: ts ++ (blank ++ rest)) = _ from h.breaks] at hline

/-- A decorator of balanced tokens is balanced, and so is what follows. -/
theorem balanced (h : DecoratorLine t ts blank rest) (hb : Balanced (kinds (t :: ts ++ (blank ++ rest)))) :
    Balanced (kinds (t :: ts)) ∧ Balanced (kinds rest) := by
  obtain ⟨hline, hrest⟩ := balanced_breakLine hb
  rw [h.breaks] at hline hrest
  rw [kinds_append] at hrest
  exact ⟨hline, hrest.of_append (balanced_newlines h.newlines)⟩

/-- The line ends before anything that comes after it. -/
theorem blank_ne_nil (h : DecoratorLine t ts blank rest) (hne : rest ≠ []) : blank ≠ [] := by
  rintro rfl
  obtain ⟨u, us, rfl⟩ := List.exists_cons_of_ne_nil hne
  exact h.head_ne u rfl (of_decide_eq_true h.atLineEnd)

end DecoratorLine

/-- Tokens that start with decorators, a line each, and the tokens after all of these. -/
inductive Decorated (source : String) : List Token → List Fragment → List Token → Prop
  | done {rest : List Token} (ends : ∀ t, rest.head? = some t → t.kind ≠ .atSign) : Decorated source rest [] rest
  | line {t : Token} {ts blank rest after : List Token} {decorators : List Fragment}
      (line : DecoratorLine t ts blank rest) (others : Decorated source rest decorators after) :
      Decorated source (t :: ts ++ (blank ++ rest)) (Fragment.ofTokens source t ts :: decorators) after

/-- Decorators are read line by line. -/
theorem decorated_readDecorators (source : String) (toks : List Token) :
    Decorated source toks (readDecorators source toks).1 (readDecorators source toks).2 := by
  fun_induction readDecorators source toks with
  | case1 => exact .done (by simp)
  | case2 t ts ht _ line others ih =>
    obtain ⟨blank, hblank, hnl⟩ := exists_newlines line.2
    have hall : line.1 ++ line.2 = t :: ts := breakLine_append _
    have hfirst : line.1 = t :: line.1.tail := by
      simp only [line, breakLine, breakOutside, ht, decide_false, Bool.and_false, Bool.false_eq_true, if_false,
        List.tail_cons, reduceCtorEq]
    have htoks : t :: ts = t :: line.1.tail ++ (blank ++ skipNewlines line.2) := by rw [← hfirst, ← hblank, hall]
    rw [htoks]
    refine .line ⟨ht, ?_, hnl, fun u hu => ?_⟩ ih
    · rw [← htoks, ← hfirst, ← hblank]
    · obtain ⟨us, hus⟩ := List.head?_eq_some_iff.1 hu
      exact head_skipNewlines hus
  | case3 t ts ht => exact .done fun u hu => Option.some.inj hu ▸ ht

/-- What stands behind decorators has been read of something. -/
theorem Decorated.ne_nil {source : String} {toks after : List Token} {decorators : List Fragment}
    (h : Decorated source toks decorators after) (hne : after ≠ []) : toks ≠ [] := by
  cases h with
  | done => exact hne
  | line => exact List.cons_ne_nil _ _

/-- What stands behind decorators are the last tokens. -/
theorem Decorated.suffix {source : String} {toks after : List Token} {decorators : List Fragment}
    (h : Decorated source toks decorators after) : after <:+ toks := by
  induction h with
  | done => exact List.suffix_refl _
  | line _ _ ih => exact (ih.trans (List.suffix_append _ _)).trans (List.suffix_append _ _)

/-- Decorators are whole lines, so they are balanced. -/
theorem exists_decorators (source : String) {toks : List Token} (hb : Balanced (kinds toks)) :
    ∃ taken, toks = taken ++ (readDecorators source toks).2 ∧ Balanced (kinds taken) := by
  have h := decorated_readDecorators source toks
  generalize (readDecorators source toks).1 = decorators at h
  generalize (readDecorators source toks).2 = after at h ⊢
  induction h with
  | done => exact ⟨[], rfl, rfl⟩
  | @line t ts blank rest after decorators hline _ ih =>
    obtain ⟨hl, hr⟩ := hline.balanced hb
    obtain ⟨taken, rfl, hbt⟩ := ih hr
    refine ⟨t :: ts ++ (blank ++ taken), by simp, ?_⟩
    rw [kinds_append, kinds_append]
    exact hl.append ((balanced_newlines hline.newlines).append hbt)

/-- Behind decorators of balanced tokens the others are balanced. -/
theorem balanced_readDecorators {source : String} {toks : List Token} (hb : Balanced (kinds toks)) :
    Balanced (kinds (readDecorators source toks).2) := by
  obtain ⟨taken, htaken, hbt⟩ := exists_decorators source hb
  rw [htaken, kinds_append] at hb
  exact hb.of_append hbt

/-- What a statement takes is balanced, and a line ends after it. -/
theorem exists_run (source : String) {first : Token} {others : List Token} (hf : first.kind ≠ .newline)
    (hb : Balanced (kinds (first :: others))) :
    ∃ taken rest, others = taken ++ rest ∧ (readStatement source first others).2 = rest ∧
      (readStatement source first others).1.span = ⟨first.span.start, (taken.getLast?.getD first).span.stop⟩ ∧
      Balanced (kinds (first :: taken)) ∧ atLineEnd rest = true := by
  obtain ⟨decorators, hd, hbd⟩ := exists_decorators source hb
  have hbody := (@balanced_readDecorators source) hb
  have hrest : (readStatement source first others).2 = (breakLine (readDecorators source (first :: others)).2).2 :=
    readStatementBody_snd ..
  have hall : first :: others = decorators ++ (breakLine (readDecorators source (first :: others)).2).1 ++
      (readStatement source first others).2 := by
    rw [hrest, List.append_assoc, breakLine_append, ← hd]
  have hlt := length_readStatement_lt source others hf
  generalize hr : (readStatement source first others).2 = rest at hall hrest hlt
  have hbrun := hbd.append (balanced_breakLine hbody).1
  rw [← kinds_append] at hbrun
  generalize decorators ++ (breakLine (readDecorators source (first :: others)).2).1 = run at hall hbrun
  cases run with
  | nil =>
    rw [List.nil_append] at hall
    rw [hall] at hlt
    exact absurd hlt (Nat.lt_irrefl _)
  | cons t taken =>
    rw [List.cons_append] at hall
    obtain ⟨rfl, rfl⟩ := List.cons.inj hall
    refine ⟨taken, rest, rfl, rfl, ?_, hbrun, ?_⟩
    · have hspan : (readStatement source first (taken ++ rest)).1.span = ⟨first.span.start,
          (((taken ++ rest).take ((taken ++ rest).length -
            (readStatement source first (taken ++ rest)).2.length)).getLast?.getD first).span.stop⟩ := rfl
      have htake : (taken ++ rest).take ((taken ++ rest).length - rest.length) = taken := by
        rw [List.length_append, Nat.add_sub_cancel, List.take_left]
      rw [hspan, hr, htake]
    · rw [hrest]
      exact atLineEnd_breakLine _

/-- Behind the head of a declaration stand the last tokens. -/
theorem suffix_readHead {toks rest : List Token} {head : DeclarationHead} (h : readHead toks = some (head, rest)) :
    rest <:+ toks := by
  obtain ⟨taken, rfl, -⟩ := readHead_cases h
  exact List.suffix_append taken rest

/-- A declaration with a body, after its equals sign: the condition if there is one, and the body in braces. -/
structure BodyParts (source : String) (toks : List Token) (condition : Option Fragment) (opening : Token)
    (found : List Token) (close : Token) (rest : List Token) (body : ObjectLiteral) : Prop where
  condition : readOptionalCondition source toks = some (condition, opening :: (found ++ close :: rest))
  opens : opening.kind = .braceOpen
  breaks : breakAtClose 0 (found ++ close :: rest) = some (found, close, rest)
  entries : readEntries source (elements found) = some body
  ends : atLineEnd rest = true

/-- A declaration with a body has its brackets with the body between them. -/
theorem exists_bodyParts {source : String} {toks rest : List Token} {d : Declaration} {body : ObjectLiteral}
    (h : readDeclaration source toks = some (d, rest)) (hb : d.body = some body) :
    ∃ head after opening found close, readHead toks = some (head, after) ∧
      BodyParts source after d.condition opening found close rest body := by
  obtain ⟨head, after, hhead, ⟨-, -, rfl⟩ | ⟨-, condition, last, body', hcondition, hbody, rfl⟩⟩ :=
    readDeclaration_cases h
  · cases hb
  · obtain rfl := Option.some.inj hb
    obtain ⟨opening, found, close, rfl, hopens, hbreak, hentries, hend⟩ := readBody_cases hbody
    exact ⟨head, after, opening, found, close, hhead, hcondition, hopens, hbreak, hentries, hend⟩

/-- Behind a condition stand the last tokens. -/
theorem suffix_readCondition {source : String} {toks rest : List Token} {c : Fragment}
    (h : readCondition source toks = some (c, rest)) : rest <:+ toks := by
  obtain ⟨opening, first, others, close, rfl, -⟩ := readCondition_cases h
  exact ⟨opening :: (first :: others ++ [close]), by simp⟩

/-- The same if there is perhaps no condition. -/
theorem suffix_readOptionalCondition {source : String} {toks rest : List Token} {c : Option Fragment}
    (h : readOptionalCondition source toks = some (c, rest)) : rest <:+ toks := by
  rcases readOptionalCondition_eq_some h with ⟨-, f, -, hf⟩ | ⟨-, -, rfl⟩
  · exact (suffix_readCondition hf).trans (List.tail_suffix toks)
  · exact List.suffix_refl _

/-- Only a declaration that is read in full has a body. -/
theorem readDeclaration_of_body {source : String} {toks : List Token} {body : ObjectLiteral}
    (h : (readStatementBody source toks).1.body = some body) :
    (kindAt toks = .resource ∨ kindAt toks = .module) ∧
      readDeclaration source toks = some (readStatementBody source toks) := by
  unfold readStatementBody at h ⊢
  simp only [Bool.or_eq_true, decide_eq_true_eq] at h ⊢
  by_cases hk : kindAt toks = .resource ∨ kindAt toks = .module
  · rw [if_pos hk] at h ⊢
    cases hd : readDeclaration source toks with
    | none =>
      rw [hd] at h
      simp [opaqueDeclaration] at h
    | some r => exact ⟨hk, rfl⟩
  · rw [if_neg hk] at h
    simp [opaqueDeclaration] at h

/-- Behind decorators stand the last tokens. -/
theorem suffix_readDecorators (source : String) (toks : List Token) : (readDecorators source toks).2 <:+ toks :=
  (decorated_readDecorators source toks).suffix

/-- A statement with a body ends with a close. -/
theorem exists_close {source : String} {first : Token} {others : List Token} {body : ObjectLiteral}
    (hb : (readStatement source first others).1.body = some body) :
    ∃ before close, first :: others = before ++ close :: (readStatement source first others).2 ∧
      close.kind.closes = true := by
  have hrest : (readStatement source first others).2 =
      (readStatementBody source (readDecorators source (first :: others)).2).2 := rfl
  have hsuffix := suffix_readDecorators source (first :: others)
  have hbody : (readStatementBody source (readDecorators source (first :: others)).2).1.body = some body := hb
  rw [hrest]
  generalize (readDecorators source (first :: others)).2 = toks at hbody hsuffix
  obtain ⟨-, hd⟩ := readDeclaration_of_body hbody
  generalize readStatementBody source toks = r at hbody hd
  obtain ⟨d, rest⟩ := r
  obtain ⟨head, after, opening, found, close, hh, hparts⟩ := exists_bodyParts hd hbody
  obtain ⟨before, hbefore⟩ := (suffix_readOptionalCondition hparts.condition).trans
    ((suffix_readHead hh).trans hsuffix)
  refine ⟨before ++ opening :: found, close, ?_, closes_of_breakAtClose hparts.breaks⟩
  rw [← hbefore]
  simp

/-- The tokens up to the end of a line start all tokens. -/
theorem prefix_breakLine (ts : List Token) : (breakLine ts).1 <+: ts := ⟨(breakLine ts).2, breakLine_append ts⟩

/-- Behind a line stand the last tokens. -/
theorem suffix_breakLine (ts : List Token) : (breakLine ts).2 <:+ ts := ⟨(breakLine ts).1, breakLine_append ts⟩

/-- Behind newlines stand the last tokens. -/
theorem suffix_skipNewlines (ts : List Token) : skipNewlines ts <:+ ts := List.dropWhile_suffix _

/-- What comes after a statement ends all tokens. -/
theorem suffix_readStatement (source : String) (first : Token) (others : List Token) :
    (readStatement source first others).2 <:+ first :: others := by
  have h := (suffix_breakLine (readDecorators source (first :: others)).2).trans
    (suffix_readDecorators source (first :: others))
  rwa [← readStatementBody_snd source] at h

section Reading

/-- A statement, from its parts. -/
theorem fst_readStatement (source : String) (first : Token) (others : List Token) :
    (readStatement source first others).1 =
      let declared := (readStatementBody source (readDecorators source (first :: others)).2).1
      let taken := others.take (others.length - (readStatement source first others).2.length)
      ⟨kindAt (readDecorators source (first :: others)).2, declared.symbol, declared.target,
        ⟨first.span.start, (taken.getLast?.getD first).span.stop⟩, (readDecorators source (first :: others)).1,
        first.line, declared.body, declared.condition, declared.existing, declared.looped⟩ := rfl

variable {source : String} {first : Token} {others blank : List Token}

/-- Newlines before tokens are passed over. -/
theorem skipNewlines_append_of_newlines (hb : ∀ t ∈ blank, t.kind = .newline) (toks : List Token) :
    skipNewlines (blank ++ toks) = skipNewlines toks := by
  induction blank with
  | nil => rfl
  | cons t blank ih =>
    rw [skipNewlines, List.cons_append, List.dropWhile_cons, if_pos (by simp [hb t])]
    exact ih fun u hu => hb u (List.mem_cons_of_mem _ hu)

/-- Newlines are no statement. -/
theorem readStatements_newlines (hb : ∀ t ∈ blank, t.kind = .newline) : readStatements source blank = [] := by
  have hskip : skipNewlines blank = [] := by
    have h := skipNewlines_append_of_newlines hb []
    rwa [List.append_nil] at h
  rw [readStatements]
  split
  · rfl
  · next h =>
    rw [hskip] at h
    cases h

/-- Newlines are skipped up to a token that is none. -/
theorem skipNewlines_cons (hb : ∀ t ∈ blank, t.kind = .newline) (hf : first.kind ≠ .newline) :
    skipNewlines (blank ++ first :: others) = first :: others := by
  rw [skipNewlines_append_of_newlines hb, skipNewlines, List.dropWhile_cons_of_neg (by simp [hf])]

/-- The first statement after newlines, and the others. -/
theorem readStatements_cons (hb : ∀ t ∈ blank, t.kind = .newline) (hf : first.kind ≠ .newline) :
    readStatements source (blank ++ first :: others) =
      (readStatement source first others).1 :: readStatements source (readStatement source first others).2 := by
  have hskip := (@skipNewlines_cons _ others _) hb hf
  rw [readStatements]
  split
  · next h =>
    rw [hskip] at h
    cases h
  · next h =>
    rw [hskip] at h
    obtain ⟨rfl, rfl⟩ := List.cons.inj h
    rfl

/-- What holds of newlines, and of a statement before other tokens if it holds of these, holds of all tokens. -/
theorem induction_on_statements (source : String) {motive : List Token → Prop}
    (newlines : ∀ blank, (∀ t ∈ blank, t.kind = .newline) → motive blank)
    (statement : ∀ blank first others, (∀ t ∈ blank, t.kind = .newline) → first.kind ≠ .newline →
      motive (readStatement source first others).2 → motive (blank ++ first :: others)) (toks : List Token) :
    motive toks := by
  obtain ⟨blank, hblank, hnl⟩ := exists_newlines toks
  cases hskip : skipNewlines toks with
  | nil =>
    rw [hblank, hskip, List.append_nil]
    exact newlines blank hnl
  | cons first others =>
    have hfirst := head_skipNewlines hskip
    have hlt := length_readStatement_lt source others hfirst
    have hle := hskip ▸ length_skipNewlines_le toks
    rw [hblank, hskip]
    exact statement blank first others hnl hfirst (induction_on_statements source newlines statement _)
termination_by toks.length

end Reading

end BicepMigration.Template
