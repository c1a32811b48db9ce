import BicepMigration.Proofs.Template.Change
import BicepMigration.Proofs.Template.Pieces
import BicepMigration.Template.SymbolUse

/-!
# Uses of symbols as changes

A use takes an identifier and the members after it. Where some uses are to be replaced, the lexemes are parted
into those uses and all other lexemes; the edits of these changes are those of the uses, one by one. A use does
not go on over a place where no name meets a point, so the changes of a part can be told apart from the others.
-/

namespace BicepMigration.Template

open Text

/-- The members at the start, a point and a name each, and the lexemes after them. -/
def splitMembers : List Lexeme → List Lexeme × List Lexeme
  | point :: name :: rest =>
    if point.kind = .dot && name.kind = .identifier then
      let (members, after) := splitMembers rest
      (point :: name :: members, after)
    else ([], point :: name :: rest)
  | ls => ([], ls)

/-- Members and what follows them are all lexemes. -/
theorem splitMembers_append (ls : List Lexeme) : (splitMembers ls).1 ++ (splitMembers ls).2 = ls := by
  fun_induction splitMembers ls with
  | case1 point name rest hk members after hs ih => simp_all
  | case2 => rfl
  | case3 => rfl

/-- Behind members there are at most all lexemes. -/
theorem length_splitMembers_le (ls : List Lexeme) : (splitMembers ls).2.length ≤ ls.length := by
  have h := congrArg List.length (splitMembers_append ls)
  rw [List.length_append] at h
  omega

/-- Points and names in turn. -/
inductive IsMembers : List Lexeme → Prop where
  | nil : IsMembers []
  | cons {point name : Lexeme} {rest : List Lexeme} : point.kind = .dot → name.kind = .identifier →
      IsMembers rest → IsMembers (point :: name :: rest)

/-- What is cut off are members. -/
theorem isMembers_splitMembers (ls : List Lexeme) : IsMembers (splitMembers ls).1 := by
  fun_induction splitMembers ls with
  | case1 point name rest hk members after hs ih =>
    simp only [Bool.and_eq_true, decide_eq_true_eq] at hk
    rw [hs] at ih
    exact .cons hk.1 hk.2 ih
  | case2 => exact .nil
  | case3 => exact .nil

/-- A point and a name are a member. -/
theorem memberTokens_of_members {here : Cursor} {point name : Lexeme} {rest : List Lexeme}
    (hk : (point.kind = .dot && name.kind = .identifier) = true) :
    memberTokens (tokensAt here (point :: name :: rest)) =
      Token.ofChars name.kind ((here.advance (point.gap ++ point.text)).advance name.gap) name.text ::
        memberTokens (tokensAt ((here.advance (point.gap ++ point.text)).advance (name.gap ++ name.text)) rest) := by
  simp only [tokensAt, memberTokens]
  exact if_pos hk

/-- Anything else is none. -/
theorem memberTokens_of_not_members {here : Cursor} {point name : Lexeme} {rest : List Lexeme}
    (hk : ¬ (point.kind = .dot && name.kind = .identifier) = true) :
    memberTokens (tokensAt here (point :: name :: rest)) = [] := by
  simp only [tokensAt, memberTokens]
  exact if_neg hk

/-- A single lexeme is no member. -/
theorem memberTokens_of_short {here : Cursor} {ls : List Lexeme}
    (h : ∀ point name rest, ls = point :: name :: rest → False) : memberTokens (tokensAt here ls) = [] := by
  match ls with
  | [] => rfl
  | [l] => rfl
  | point :: name :: rest => exact (h point name rest rfl).elim

/-- A use ends where its last member does. -/
theorem stop_getLast_memberTokens (here : Cursor) (first : Lexeme) (ls : List Lexeme) :
    ((memberTokens (tokensAt (here.advance (first.gap ++ first.text)) ls)).getLast?.getD
      (Token.ofChars first.kind (here.advance first.gap) first.text)).span.stop =
      (runSpan here.offset first (splitMembers ls).1).stop := by
  have hstop : (Token.ofChars first.kind (here.advance first.gap) first.text).span.stop =
      (runSpan here.offset first []).stop := by
    simp [runSpan, Cursor.advance_offset, Nat.add_assoc]
  fun_induction splitMembers ls generalizing here first with
  | case1 point name rest hk members after hs ih =>
    have hl := ih ((here.advance (first.gap ++ first.text)).advance (point.gap ++ point.text)) name
      (by simp [runSpan, Cursor.advance_offset, Nat.add_assoc])
    rw [hs] at hl
    rw [memberTokens_of_members hk, List.getLast?_cons, Option.getD_some, hl]
    simp [runSpan, Cursor.advance_offset, Nat.add_assoc]
  | case2 point name rest hk =>
    rw [memberTokens_of_not_members hk]
    exact hstop
  | case3 ls hne =>
    rw [memberTokens_of_short hne]
    exact hstop

/-- The use that starts with a token, if one of the symbols is used there. -/
def useAt? (symbols : List String) (before : List Token) (t : Token) (after : List Token) : Option SymbolUse :=
  if t.kind = .identifier && symbols.contains t.text && isValuePosition before after then
    some (SymbolUse.at before t after)
  else none

/-- A token is a use if it names a symbol where a value stands. -/
theorem useAt?_eq_some_iff {symbols : List String} {before after : List Token} {t : Token} {use : SymbolUse} :
    useAt? symbols before t after = some use ↔
      t.kind = .identifier ∧ t.text ∈ symbols ∧ isValuePosition before after = true ∧
        use = SymbolUse.at before t after := by
  rw [@eq_comm _ use]
  simp only [useAt?, Option.ite_none_right_eq_some, Option.some.injEq, Bool.and_eq_true, decide_eq_true_eq,
    List.contains_iff_mem, and_assoc]

/-- The use at the first token comes before the others. -/
theorem usesFrom_cons (symbols : List String) (before : List Token) (t : Token) (after : List Token) :
    usesFrom symbols before (t :: after) =
      (useAt? symbols before t after).toList ++ usesFrom symbols (t :: before) after := by
  simp only [usesFrom, useAt?]
  split <;> rfl

/-- What is written in place of a use: a first lexeme and the others. -/
abbrev Replacements := SymbolUse → Option (Lexeme × List Lexeme)

/-- The changes that replace uses in lexemes at a place, given the tokens before those in reverse order. -/
def useChanges (symbols : List String) (replace : Replacements) (before : List Token) (here : Cursor) :
    List Lexeme → List Change
  | [] => []
  | l :: ls =>
    let t := Token.ofChars l.kind (here.advance l.gap) l.text
    let next := here.advance (l.gap ++ l.text)
    match (useAt? symbols before t (tokensAt next ls)).bind replace with
    | none => .keep l :: useChanges symbols replace (t :: before) next ls
    | some (new, more) =>
      let members := (splitMembers ls).1
      have := length_splitMembers_le ls
      .swap l members new more ::
        useChanges symbols replace ((tokensAt next members).reverse ++ t :: before)
          (next.advance (written members)) (splitMembers ls).2
termination_by ls => ls.length

variable {symbols : List String} {replace : Replacements}

/-- A lexeme that is no use, or has no replacement, is kept. -/
theorem useChanges_keep {before : List Token} {here : Cursor} {l : Lexeme} {ls : List Lexeme}
    (h : (useAt? symbols before (Token.ofChars l.kind (here.advance l.gap) l.text)
      (tokensAt (here.advance (l.gap ++ l.text)) ls)).bind replace = none) :
    useChanges symbols replace before here (l :: ls) =
      .keep l :: useChanges symbols replace (Token.ofChars l.kind (here.advance l.gap) l.text :: before)
        (here.advance (l.gap ++ l.text)) ls := by
  rw [useChanges]
  simp only [h]

/-- A use with a replacement is exchanged with its members. -/
theorem useChanges_swap {before : List Token} {here : Cursor} {l new : Lexeme} {ls more : List Lexeme}
    (h : (useAt? symbols before (Token.ofChars l.kind (here.advance l.gap) l.text)
      (tokensAt (here.advance (l.gap ++ l.text)) ls)).bind replace = some (new, more)) :
    useChanges symbols replace before here (l :: ls) =
      .swap l (splitMembers ls).1 new more ::
        useChanges symbols replace
          ((tokensAt (here.advance (l.gap ++ l.text)) (splitMembers ls).1).reverse ++
            Token.ofChars l.kind (here.advance l.gap) l.text :: before)
          ((here.advance (l.gap ++ l.text)).advance (written (splitMembers ls).1)) (splitMembers ls).2 := by
  rw [useChanges]
  simp only [h]

/-- The changes are changes of all lexemes. -/
theorem olds_useChanges (before : List Token) (here : Cursor) (ls : List Lexeme) :
    olds (useChanges symbols replace before here ls) = ls := by
  fun_induction useChanges symbols replace before here ls with
  | case1 => rfl
  | case2 before here l ls t next hr ih => rw [olds_cons, ih, Change.old, List.singleton_append]
  | case3 before here l ls t next new more hr members _ ih =>
    rw [olds_cons, ih, Change.old, List.cons_append, splitMembers_append]

/-- Members are no uses. -/
theorem usesFrom_members {members : List Lexeme} (hm : IsMembers members) (before : List Token) (here : Cursor)
    (rest : List Token) :
    usesFrom symbols before (tokensAt here members ++ rest) =
      usesFrom symbols ((tokensAt here members).reverse ++ before) rest := by
  induction hm generalizing before here with
  | nil => rfl
  | @cons point name others hp hn _ ih =>
    have hpoint (t : Token) (after : List Token) (ht : t.kind = .dot) : useAt? symbols before t after = none := by
      simp [useAt?, ht]
    have hname (p t : Token) (after : List Token) (hp : p.kind = .dot) :
        useAt? symbols (p :: before) t after = none := by
      simp [useAt?, isValuePosition, hp]
    simp only [tokensAt, List.cons_append]
    rw [usesFrom_cons, hpoint _ _ hp, usesFrom_cons, hname _ _ _ hp]
    simp only [Option.toList_none, List.nil_append]
    rw [ih]
    simp

/-- The span of a use goes from its name to its last member. -/
theorem span_at (before : List Token) (here : Cursor) (l : Lexeme) (ls : List Lexeme) :
    (SymbolUse.at before (Token.ofChars l.kind (here.advance l.gap) l.text)
      (tokensAt (here.advance (l.gap ++ l.text)) ls)).span = runSpan here.offset l (splitMembers ls).1 := by
  have hstop := stop_getLast_memberTokens here l ls
  simp only [SymbolUse.at]
  rw [hstop]
  simp [runSpan, Cursor.advance_offset]

/-- The edit for a use, if it is replaced. -/
def useEdit? (replace : Replacements) (use : SymbolUse) : Option Edit :=
  (replace use).map fun (new, more) => ⟨use.span, String.ofList (bare (new :: more))⟩

/-- The edits of the changes are those of the uses, in order. -/
theorem editsFrom_useChanges (before : List Token) (here : Cursor) (ls : List Lexeme) :
    editsFrom here.offset (useChanges symbols replace before here ls) =
      (usesFrom symbols before (tokensAt here ls)).filterMap (useEdit? replace) := by
  fun_induction useChanges symbols replace before here ls with
  | case1 => rfl
  | case2 before here l ls t next hr ih =>
    have hoffset : next.offset = here.offset + byteLength (written [l]) := by
      simp [next, Cursor.advance_offset]
    have hnone : (useAt? symbols before t (tokensAt next ls)).toList.filterMap (useEdit? replace) = [] := by
      cases hu : useAt? symbols before t (tokensAt next ls) with
      | none => rfl
      | some use =>
        have hn : replace use = none := by simpa [hu] using hr
        simp [useEdit?, hn]
    rw [editsFrom_cons, tokensAt, usesFrom_cons, List.filterMap_append, hnone, ← ih, hoffset]
    rfl
  | case3 before here l ls t next new more hr members _ ih =>
    obtain ⟨use, hu, hnew⟩ := Option.bind_eq_some_iff.1 hr
    have hspan : use.span = runSpan here.offset l members := by
      obtain ⟨-, -, -, rfl⟩ := useAt?_eq_some_iff.1 hu
      exact span_at before here l ls
    have hoffset : (next.advance (written members)).offset = here.offset + byteLength (written (l :: members)) := by
      simp [next, Cursor.advance_offset, Nat.add_assoc]
    have hrest : usesFrom symbols (t :: before) (tokensAt next ls) = usesFrom symbols
        ((tokensAt next members).reverse ++ t :: before)
        (tokensAt (next.advance (written members)) (splitMembers ls).2) := by
      rw [← usesFrom_members (isMembers_splitMembers ls), ← tokensAt_append, splitMembers_append]
    rw [editsFrom_cons, tokensAt, usesFrom_cons, hu, hrest, List.filterMap_append, ← ih, hoffset]
    simp only [Option.toList_some, List.filterMap_cons, List.filterMap_nil, useEdit?, hnew, Option.map_some]
    rw [hspan]
    rfl

/-- No name meets a point where one list ends and the other starts. -/
def Apart (a b : List Lexeme) : Prop :=
  ∀ x y, a.getLast? = some x → b.head? = some y →
    ¬ (x.kind = .identifier ∧ y.kind = .dot) ∧ ¬ (x.kind = .dot ∧ y.kind = .identifier)

/-- What stands apart from a run stands apart from the end of it. -/
theorem Apart.tail {l : Lexeme} {a b : List Lexeme} (h : Apart (l :: a) b) : Apart a b := by
  cases a with
  | nil => exact fun x y hx => by simp at hx
  | cons m ms =>
    intro x y hx hy
    exact h x y (by rw [List.getLast?_cons_cons]; exact hx) hy

/-- The same for the second of two runs. -/
theorem Apart.of_append {a b c : List Lexeme} (h : Apart (a ++ b) c) : Apart b c := by
  induction a with
  | nil => exact h
  | cons l ls ih => exact ih h.tail

/-- Members do not go on over such a place. -/
theorem splitMembers_of_apart {l : Lexeme} {a b : List Lexeme} (hl : l.kind = .identifier)
    (h : Apart (l :: a) b) : splitMembers (a ++ b) = ((splitMembers a).1, (splitMembers a).2 ++ b) := by
  match a with
  | [] =>
    cases b with
    | nil => rfl
    | cons y ys =>
      have hy : y.kind ≠ .dot := fun hy => (h l y rfl rfl).1 ⟨hl, hy⟩
      cases ys with
      | nil => rfl
      | cons z zs => simp [splitMembers, hy]
  | [x] =>
    cases b with
    | nil => rfl
    | cons y ys =>
      have hxy : ¬ (x.kind = .dot ∧ y.kind = .identifier) := (h x y rfl rfl).2
      simp only [List.singleton_append, splitMembers, Bool.and_eq_true, decide_eq_true_eq]
      rw [if_neg hxy]
  | x :: y :: a =>
    by_cases hk : (x.kind = .dot && y.kind = .identifier) = true
    · have hy : y.kind = .identifier := by
        simp only [Bool.and_eq_true, decide_eq_true_eq] at hk
        exact hk.2
      simp only [List.cons_append]
      rw [splitMembers, if_pos hk, splitMembers, if_pos hk, splitMembers_of_apart hy h.tail.tail]
    · simp only [List.cons_append]
      rw [splitMembers, if_neg hk, splitMembers, if_neg hk]
      rfl

/-- The changes of lexemes are parted where no use goes on. -/
theorem useChanges_append {a b : List Lexeme} (h : Apart a b) (before : List Token) (here : Cursor) :
    ∃ cs, useChanges symbols replace before here (a ++ b) =
      cs ++ useChanges symbols replace ((tokensAt here a).reverse ++ before) (here.advance (written a)) b ∧
      olds cs = a := by
  match a with
  | [] => exact ⟨[], rfl, rfl⟩
  | l :: a =>
    rw [List.cons_append]
    cases hr : (useAt? symbols before (Token.ofChars l.kind (here.advance l.gap) l.text)
        (tokensAt (here.advance (l.gap ++ l.text)) (a ++ b))).bind replace with
    | none =>
      obtain ⟨cs, hcs, holds⟩ := useChanges_append h.tail
        (Token.ofChars l.kind (here.advance l.gap) l.text :: before) (here.advance (l.gap ++ l.text))
      refine ⟨.keep l :: cs, ?_, by rw [olds_cons, holds]; rfl⟩
      rw [useChanges_keep hr, hcs]
      simp [tokensAt, Cursor.advance_append]
    | some r =>
      obtain ⟨new, more⟩ := r
      have hl : l.kind = .identifier := by
        obtain ⟨use, hu, -⟩ := Option.bind_eq_some_iff.1 hr
        exact (useAt?_eq_some_iff.1 hu).1
      have hsplit := splitMembers_of_apart hl h
      have hrest : Apart (splitMembers a).2 b := by
        have ht := h.tail
        rw [← splitMembers_append a] at ht
        exact ht.of_append
      have := length_splitMembers_le a
      obtain ⟨cs, hcs, holds⟩ := useChanges_append hrest
        ((tokensAt (here.advance (l.gap ++ l.text)) (splitMembers a).1).reverse ++
          Token.ofChars l.kind (here.advance l.gap) l.text :: before)
        ((here.advance (l.gap ++ l.text)).advance (written (splitMembers a).1))
      refine ⟨.swap l (splitMembers a).1 new more :: cs, ?_, ?_⟩
      · have happend := splitMembers_append a
        rw [useChanges_swap hr, hsplit, hcs]
        generalize splitMembers a = parts at happend
        subst happend
        simp [tokensAt, tokensAt_append, Cursor.advance_append]
      · rw [olds_cons, holds, Change.old, List.cons_append, splitMembers_append]
termination_by a.length

/-- Newlines are kept. -/
theorem useChanges_newlines {blank : List Lexeme} (h : ∀ l ∈ blank, l.kind = .newline) (before : List Token)
    (here : Cursor) (ls : List Lexeme) :
    useChanges symbols replace before here (blank ++ ls) =
      kept blank ++ useChanges symbols replace ((tokensAt here blank).reverse ++ before)
        (here.advance (written blank)) ls := by
  induction blank generalizing before here with
  | nil => rfl
  | cons l blank ih =>
    have hk : l.kind = .newline := h l (by simp)
    have hnone : (useAt? symbols before (Token.ofChars l.kind (here.advance l.gap) l.text)
        (tokensAt (here.advance (l.gap ++ l.text)) (blank ++ ls))).bind replace = none := by
      simp [useAt?, hk]
    rw [List.cons_append, useChanges_keep hnone, ih fun m hm => h m (List.mem_cons_of_mem _ hm)]
    simp [kept, tokensAt, Cursor.advance_append]

/-- Lexemes are exchanged for those that are written in place of a use of a symbol. -/
theorem exists_use_of_swap {before : List Token} {here : Cursor} {ls others more : List Lexeme} {first new : Lexeme}
    (h : .swap first others new more ∈ useChanges symbols replace before here ls) :
    String.ofList first.text ∈ symbols ∧
      ∃ use : SymbolUse, use.symbol = String.ofList first.text ∧ replace use = some (new, more) := by
  fun_induction useChanges symbols replace before here ls with
  | case1 => cases h
  | case2 before here l ls t next hr ih =>
    rcases List.mem_cons.1 h with h | h
    · cases h
    · exact ih h
  | case3 before here l ls t next new more hr members _ ih =>
    rcases List.mem_cons.1 h with h | h
    · obtain ⟨rfl, rfl, rfl, rfl⟩ := Change.swap.inj h
      obtain ⟨use, hu, hnew⟩ := Option.bind_eq_some_iff.1 hr
      obtain ⟨-, hmem, -, rfl⟩ := useAt?_eq_some_iff.1 hu
      exact ⟨hmem, _, rfl, hnew⟩
    · exact ih h

/-- The change keeps a lexeme, or exchanges a name with its members. -/
def Change.TakesUse : Change → Prop
  | .keep _ => True
  | .swap first others _ _ => first.kind = .identifier ∧ IsMembers others

/-- What is exchanged is a use. -/
theorem takesUse_useChanges (before : List Token) (here : Cursor) (ls : List Lexeme) :
    ∀ c ∈ useChanges symbols replace before here ls, c.TakesUse := by
  fun_induction useChanges symbols replace before here ls with
  | case1 => simp
  | case2 before here l ls t next hr ih =>
    intro c hc
    rcases List.mem_cons.1 hc with rfl | hc
    · trivial
    · exact ih c hc
  | case3 before here l ls t next new more hr members _ ih =>
    intro c hc
    rcases List.mem_cons.1 hc with rfl | hc
    · refine ⟨?_, isMembers_splitMembers ls⟩
      obtain ⟨use, hu, -⟩ := Option.bind_eq_some_iff.1 hr
      exact (useAt?_eq_some_iff.1 hu).1
    · exact ih c hc

/-- A name with its members ends with a name. -/
theorem IsMembers.kind_getLast {first last : Lexeme} {others : List Lexeme} (hf : first.kind = .identifier)
    (h : IsMembers others) (hl : (first :: others).getLast? = some last) : last.kind = .identifier := by
  induction h generalizing first with
  | nil =>
    obtain rfl : first = last := by simpa using hl
    exact hf
  | @cons point name rest hp hn _ ih => exact ih hn (by simpa using hl)

/-- A use does not end where lexemes end with another token. -/
theorem stop_lt_of_takesUse {offset : Nat} {cs : List Change} {last : Lexeme} {e : Edit}
    (hc : ∀ c ∈ cs, c.TakesUse) (ht : ∀ l ∈ olds cs, l.text ≠ []) (hl : (olds cs).getLast? = some last)
    (hk : last.kind ≠ .identifier) (he : e ∈ editsFrom offset cs) :
    e.span.stop < offset + byteLength (written (olds cs)) := by
  induction cs generalizing offset with
  | nil => simp at he
  | cons c cs ih =>
    rw [editsFrom_cons, List.mem_append] at he
    rw [olds_cons] at hl ht
    rw [olds_cons, written_append, byteLength_append, ← Nat.add_assoc]
    cases hcs : olds cs with
    | nil =>
      -- the last change ends with a name, so it is no use
      have hempty : editsFrom (offset + byteLength (written c.old)) cs = [] := by
        cases cs with
        | nil => rfl
        | cons d ds => cases d <;> simp [Change.old] at hcs
      rw [hempty] at he
      cases c with
      | keep l => simp [Change.edit?] at he
      | swap first others new more =>
        obtain ⟨hf, hm⟩ := hc (.swap first others new more) (by simp)
        rw [hcs, List.append_nil] at hl
        exact absurd (hm.kind_getLast hf hl) hk
    | cons l ls =>
      have hpos : 0 < byteLength (written (l :: ls)) := by
        have hl' := byteLength_pos (ht l (by simp [hcs]))
        rw [written_cons, byteLength_append, byteLength_append]
        omega
      rcases he with he | he
      · have hcov : c.Covers offset e := ⟨e, by simpa using he, .inl rfl⟩
        have := hcov.bounds
        omega
      · rw [← hcs]
        refine ih (fun d hd => hc d (List.mem_cons_of_mem _ hd)) (fun m hm => ht m ?_) ?_ he
        · exact List.mem_append_right _ hm
        · rw [hcs] at hl ⊢
          rw [List.getLast?_append] at hl
          simpa using hl

end BicepMigration.Template
