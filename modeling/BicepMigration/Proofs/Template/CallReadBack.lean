import BicepMigration.Proofs.Template.FragmentText
import BicepMigration.Proofs.Template.Locator
import BicepMigration.Proofs.Template.ReadBack
import BicepMigration.Proofs.Template.RewrittenStatements

/-!
# Module calls are read back

What is written for a module call is read as one statement, which declares a module: its decorators and its condition
have the text that they are written with, and its body is read from what is written for the body of the call. The
locator must be plain, because nothing in it is encoded.
-/

namespace BicepMigration.Template

open Text

variable {source : String} {here : Cursor}

/-- A statement is read from what is written for a module call. -/
structure ReadsCall (source : String) (leaves : Leaves) (call : ModuleCall) (s : Statement) : Prop where
  kind : s.kind = .module
  symbol : s.symbol = some call.symbol
  target : s.target = some call.locator
  decorators : s.decorators.map (·.raw) = call.decorators
  condition : s.condition.map (·.raw) = call.condition
  existing : s.existing = false
  looped : s.looped = false
  body : ∃ entries, s.body = some entries ∧ List.Forall₂ (EntryReadFrom source leaves 1) call.body entries

/-- The tokens of lexemes have their text as a fragment. -/
theorem exists_raw {gap : List Char} {l : Lexeme} {ls : List Lexeme} (hp : Placed source here (regap gap (l :: ls))) :
    ∃ first others, tokensAt here (regap gap (l :: ls)) = first :: others ∧ first.kind = l.kind ∧
      (Fragment.ofTokens source first others).raw.toList = bare (l :: ls) :=
  ⟨_, _, rfl, rfl, raw_ofTokens hp⟩

section Decorators

/-- A line of its own ends at its newline. -/
theorem breakLine_of_line {ls : List Token} {newline : Token} (rest : List Token)
    (hb : Balanced (kinds ls)) (hu : Unbroken (· = .newline) 0 (kinds ls)) (hn : newline.kind = .newline) :
    breakLine (ls ++ newline :: rest) = (ls, newline :: rest) := by
  have h := breakOutside_of_unbroken (n := .top) (newline :: rest) hu hb
  rw [Nest.top, List.length_nil] at h
  rw [breakLine, h, breakOutside, if_pos (by simp [hn]), List.append_nil]

/-- A decorator is read from its line. -/
theorem readDecorators_line {t newline : Token} {ts rest : List Token} (hat : t.kind = .atSign)
    (hb : Balanced (kinds (t :: ts))) (hu : Unbroken (· = .newline) 0 (kinds (t :: ts)))
    (hn : newline.kind = .newline) (hrest : ∀ u, rest.head? = some u → u.kind ≠ .newline) :
    readDecorators source (t :: ts ++ newline :: rest) =
      (Fragment.ofTokens source t ts :: (readDecorators source rest).1, (readDecorators source rest).2) := by
  have hbreak : breakLine (t :: (ts ++ newline :: rest)) = (t :: ts, newline :: rest) :=
    breakLine_of_line rest hb hu hn
  have hskip : skipNewlines (newline :: rest) = rest := by
    rw [skipNewlines, List.dropWhile_cons, if_pos (by simp [hn])]
    cases rest with
    | nil => rfl
    | cons u rest => rw [List.dropWhile_cons, if_neg (by simp [hrest u rfl])]
  rw [List.cons_append, readDecorators, dif_pos hat]
  simp only [hbreak, hskip, List.tail_cons]

/-- What follows decorators starts with the next one, or with the keyword. -/
theorem head_decoratorLexemes {line : String → List Lexeme} {decorators : List String}
    (h : ∀ d ∈ decorators, IsDecoratorLine d (line d)) {ls : List Lexeme}
    (hfirst : ∀ l, ls.head? = some l → l.kind = .identifier) {l : Lexeme}
    (hl : (decoratorLexemes line decorators ++ ls).head? = some l) : l.kind ≠ .newline := by
  cases decorators with
  | nil => simp [hfirst l hl]
  | cons d decorators =>
    obtain ⟨-, -, m, rest, hm, hat⟩ := h d List.mem_cons_self
    simp only [decoratorLexemes, List.flatMap_cons, hm, regap, List.cons_append, List.head?_cons,
      Option.some.injEq] at hl
    simp [← hl, hat]

/-- Decorators are read from their lines. -/
theorem exists_readDecorators {line : String → List Lexeme} {decorators : List String}
    (h : ∀ d ∈ decorators, IsDecoratorLine d (line d)) {ls : List Lexeme}
    (hfirst : ∀ l, ls.head? = some l → l.kind = .identifier)
    (hp : Placed source here (decoratorLexemes line decorators ++ ls)) :
    ∃ fragments there, readDecorators source (tokensAt here (decoratorLexemes line decorators ++ ls)) =
      (fragments, tokensAt there ls) ∧ Placed source there ls ∧ fragments.map (·.raw) = decorators := by
  induction decorators generalizing here with
  | nil =>
    refine ⟨[], here, ?_, hp, rfl⟩
    cases ls with
    | nil => rw [decoratorLexemes, List.flatMap_nil, List.append_nil, tokensAt_nil, readDecorators]
    | cons l ls =>
      have hl := hfirst l rfl
      rw [decoratorLexemes, List.flatMap_nil, List.nil_append, tokensAt_cons, readDecorators,
        dif_neg (by simp [hl])]
  | cons d decorators ih =>
    obtain ⟨hline, htext, l, rest, hl, hat⟩ := h d List.mem_cons_self
    have hothers := fun d' hd => h d' (List.mem_cons_of_mem d hd)
    have heq : decoratorLexemes line (d :: decorators) ++ ls =
        regap [] (line d) ++ newlineLexeme :: (decoratorLexemes line decorators ++ ls) := by
      simp [decoratorLexemes]
    rw [heq] at hp ⊢
    obtain ⟨fragments, there, hread, hplaced, hraws⟩ := ih hothers hp.right.tail
    have hfollow : ∀ u, (tokensAt ((here.advance (written (regap [] (line d)))).advance
        (newlineLexeme.gap ++ newlineLexeme.text)) (decoratorLexemes line decorators ++ ls)).head? = some u →
        u.kind ≠ .newline := by
      intro u hu
      obtain ⟨us, hus⟩ := List.head?_eq_some_iff.1 hu
      obtain ⟨m, ms, hm, rfl, -⟩ := tokensAt_eq_cons hus
      exact head_decoratorLexemes hothers hfirst (by rw [hm]; rfl)
    have hkinds : kinds (tokensAt here (regap [] (line d))) = (line d).map (·.kind) := by
      rw [kinds_tokensAt, map_kind_regap]
    have hbalanced := hkinds ▸ hline.balanced
    have hunbroken := hkinds ▸ hline.unbroken
    have hleft := hp.left
    rw [hl] at hleft htext
    obtain ⟨t, ts, htoks, hkind, hraw⟩ := exists_raw hleft
    rw [← hl] at htoks
    rw [htoks] at hbalanced hunbroken
    rw [tokensAt_append, tokensAt_cons, htoks,
      readDecorators_line (hkind.trans hat) hbalanced hunbroken rfl hfollow, hread]
    refine ⟨_, there, rfl, hplaced, ?_⟩
    rw [List.map_cons, hraws, String.toList_injective (hraw.trans htext.symm)]

end Decorators

section Head

/-- The head of a declaration is read from what is written for it. -/
theorem isHead_headLexemes {symbol locator : String} {ls : List Lexeme}
    (hl : ∀ gap there, IsLiteral (tokensAt there (regap gap ls)) locator) :
    IsHead (tokensAt here (headLexemes symbol ls)) ⟨symbol, locator, false⟩ := by
  rw [headLexemes, tokensAt_cons, tokensAt_cons, tokensAt_append]
  exact ⟨_, _, _, [], _, rfl, rfl, by simp, hl [' '] _, rfl, rfl⟩

/-- A plain locator is read from its lexemes. -/
theorem isLiteral_locator {locator : String} (hplain : IsPlain locator) (hquote : '\'' ∉ locator.toList)
    {ls : List Lexeme} (hp : Part ls) (hb : '\'' :: (locator.toList ++ ['\'']) = bare ls) (gap : List Char)
    (there : Cursor) : IsLiteral (tokensAt there (regap gap ls)) locator := by
  have hbare : bare ls = bare (quoteLexemes locator.toList) := by rw [← hb, bare_quoteLexemes]
  have hregap : regap gap ls = regap gap (quoteLexemes locator.toList) := by
    rw [← regap_regap gap [] ls, regap_eq_of_bare hp (element_quote_plain hplain hquote).toPart hbare, regap_regap]
  have hread := isLiteral_quoteLexemes (unescape_plain fun c hc => (hplain c hc).1) gap there
  rwa [String.ofList_toList, ← hregap] at hread

end Head

section Condition

/-- A condition is read from what is written for it, before a body. -/
theorem exists_readOptionalCondition {condition : Option String} {ls : Option (List Lexeme)}
    (h : match condition, ls with
      | none, none => True
      | some text, some ls => Part ls ∧ text.toList = bare ls
      | _, _ => False) {body : List Lexeme} (hbody : ∀ l, body.head? = some l → l.kind ≠ .identifier)
    (hp : Placed source here (conditionLexemes ls ++ body)) :
    ∃ fragment there, readOptionalCondition source (tokensAt here (conditionLexemes ls ++ body)) =
      some (fragment, tokensAt there body) ∧ Placed source there body ∧ fragment.map (·.raw) = condition := by
  match condition, ls with
  | none, none =>
    refine ⟨none, here, ?_, hp, rfl⟩
    have hif : startsWithWord "if" (tokensAt here body) = false := by
      cases body with
      | nil => rfl
      | cons l body => simp [startsWithWord, tokensAt_cons, Token.isWord, hbody l rfl]
    rw [conditionLexemes, List.nil_append, readOptionalCondition, hif]
    rfl
  | some text, some ls =>
    obtain ⟨hpart, htext⟩ := h
    obtain ⟨l, ls, rfl⟩ := List.exists_cons_of_ne_nil hpart.ne_nil
    rw [conditionLexemes, List.cons_append, List.cons_append, List.append_assoc,
      List.singleton_append] at hp ⊢
    have hinside := hp.tail.tail.left
    obtain ⟨first, others, htoks, -, hraw⟩ := exists_raw hinside
    have hbalanced : Balanced (kinds (first :: others)) := by
      rw [← htoks, kinds_tokensAt, map_kind_regap]
      exact hpart.balanced
    refine ⟨some (Fragment.ofTokens source first others), _, ?_, hp.tail.tail.right.tail, ?_⟩
    · rw [tokensAt_cons, tokensAt_cons, tokensAt_append, htoks, tokensAt_cons,
        readOptionalCondition, if_pos (by rfl), List.tail_cons, readCondition, if_pos (by rfl),
        breakAtClose_of_balanced _ hbalanced (by rfl)]
      rfl
    · exact congrArg some (String.toList_injective (hraw.trans htext.symm))

end Condition

/-- A body alone is read whole. -/
theorem readBody_of_isBody {toks : List Token} {entries : ObjectLiteral} (h : IsBody source toks entries) :
    readBody source toks = some (entries, []) := by
  obtain ⟨opening, inside, close, rfl, ho, hc, hb, hread⟩ := h
  rw [readBody, if_pos ho, breakAtClose_of_balanced [] hb (by rw [hc]; rfl)]
  simp only [atLineEnd, if_true, hread, Option.map_some]

/-- A declaration is read from its head, its condition and its body. -/
theorem readDeclaration_of_parts {toks after rest : List Token} {head : DeclarationHead} {condition : Option Fragment}
    {entries : ObjectLiteral} (hh : readHead toks = some (head, after))
    (hfirst : ∀ t, after.head? = some t → t.kind ≠ .bracketOpen)
    (hc : readOptionalCondition source after = some (condition, rest)) (hb : IsBody source rest entries) :
    readDeclaration source toks =
      some (⟨some head.symbol, some head.target, some entries, condition, head.existing, false⟩, []) := by
  have hloop : ¬ after.head?.any (·.kind = .bracketOpen) = true := by
    cases after with
    | nil => simp
    | cons t ts => simp [hfirst t rfl]
  rw [readDeclaration, hh]
  simp only [if_neg hloop, hc, readBody_of_isBody hb, Option.map_some]

/-- A statement is what is read before its keyword and from there on. -/
theorem readStatement_of_parts {first : Token} {others toks rest : List Token} {decorators : List Fragment}
    {d : Declaration} (hd : readDecorators source (first :: others) = (decorators, toks))
    (hb : readStatementBody source toks = (d, rest)) :
    ∃ span, (readStatement source first others).1 = ⟨kindAt toks, d.symbol, d.target, span, decorators, first.line,
      d.body, d.condition, d.existing, d.looped⟩ := by
  rw [readStatement]
  simp only [hd, hb]
  exact ⟨_, rfl⟩

/-- An object starts with a brace. -/
theorem head_value_object {leaves : Leaves} {depth : Nat} {ps : ObjectLiteral} {gap : List Char} {l : Lexeme}
    (hl : (regap gap (leaves.value depth (.object ps))).head? = some l) : l.kind = .braceOpen := by
  cases ps <;>
  · rw [Leaves.value, regap, List.head?_cons, Option.some.injEq] at hl
    rw [← hl]

/-- What follows the head of a module call is no loop. -/
theorem head_condition {leaves : Leaves} {ps : ObjectLiteral} {condition : Option (List Lexeme)} {gap : List Char}
    {there : Cursor} {t : Token}
    (ht : (tokensAt there (conditionLexemes condition ++ regap gap (leaves.value 0 (.object ps)))).head? = some t) :
    t.kind ≠ .bracketOpen := by
  obtain ⟨ts, hts⟩ := List.head?_eq_some_iff.1 ht
  obtain ⟨l, ls, hl, rfl, -⟩ := tokensAt_eq_cons hts
  cases condition with
  | none =>
    rw [conditionLexemes, List.nil_append] at hl
    have hk := (@head_value_object leaves 0 ps gap l) (by rw [hl]; rfl)
    simp [hk]
  | some c =>
    rw [conditionLexemes, List.cons_append] at hl
    simp [← (List.cons.inj hl).1]

/-- A module call is read back from its lexemes. -/
theorem CallLexemes.Show.exists_readsCall {parts : CallLexemes} {edited : EditedText} {call : ModuleCall}
    (h : parts.Show edited call) (hplain : IsPlain call.locator) (hquote : '\'' ∉ call.locator.toList)
    (hp : Placed source here (parts.all call)) :
    ∃ first others, tokensAt here (parts.all call) = first :: others ∧ IsSingle source first others False ∧
      ReadsCall source parts.leaves call (readStatement source first others).1 := by
  obtain ⟨l, ls, hall, -⟩ := h.exists_first
  obtain ⟨fragments, there, hdecorators, hplaced, hraws⟩ := exists_readDecorators h.decorators
    (fun l hl => by rw [← Option.some.inj hl]; rfl) hp
  obtain ⟨condition, there', hcondition, hplaced', hcraw⟩ := exists_readOptionalCondition h.condition
    (fun l hl => by rw [head_value_object hl]; simp) hplaced.right
  obtain ⟨entries, hbody, hentries⟩ := exists_isBody h.body 0 hplaced'
  have hhead := readHead_of_isHead
    ((@isHead_headLexemes there call.symbol) (isLiteral_locator hplain hquote h.locator.1 h.locator.2))
    (tokensAt (there.advance (written (headLexemes call.symbol parts.locator)))
      (conditionLexemes parts.condition ++ regap [' '] (parts.leaves.value 0 (.object call.body))))
  rw [← tokensAt_append] at hhead
  have hdeclaration := readDeclaration_of_parts hhead (fun t ht => head_condition ht) hcondition hbody
  have hkind : kindAt (tokensAt there (headLexemes call.symbol parts.locator ++
      (conditionLexemes parts.condition ++ regap [' '] (parts.leaves.value 0 (.object call.body))))) = .module := by
    rw [headLexemes, List.cons_append, tokensAt_cons]
    simp [kindAt, Token.isWord, nameLexeme]
  have htoks : tokensAt here (parts.all call) = l.token here :: tokensAt (here.advance (l.gap ++ l.text)) ls := by
    rw [hall]
    rfl
  rw [← CallLexemes.all, htoks] at hdecorators
  generalize tokensAt there (headLexemes call.symbol parts.locator ++ (conditionLexemes parts.condition ++
    regap [' '] (parts.leaves.value 0 (.object call.body)))) = toks at hdecorators hdeclaration hkind
  have hdeclared : readStatementBody source toks =
      (⟨some call.symbol, some call.locator, some entries, condition, false, false⟩, []) := by
    simp only [readStatementBody, hkind, hdeclaration]
    rfl
  refine ⟨_, _, htoks, ⟨?_, ?_, fun hnil => ?_⟩, ?_⟩
  · rw [← htoks, kinds_tokensAt]
    exact h.balanced
  · change (readStatementBody source (readDecorators source _).2).2 = []
    rw [hdecorators, hdeclared]
  · rw [hdecorators] at hnil
    simp only at hnil
    rw [hnil] at hkind
    cases hkind
  · obtain ⟨span, hread⟩ := readStatement_of_parts hdecorators hdeclared
    rw [hread]
    exact ⟨hkind, rfl, rfl, hraws, hcraw, rfl, rfl, entries, rfl, hentries⟩

/-- What a module call says as a statement, without places. -/
def ModuleCall.sense (call : ModuleCall) : Statement :=
  { kind := .module
    symbol := some call.symbol
    target := some call.locator
    span := ⟨0, 0⟩
    decorators := call.decorators.map (⟨·, none⟩)
    line := 0
    body := some call.body.unplaced
    condition := call.condition.map (⟨·, none⟩)
    existing := false
    looped := false }

section Call

variable {parts : CallLexemes} {edited : EditedText} {call : ModuleCall}

/-- A module call is a statement of its own wherever it stands. -/
theorem CallLexemes.Show.isAlone (h : parts.Show edited call) (hplain : IsPlain call.locator)
    (hquote : '\'' ∉ call.locator.toList) : IsAlone (parts.all call) := by
  have hp : Placed (String.ofList (written (parts.all call))) .origin (parts.all call) :=
    ⟨[], [], by rw [String.toList_ofList]; simp, rfl⟩
  obtain ⟨first, others, htoks, hsingle, -⟩ := h.exists_readsCall hplain hquote hp
  exact hsingle.isAlone htoks

/-- What is read from a module call, whatever stands before it. -/
theorem CallLexemes.Show.readsCall_of_saidBy (h : parts.Show edited call) (hplain : IsPlain call.locator)
    (hquote : '\'' ∉ call.locator.toList) {gap : List Char} {s : Statement}
    (hs : SaidBy source (regap gap (parts.all call)) s) :
    ∃ t, ReadsCall source parts.leaves call t ∧ s.sense = t.sense := by
  obtain ⟨here, first, others, hp, htoks, hsense⟩ := hs
  obtain ⟨l, ls, hall, hgap, -⟩ := h.exists_first
  rw [hall] at hp htoks
  obtain ⟨hp', htoks'⟩ := hp.of_regap hgap
  rw [← hall] at hp' htoks'
  obtain ⟨first', others', hread, -, hcall⟩ := h.exists_readsCall hplain hquote hp'
  rw [hall] at htoks'
  rw [htoks', ← hall, hread] at htoks
  obtain ⟨rfl, rfl⟩ := List.cons.inj htoks
  exact ⟨_, hcall, hsense⟩

/-- A module call says what is written, if all of its values are read again. -/
theorem ReadsCall.sense_eq {leaves : Leaves} {s : Statement} (h : ReadsCall source leaves call s)
    (hv : ∀ p ∈ call.body, Rereads leaves p.value) : s.sense = call.sense := by
  obtain ⟨entries, hbody, hentries⟩ := h.body
  have hdecorators : s.decorators.map Fragment.unplaced = call.decorators.map (⟨·, none⟩) := by
    rw [← h.decorators, List.map_map]
    rfl
  have hcondition : s.condition.map Fragment.unplaced = call.condition.map (⟨·, none⟩) := by
    rw [← h.condition, Option.map_map]
    rfl
  rw [Statement.sense, ModuleCall.sense, h.kind, h.symbol, h.target, hdecorators, hcondition, hbody, h.existing,
    h.looped, Option.map_some, unplaced_of_entriesReadFrom hv hentries]
  rfl

end Call

end BicepMigration.Template
