import BicepMigration.Proofs.Template.CallReadBack
import BicepMigration.Proofs.Template.SightedValues

/-!
# What is seen in declarations

A declaration of a module is written anew with its decorators, its symbol and its condition as they were. Its head and
the newlines after its decorators may be spelled otherwise, but nothing is seen of that. So a module call that is written
for a declaration shows what the declaration shows, if its body shows what the body showed.
-/

namespace BicepMigration.Template

open Text

variable {source : String} {l : Layout} {symbols : List String} {a b : List Spelling}

/-- Newlines in a row are like one newline. -/
theorem alike_newlines {blank : List Token} (hnl : ∀ t ∈ blank, t.kind = .newline) (hne : blank ≠ [])
    (h : Alike symbols a b) : Alike symbols (spellings blank ++ a) (newlineLexeme.spelling :: b) := fun view => by
  have hs : ∀ t ∈ blank, t.kind.separates = true := fun t ht => by rw [hnl t ht]; rfl
  have hpast : view.past (spellings blank) = view.after newlineLexeme.spelling := by
    rw [past_separators hs hne, View.after_of_separates rfl]
  rw [sights_separators hs, sights_cons_of_kind (by simp [newlineLexeme]), View.past_append, View.past_cons, hpast]
  exact h _

section Decorators

/-- Decorators are alike when they are written again, a line each. -/
theorem exists_alike_decorators (hs : source.toList = l.chars) {line : String → List Lexeme} (toks : List Token)
    {before : List Token} (hall : l.tokens = before ++ toks) (hb : Balanced (kinds toks))
    (hline : ∀ f ∈ (readDecorators source toks).1, IsDecoratorLine f.raw (line f.raw))
    (hne : (readDecorators source toks).2 ≠ []) :
    ∃ taken, toks = taken ++ (readDecorators source toks).2 ∧ ∀ a b, Alike symbols a b →
      Alike symbols (spellings taken ++ a)
        (spelled (decoratorLexemes line ((readDecorators source toks).1.map (·.raw))) ++ b) := by
  have hlines := decorated_readDecorators source toks
  generalize (readDecorators source toks).1 = decorators at hlines hline ⊢
  generalize (readDecorators source toks).2 = after at hlines hne ⊢
  induction hlines generalizing before with
  | done => exact ⟨[], rfl, fun a b h => h⟩
  | @line t ts blank rest after decorators hfirst hothers ih =>
    obtain ⟨hl, hr⟩ := hfirst.balanced hb
    have hstart : blank ≠ [] := hfirst.blank_ne_nil (hothers.ne_nil hne)
    have hthis : spelled (line (Fragment.ofTokens source t ts).raw) = spellings (t :: ts) := by
      obtain ⟨hline, htext, -⟩ := hline _ List.mem_cons_self
      obtain ⟨hleft, hright⟩ := tokensApart_line hfirst.starts hfirst.atLineEnd before
      exact spelled_of_raw hs hl ⟨before, blank ++ rest, hall, hleft, hright⟩ hline.toPart htext
    obtain ⟨taken, rfl, hmore⟩ := @ih (before ++ (t :: ts ++ blank)) (by rw [hall]; simp) hr
      (fun f hf => hline f (List.mem_cons_of_mem _ hf)) hne
    refine ⟨t :: ts ++ (blank ++ taken), by simp, fun a b h => ?_⟩
    have hcall : spelled (decoratorLexemes line ((Fragment.ofTokens source t ts :: decorators).map (·.raw))) ++ b =
        spellings (t :: ts) ++ newlineLexeme.spelling ::
          (spelled (decoratorLexemes line (decorators.map (·.raw))) ++ b) := by
      rw [← hthis]
      simp [decoratorLexemes]
    rw [hcall, spellings, List.map_append, List.map_append, List.append_assoc, List.append_assoc]
    refine (Alike.refl symbols _).append (alike_newlines hfirst.newlines hstart (hmore a b h)) ?_
      (detached_cons (by simp [newlineLexeme]) _)
    obtain ⟨u, us, rfl⟩ := List.exists_cons_of_ne_nil hstart
    exact detached_cons (by simp [hfirst.newlines u (by simp)]) _

end Decorators

section Head

/-- A string without holes, between its quotes. -/
def SpellsString (ks : List Spelling) : Prop := ∃ inner, ks = ⟨.stringStart, ""⟩ :: inner ∧ ∀ k ∈ inner, k.kind ≠ .identifier

/-- The tokens of a string spell one. -/
theorem IsLiteral.spellsString {literal : List Token} {text : String} (h : IsLiteral literal text) :
    SpellsString (spellings literal) := by
  cases h with
  | @empty opening closing ho hc => exact ⟨[closing.spelling], by simp [opening.spelling_of_kind ho], by simp [hc]⟩
  | @text opening middle closing cs ho hm hc _ =>
    exact ⟨[middle.spelling, closing.spelling], by simp [opening.spelling_of_kind ho], by simp [hm, hc]⟩

/-- A plain locator is written as a string. -/
theorem CallLexemes.Show.spellsString {parts : CallLexemes} {edited : EditedText} {call : ModuleCall}
    (h : parts.Show edited call) (hplain : IsPlain call.locator) (hquote : '\'' ∉ call.locator.toList) :
    SpellsString (spelled parts.locator) := by
  obtain ⟨hp, hbare⟩ := h.locator
  rw [← bare_quoteLexemes] at hbare
  rw [spelled_eq_of_bare hp (element_quote_plain hplain hquote).toPart hbare.symm]
  exact ⟨spelled ((quoteLexemes call.locator.toList).tail), rfl, fun k hk => by
    obtain ⟨m, hm, rfl⟩ := List.mem_map.1 hk
    exact kind_quoteLexemes _ m (List.mem_of_mem_tail hm)⟩

/-- Strings before an equals sign are alike, whatever follows. -/
theorem alike_string {p q : List Spelling} {equals equals' : Spelling} (hp : SpellsString p) (hq : SpellsString q)
    (he : equals.kind = .assign) (he' : equals'.kind = .assign) (h : Alike symbols a b) :
    Alike symbols (p ++ (equals :: a)) (q ++ (equals' :: b)) := by
  have hkind {ks : List Spelling} {t : Spelling} (hks : SpellsString ks) (ht : t.kind = .assign) :
      ∀ k ∈ ks ++ [t], k.kind ≠ .identifier := by
    obtain ⟨inner, rfl, hinner⟩ := hks
    refine List.forall_mem_append.2 ⟨List.forall_mem_cons.2 ⟨by simp, hinner⟩, by simp [ht]⟩
  have hafter {t : Spelling} (ht : t.kind = .assign) (view : View) : view.after t = .value := by
    simp [View.after, Side.after, ht, TokenKind.separates, View.value, Spelling.ext_iff]
  rw [List.append_cons, List.append_cons q]
  refine alike_of_kind (hkind hp he) (hkind hq he') (fun view => ?_) h
  simp [hafter he, hafter he']

/-- The head of a declaration is alike when it is written again, unless it refers to a resource that exists. -/
theorem alike_head {taken : List Token} {head : DeclarationHead} (hh : IsHead taken head)
    (hword : ∀ t, taken.head? = some t → t.isWord "module" = true) (hx : head.existing = false) {locator : List Lexeme}
    (hl : SpellsString (spelled locator)) (h : Alike symbols a b) :
    Alike symbols (spellings taken ++ a) (spelled (headLexemes head.symbol locator) ++ b) := by
  obtain ⟨keyword, name, literal, existing, equals, rfl, hn, hsymbol, hliteral, hexisting, he⟩ := hh.parts
  rw [hx] at hexisting
  obtain rfl : existing = [] := hexisting
  have hstring := hliteral.spellsString
  have hdetached {ks : List Spelling} (hks : SpellsString ks) (ts : List Spelling) : Detached (ks ++ ts) := by
    obtain ⟨inner, rfl, -⟩ := hks
    exact detached_cons (by simp) _
  have hread : spellings (keyword :: name :: (literal ++ ([] ++ [equals]))) ++ a =
      [⟨.identifier, "module"⟩, ⟨.identifier, head.symbol⟩] ++ (spellings literal ++ (equals.spelling :: a)) := by
    simp [Token.spelling_of_isWord (hword keyword rfl), ← hsymbol, Spelling.ext_iff, hn, Token.spelling_name hn]
  have hwritten : spelled (headLexemes head.symbol locator) ++ b =
      [⟨.identifier, "module"⟩, ⟨.identifier, head.symbol⟩] ++ (spelled locator ++ (⟨.assign, ""⟩ :: b)) := by
    rw [headLexemes, spelled, List.map_cons, List.map_cons, List.map_append, ← spelled, spelled_regap]
    simp [nameLexeme, Lexeme.spelling, Spelling.ofText]
  rw [hread, hwritten]
  exact (Alike.refl symbols _).append (alike_string hstring hl (by simp [he]) rfl h) (hdetached hstring _) (hdetached hl _)

end Head

/-- A condition is spelled like its tokens when it is written again. -/
theorem exists_spelled_condition (hs : source.toList = l.chars) {toks rest before : List Token}
    {condition : Option Fragment} (hr : readOptionalCondition source toks = some (condition, rest))
    (hall : l.tokens = before ++ toks) (hb : Balanced (kinds toks)) {written : Option (List Lexeme)}
    (h : match condition.map (·.raw), written with
      | none, none => True
      | some text, some ls => Part ls ∧ text.toList = bare ls
      | _, _ => False) :
    ∃ taken, toks = taken ++ rest ∧ spellings taken = spelled (conditionLexemes written) := by
  rcases readOptionalCondition_cases hr hb with
    ⟨rfl, rfl⟩ | ⟨word, opening, first, others, close, rfl, hif, ho, hc, hf, rfl⟩
  · cases written with
    | none => exact ⟨[], rfl, rfl⟩
    | some ls => exact h.elim
  · cases written with
    | none => exact h.elim
    | some ls =>
      obtain ⟨hp, htext⟩ := h
      refine ⟨word :: opening :: (first :: others ++ [close]), by simp, ?_⟩
      have hstands : StandsIn l.tokens (first :: others) := by
        refine ⟨before ++ [word, opening], close :: rest, by rw [hall]; simp, tokensApart_of_last fun u hu => ?_,
          tokensApart_of_head fun u hu => ?_⟩
        · rw [List.append_cons, List.getLast?_concat] at hu
          rw [← Option.some.inj hu, ho]
          exact TokenKind.neutral_of_opens rfl
        · rw [← Option.some.inj hu, hc]
          exact TokenKind.neutral_of_closes rfl
      rw [conditionLexemes, spelled, List.map_cons, List.map_cons, List.map_append, ← spelled, spelled_regap,
        spelled_of_raw hs hf hstands hp htext, spellings, List.map_cons, List.map_cons, List.map_append,
        Token.spelling_of_isWord hif, opening.spelling_of_kind ho (by simp), List.map_singleton,
        close.spelling_of_kind hc (by simp)]
      rfl

/-- A body is like another one that is written and shows the same. -/
theorem alike_body (hs : source.toList = l.chars) {opening close : Token} {found rest before : List Token}
    {body body' : ObjectLiteral} (hall : l.tokens = before ++ opening :: (found ++ close :: rest))
    (ho : opening.kind = .braceOpen) (hc : close.kind.closes = true) (hf : Balanced (kinds found))
    (hr : readEntries source (elements found) = some body) (hkeys : anyTriple (opensKey symbols) found = false)
    {leaves leaves' : Leaves} (hshow : leaves.Show (.unedited source) (.object body))
    (hsame : entrySights symbols leaves 1 body = entrySights symbols leaves' 1 body') :
    Alike symbols (spellings (opening :: (found ++ [close]))) (spelled (leaves'.value 0 (.object body'))) := by
  have hshow' : ∀ p ∈ body, leaves.Show (.unedited source) p.value := by
    cases hshow with
    | object _ hv => exact hv
  have helems := standsIn_body hall ho hc hf
  have hread := sights_readEntries hs (elements found) (parted_elements hf) hr (fun e he => (helems e he).2) hkeys hshow' 1
    .start (.inl rfl)
  obtain ⟨written, hwritten, hsights⟩ := exists_spelled_object symbols leaves' 0 body'
  rw [hwritten, spellings, List.map_cons, List.map_append, List.map_singleton, opening.spelling_of_kind ho (by simp)]
  refine .enclose (by simp) hc rfl fun view => ?_
  rw [View.after_of_brace rfl, hsights]
  exact hread.trans hsame

/-- A declaration of a module starts with that word. -/
theorem isWord_module_of_kindAt {t : Token} {ts : List Token} (h : kindAt (t :: ts) = .module) :
    t.isWord "module" = true := by
  unfold kindAt at h
  repeat' split at h
  all_goals simp_all

section Calls

variable {leaves : Leaves} {parts : CallLexemes} {call : ModuleCall} {body : ObjectLiteral}

/-- From its keyword on a declaration of a module is like a module call with its symbol and its condition, if the bodies
show the same. -/
theorem exists_alike_declaration (hs : source.toList = l.chars) {toks before : List Token}
    (hall : l.tokens = before ++ toks) (hb : Balanced (kinds toks)) (hkind : kindAt toks = .module)
    (hbody : (readStatementBody source toks).1.body = some body)
    (hexisting : (readStatementBody source toks).1.existing = false)
    (hsymbol : (readStatementBody source toks).1.symbol = some call.symbol)
    (hcondition : call.condition = (readStatementBody source toks).1.condition.map (·.raw))
    (hshow : parts.Show (.unedited source) call) (hlocator : SpellsString (spelled parts.locator))
    (hleaves : leaves.Show (.unedited source) (.object body))
    (hsame : entrySights symbols leaves 1 body = entrySights symbols parts.leaves 1 call.body) :
    ∃ taken, toks = taken ++ (readStatementBody source toks).2 ∧ (anyTriple (opensKey symbols) taken = false →
      Alike symbols (spellings taken) (spelled (headLexemes call.symbol parts.locator ++
        (conditionLexemes parts.condition ++ regap [' '] (parts.leaves.value 0 (.object call.body)))))) := by
  obtain ⟨taken, head, after, opening, found, close, rfl, hhead, -, hafter, hparts⟩ := exists_declarationParts hb hbody
  have hword : ∀ t, taken.head? = some t → t.isWord "module" = true := by
    intro t ht
    obtain ⟨ts, rfl⟩ := List.head?_eq_some_iff.1 ht
    exact isWord_module_of_kindAt hkind
  obtain ⟨head', after', hread, hsymbol', hexisting'⟩ := head_readDeclaration (readDeclaration_of_body hbody).2
  rw [readHead_of_isHead hhead after, Option.some.injEq, Prod.mk.injEq] at hread
  obtain ⟨rfl, -⟩ := hread
  have hname : call.symbol = head.symbol := Option.some.inj (hsymbol.symm.trans hsymbol')
  have hnew : head.existing = false := hexisting'.symm.trans hexisting
  generalize (readStatementBody source (taken ++ after)) = declared at hparts hcondition ⊢
  obtain ⟨condition, hwritten, hspelled⟩ := exists_spelled_condition hs hparts.condition
    (show l.tokens = (before ++ taken) ++ after by rw [hall, List.append_assoc]) hafter (by
      have := hshow.condition
      rwa [hcondition] at this)
  obtain ⟨hfound, hclose⟩ := hparts.balanced hafter
  have hcloses : close.kind.closes = true := by rw [hclose]; rfl
  refine ⟨taken ++ (condition ++ opening :: (found ++ [close])), by rw [hwritten]; simp, fun hkeys => ?_⟩
  have hinside := alike_body hs (show l.tokens = (before ++ (taken ++ condition)) ++ opening :: (found ++ close :: declared.2) by
    rw [hall, hwritten]; simp) hparts.opens hcloses hfound hparts.entries
    (anyTriple_of_isInfix hkeys ⟨taken ++ (condition ++ [opening]), [close], by simp⟩) hleaves hsame
  have hdetached (ps : ObjectLiteral) : Detached (spelled (parts.leaves.value 0 (.object ps))) := by
    obtain ⟨inside, hinside, -⟩ := exists_spelled_object symbols parts.leaves 0 ps
    rw [hinside]
    exact detached_cons (by simp) _
  rw [spellings, List.map_append, List.map_append, spelled, List.map_append, List.map_append, ← spelled, ← spelled, ← spelled,
    spelled_regap, ← hspelled, hname]
  refine alike_head hhead hword hnew hlocator ((Alike.refl symbols _).append hinside ?_ (hdetached _))
  exact detached_cons (by simp [hparts.opens]) _

/-- A declaration of a module is like a module call with its decorators, its symbol and its condition, if the bodies show
the same. -/
theorem alike_statement (hs : source.toList = l.chars) {s : Statement} {first : Token} {others rest before : List Token}
    (hread : readStatement source first (others ++ rest) = (s, rest))
    (hall : l.tokens = before ++ first :: (others ++ rest)) (hb : Balanced (kinds (first :: (others ++ rest))))
    (hkeys : anyTriple (opensKey symbols) (first :: others) = false) (hkind : s.kind = .module)
    (hexisting : s.existing = false) (hbody : s.body = some body) (hshow : parts.Show (.unedited source) call)
    (hlocator : SpellsString (spelled parts.locator)) (hdecorators : call.decorators = s.decorators.map (·.raw))
    (hsymbol : s.symbol = some call.symbol) (hcondition : call.condition = s.condition.map (·.raw))
    (hleaves : leaves.Show (.unedited source) (.object body))
    (hsame : entrySights symbols leaves 1 body = entrySights symbols parts.leaves 1 call.body) :
    Alike symbols (spellings (first :: others)) (spelled (parts.all call)) := by
  have hds : (readDecorators source (first :: (others ++ rest))).1 = s.decorators := congrArg (·.1.decorators) hread
  have hrest : (readStatementBody source (readDecorators source (first :: (others ++ rest))).2).2 = rest :=
    congrArg (·.2) hread
  have hkind' : kindAt (readDecorators source (first :: (others ++ rest))).2 = .module :=
    (congrArg (·.1.kind) hread).trans hkind
  have hline : ∀ f ∈ (readDecorators source (first :: (others ++ rest))).1, IsDecoratorLine f.raw (parts.line f.raw) :=
    fun f hf => hshow.decorators _ (by rw [hdecorators, ← hds]; exact List.mem_map_of_mem hf)
  have hne : (readDecorators source (first :: (others ++ rest))).2 ≠ [] := fun hnil => by
    rw [hnil] at hkind'
    cases hkind'
  obtain ⟨decorators, hd, hlines⟩ := (@exists_alike_decorators _ _ symbols) hs _ hall hb hline hne
  obtain ⟨taken, htaken, hdeclaration⟩ := exists_alike_declaration hs
    (show l.tokens = (before ++ decorators) ++ (readDecorators source (first :: (others ++ rest))).2 by
      rw [hall, List.append_assoc, ← hd]) (balanced_readDecorators hb) hkind' ((congrArg (·.1.body) hread).trans hbody)
    ((congrArg (·.1.existing) hread).trans hexisting) ((congrArg (·.1.symbol) hread).trans hsymbol)
    (hcondition.trans (congrArg (·.1.condition.map (·.raw)) hread).symm) hshow hlocator hleaves hsame
  have hrun : first :: others = decorators ++ taken := by
    rw [hrest] at htaken
    refine List.append_cancel_right (?_ : first :: others ++ rest = _ ++ rest)
    rw [List.cons_append, List.append_assoc, ← htaken]
    exact hd
  rw [hrun, spellings, List.map_append, CallLexemes.all, spelled, List.map_append, hdecorators, ← hds]
  exact hlines _ _ (hdeclaration (anyTriple_of_isInfix hkeys ⟨decorators, [], by rw [hrun, List.append_nil]⟩))

end Calls

end BicepMigration.Template
