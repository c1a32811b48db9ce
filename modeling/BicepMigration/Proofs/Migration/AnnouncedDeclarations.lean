import BicepMigration.Proofs.Migration.DeclarationSearch
import BicepMigration.Proofs.Template.Pieces
import BicepMigration.Proofs.Template.Placement
import BicepMigration.Proofs.Template.SightedUses

/-!
# What the search for a declaration finds

The search goes over characters, and it finds a declaration only where a name starts. From there on the text is read as
the word `resource`, newlines, and the symbol, before anything but a colon. So where the word comes before no planned
symbol nothing is found.
-/

namespace BicepMigration.Template

open Text

variable {s : LexState} {toks : List Token}

/-- Tokens that follow a step are the tokens of the step and those after it. -/
theorem exists_of_map_tokens {ts : List Token} {after : LexState} (h : s.tokens = after.tokens.map (ts ++ ·))
    (ht : s.tokens = .ok toks) : ∃ rest, after.tokens = .ok rest ∧ toks = ts ++ rest := by
  rw [h] at ht
  cases hrest : after.tokens with
  | error e =>
    rw [hrest] at ht
    cases ht
  | ok rest =>
    rw [hrest] at ht
    exact ⟨rest, rfl, (Except.ok.inj ht).symm⟩

/-- The tokens from a state on are some tokens and those from another state in code on. -/
def LexState.Passes (s : LexState) (ts : List Token) (after : LexState) : Prop :=
  s.tokens = after.tokens.map (ts ++ ·) ∧ after.mode = .code

/-- The same for what is passed over in several steps. -/
theorem LexState.Passes.exists_tokens {ts : List Token} {after : LexState} (h : s.Passes ts after)
    (ht : s.tokens = .ok toks) : ∃ rest, after.tokens = .ok rest ∧ toks = ts ++ rest := exists_of_map_tokens h.1 ht

/-- Of white space the newlines are read. -/
theorem exists_passes_space {space rest : List Char} (hm : s.mode = .code) (hr : s.rest = space ++ rest)
    (hs : ∀ c ∈ space, isBlank c = true) :
    ∃ blank after, s.Passes blank after ∧ after.rest = rest ∧ ∀ t ∈ blank, t.kind = .newline := by
  induction space generalizing s with
  | nil => exact ⟨[], s, ⟨by cases s.tokens <;> rfl, hm⟩, hr, by simp⟩
  | cons c space ih =>
    obtain ⟨hc, hs⟩ := List.forall_mem_cons.1 hs
    have hstep : ∃ ts, (∀ t ∈ ts, t.kind = .newline) ∧ s.step = some (.ok (ts, s.skip [c] (space ++ rest))) := by
      rw [step_code hm hr, codeStep]
      by_cases hn : c = '\n'
      · exact ⟨[Token.ofChars .newline s.here [c]], by simp, by simp [hn, LexState.emit]⟩
      · exact ⟨[], by simp, by simp [hn, hc]⟩
    obtain ⟨ts, hts, hstep⟩ := hstep
    obtain ⟨blank, after, ⟨htokens, hcode⟩, hrest, hblank⟩ := ih (s := s.skip [c] (space ++ rest)) hm rfl hs
    refine ⟨ts ++ blank, after, ⟨?_, hcode⟩, hrest, List.forall_mem_append.2 ⟨hts, hblank⟩⟩
    rw [tokens_of_step hstep, htokens]
    cases after.tokens with
    | error => rfl
    | ok rest => exact congrArg Except.ok (List.append_assoc ..).symm

/-- A name is read before white space. -/
theorem exists_passes_name {name : String} {space rest : List Char} (hm : s.mode = .code)
    (hr : s.rest = name.toList ++ (space ++ rest)) (hn : IsName name) (hne : space ≠ [])
    (hs : ∀ c ∈ space, isBlank c = true) :
    ∃ t after, s.Passes [t] after ∧ after.rest = space ++ rest ∧ t.isWord name = true := by
  have hends : EndsAt .identifier name.toList (space ++ rest) := by
    obtain ⟨c, space, rfl⟩ := List.exists_cons_of_ne_nil hne
    intro d hd
    obtain rfl : c = d := Option.some.inj hd
    refine Bool.eq_false_iff.2 fun hpart => ?_
    have hplain := (plain_of_wordChar (Migration.isNamePart_cases hpart)).2.1
    simp [hs c List.mem_cons_self] at hplain
  obtain ⟨after, htokens, -, hrest, hnest⟩ := tokens_of_takes (takes_identifier hm hr hn hends)
  refine ⟨_, after, ⟨htokens, ?_⟩, hrest, by simp [Token.isWord]⟩
  have hzone := congrArg Nest.zone hnest
  simp only [LexState.nest, hm, LexMode.zone] at hzone
  cases hmode : after.mode with
  | code => rfl
  | string => simp [hmode] at hzone

/-- At a quote no colon is read. -/
theorem startsColon_of_quote {rest : List Char} (hm : s.mode = .code) (hr : s.rest = '\'' :: rest)
    (ht : s.tokens = .ok toks) : startsColon toks = false := by
  have hb : isBlank '\'' = false := by decide
  cases hstep : codeStep s '\'' rest with
  | error e =>
    rw [tokens_of_step_error (by rw [step_code hm hr, hstep])] at ht
    cases ht
  | ok found =>
    obtain ⟨ts, after⟩ := found
    obtain ⟨later, -, rfl⟩ := exists_of_map_tokens (tokens_of_step (by rw [step_code hm hr, hstep])) ht
    simp only [codeStep, hb, Char.reduceEq, decide_false, if_false, Bool.false_or, Bool.false_and, Bool.false_eq_true,
      if_true] at hstep
    split at hstep
    · split at hstep
      · cases hstep
      · obtain ⟨rfl, -⟩ := Prod.mk.inj (Except.ok.inj hstep)
        rfl
    · obtain ⟨rfl, -⟩ := Prod.mk.inj (Except.ok.inj hstep)
      rfl

/-- A reader that stands before a name reads the tokens from there on. -/
theorem Layout.exists_reader (l : Layout) {xs ys : List Lexeme} {k : Lexeme} (hl : l.lexemes = xs ++ k :: ys)
    (hk : k.kind = .identifier) : ∃ s : LexState, s.mode = .code ∧ s.rest = k.text ++ (written ys ++ l.tail) ∧
      s.tokens = .ok (tokensAt (l.start.advance (written xs)) (k :: ys)) := by
  have hbalanced := l.balanced
  have hlegible := l.legible
  rw [hl, List.map_append, List.map_cons, Balanced, Nest.run_append] at hbalanced
  obtain ⟨⟨zone, opened⟩, -, hrun⟩ := Option.bind_eq_some_iff.1 hbalanced
  rw [hl] at hlegible
  obtain ⟨-, hspelled, hends, hlegible⟩ := (legible_append.1 hlegible).2
  obtain rfl : zone = .code := by
    rw [Nest.run_cons] at hrun
    obtain ⟨m, hm, -⟩ := Option.bind_eq_some_iff.1 hrun
    rw [hk] at hm
    cases zone with
    | code => rfl
    | string | closing => cases hm
  -- the reader knows the brackets that are open; where they were opened does not matter
  refine ⟨⟨.code, (l.start.advance (written xs)).advance k.gap, opened.map (⟨·, 0, 0⟩), k.text ++ (written ys ++ l.tail)⟩,
    rfl, rfl, ?_⟩
  rw [(@tokens_of_legible ({ k with gap := [] } :: ys) l.tail) ⟨.nil, ⟨hspelled.1, fun _ => rfl⟩, hends, hlegible⟩ l.isGap
    (by simpa [LexState.nest, LexMode.zone, Function.comp_def] using hrun) (by simp), tokensAt_cons, tokensAt_cons,
    List.nil_append, Cursor.advance_append]
  rfl

/-- What is announced in the second part is announced in the whole. -/
theorem announces_append {symbols : List String} {a b : List Token} (h : announces symbols b = true) :
    announces symbols (a ++ b) = true := by
  induction a with
  | nil => exact h
  | cons t a ih => rw [List.cons_append, announces, ih, Bool.or_true]

/-- Newlines do not change what is named next. -/
theorem namesNext_newlines {symbols : List String} {blank rest : List Token} (h : ∀ t ∈ blank, t.kind = .newline) :
    namesNext symbols (blank ++ rest) = namesNext symbols rest := by
  induction blank with
  | nil => rfl
  | cons t blank ih =>
    obtain ⟨ht, h⟩ := List.forall_mem_cons.1 h
    rw [List.cons_append, namesNext, if_pos (by rw [ht]; rfl), ih h]

end BicepMigration.Template

namespace BicepMigration.Migration

open Template Text

variable {symbols : List String} {entry : PlanEntry}

/-- From the start of a declaration on its symbol comes after the word `resource`. -/
theorem announces_of_opening {s : LexState} {toks : List Token} {opening rest : List Char} (hm : s.mode = .code)
    (hr : s.rest = opening ++ '\'' :: rest) (ho : IsOpening entry.symbol opening) (hname : IsName entry.symbol)
    (hmem : entry.symbol ∈ symbols) (ht : s.tokens = .ok toks) : announces symbols toks = true := by
  obtain ⟨a, b, ⟨ha, hblank⟩, ⟨hb, hblank'⟩, rfl⟩ := ho
  simp only [List.append_assoc] at hr
  have hresource : IsName "resource" := isName_word rfl rfl (by decide)
  obtain ⟨word, s₁, hword, hrest₁, hisWord⟩ := exists_passes_name hm hr hresource ha hblank
  obtain ⟨toks₁, ht₁, rfl⟩ := hword.exists_tokens ht
  obtain ⟨gap, s₂, hgap, hrest₂, hnewlines⟩ := exists_passes_space hword.2 hrest₁ hblank
  obtain ⟨toks₂, ht₂, rfl⟩ := hgap.exists_tokens ht₁
  obtain ⟨name, s₃, hsymbol, hrest₃, hisSymbol⟩ := exists_passes_name hgap.2 hrest₂ hname hb hblank'
  obtain ⟨toks₃, ht₃, rfl⟩ := hsymbol.exists_tokens ht₂
  obtain ⟨gap', s₄, hgap', hrest₄, hnewlines'⟩ := exists_passes_space hsymbol.2 hrest₃ hblank'
  obtain ⟨toks₄, ht₄, rfl⟩ := hgap'.exists_tokens ht₃
  have hcolon := startsColon_of_quote hgap'.2 hrest₄ ht₄
  have hcolon' : startsColon (gap' ++ toks₄) = false := by
    cases gap' with
    | nil => exact hcolon
    | cons t gap' => simp [startsColon, hnewlines' t List.mem_cons_self]
  simp only [Token.isWord, Bool.and_eq_true, decide_eq_true_eq] at hisSymbol
  rw [List.singleton_append, announces, hisWord, namesNext_newlines hnewlines, List.singleton_append, namesNext,
    hisSymbol.1, hisSymbol.2, hcolon']
  simp [TokenKind.separates, hmem]

/-- What the search finds is a declaration, where the test holds. -/
theorem exists_of_declarationFrom {startsToken : Nat → Bool} {offset seen found : Nat} {previous : Option Char}
    {cs : List Char} (h : declarationFrom startsToken entry offset previous seen cs = some found) :
    ∃ before after rest, cs = before ++ after ∧ found = offset + byteLength before ∧ startsToken found = true ∧
      afterDeclaration entry after = some rest := by
  induction cs generalizing offset previous seen with
  | nil => cases h
  | cons c cs ih =>
    have hlater {seen : Nat} (h : declarationFrom startsToken entry (offset + c.utf8Size) (some c) seen cs = some found) :
        ∃ before after rest, c :: cs = before ++ after ∧ found = offset + byteLength before ∧ startsToken found = true ∧
          afterDeclaration entry after = some rest := by
      obtain ⟨before, after, rest, rfl, hfound, hstarts, hafter⟩ := ih h
      exact ⟨c :: before, after, rest, rfl, by rw [hfound, byteLength_cons, Nat.add_assoc], hstarts, hafter⟩
    rw [declarationFrom] at h
    simp only at h
    split at h
    · exact hlater h
    · split at h
      · exact hlater h
      · next rest hafter =>
        split at h
        · exact hlater h
        · split at h
          · next hstarts =>
            obtain rfl := Option.some.inj h
            exact ⟨[], c :: cs, rest, rfl, by simp, hstarts, hafter⟩
          · exact hlater h

/-- A declaration is found only where the word `resource` comes before the symbol. -/
theorem announces_of_declaration? {template : ScannedTemplate} {text : String} (h : scan text = .ok template) {offset : Nat}
    (hd : declaration? template entry = some offset) (hname : IsName entry.symbol) (hmem : entry.symbol ∈ symbols) :
    announces symbols template.tokens = true := by
  obtain ⟨l, hchars, rfl⟩ := scan_eq_ok_iff.1 h
  obtain ⟨before, after, rest, hsource, hoffset, hstarts, hafter⟩ := exists_of_declarationFrom hd
  obtain ⟨t, ht, hstart⟩ := List.mem_map.1 (List.contains_iff_mem.1 hstarts)
  obtain ⟨ht, hkind⟩ := List.mem_filter.1 ht
  simp only [decide_eq_true_eq] at hkind
  obtain ⟨x, y, hxy⟩ := List.append_of_mem ht
  obtain ⟨xs, ys, hl, rfl, hys⟩ := tokensAt_eq_append hxy
  obtain ⟨k, ys, rfl, rfl, -⟩ := tokensAt_eq_cons hys.symm
  have hall : before ++ after = (l.mark ++ (written xs ++ k.gap)) ++ (k.text ++ (written ys ++ l.tail)) := by
    rw [← hsource, hchars, Layout.chars, hl, written_append, written_cons]
    simp only [List.append_assoc]
  obtain ⟨-, rfl⟩ := append_inj_of_byteLength hall (by
    rw [Nat.zero_add] at hoffset
    rw [← hoffset, ← hstart]
    simp [Layout.start, Cursor.advance_offset, Nat.add_assoc])
  obtain ⟨opening, hopening, hquoted⟩ := exists_of_afterDeclaration hafter
  obtain ⟨s, hm, hrest, htokens⟩ := l.exists_reader hl hkind
  rw [show l.tokens = _ from hxy, hys]
  exact announces_append (announces_of_opening hm (hrest.trans hquoted) hopening hname hmem htokens)

end BicepMigration.Migration
