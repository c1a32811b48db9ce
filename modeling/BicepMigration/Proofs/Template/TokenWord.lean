import BicepMigration.Proofs.Template.Layout

/-!
# The grammar of tokens

The kinds of the tokens of a template are items in a row: plain tokens, brackets around items, and strings whose holes
hold items. A reader that stands inside brackets and strings has kinds of tokens before it that complete these. Main
statement: what can be read is items, and the tokens stand in order without touching each other's characters. Which
characters stand between the tokens is not described here.
-/

namespace BicepMigration.Template

open Text

/-- A bracket outside strings is opened by one kind of token and closed by another. -/
inductive Encloses : TokenKind → TokenKind → Prop where
  | brace : Encloses .braceOpen .braceClose
  | bracket : Encloses .bracketOpen .bracketClose
  | paren : Encloses .parenOpen .parenClose

/-- A token that is neither a bracket nor a part of a single-line string. -/
def TokenKind.isPlain (kind : TokenKind) : Bool :=
  !kind.opens && !kind.closes && !([.stringStart, .stringText, .stringEnd].contains kind)

/-- The text of a string between two holes, if there is any. -/
def IsOptionalText (ks : List TokenKind) : Prop := ks = [] ∨ ks = [.stringText]

mutual

/-- Plain tokens, brackets around items, and strings, in any number and order. -/
inductive Items : List TokenKind → Prop where
  | nil : Items []
  | plain {kind : TokenKind} {ks : List TokenKind} : kind.isPlain = true → Items ks → Items (kind :: ks)
  | enclosed {opening closing : TokenKind} {inside ks : List TokenKind} : Encloses opening closing → Items inside →
      Items ks → Items (opening :: (inside ++ closing :: ks))
  | string {text holes ks : List TokenKind} : IsOptionalText text → Holes holes → Items ks →
      Items (.stringStart :: (text ++ (holes ++ .stringEnd :: ks)))

/-- Holes around items, in any number, each with text after it or without. -/
inductive Holes : List TokenKind → Prop where
  | nil : Holes []
  | hole {inside text ks : List TokenKind} : Items inside → IsOptionalText text → Holes ks →
      Holes (.holeStart :: (inside ++ .holeEnd :: (text ++ ks)))

end

/-- Items after items are items. -/
theorem Items.append {a b : List TokenKind} (ha : Items a) (hb : Items b) : Items (a ++ b) := by
  match ha with
  | .nil => exact hb
  | .plain hk ha => exact .plain hk (ha.append hb)
  | .enclosed he hi ha => simpa using Items.enclosed he hi (ha.append hb)
  | .string ht hh ha => simpa using Items.string ht hh (ha.append hb)

section Completion

/-- A string that has been opened goes on with text of a form and with holes, it ends, and the others follow. -/
def EndsString (isText others : List TokenKind → Prop) (ks : List TokenKind) : Prop :=
  ∃ text holes rest, ks = text ++ (holes ++ .stringEnd :: rest) ∧ isText text ∧ Holes holes ∧ others rest

/-- The brackets are closed, the innermost first, with items before each close and after the last one. After a hole its
string ends. -/
def ClosesAll : List Bracket → List TokenKind → Prop
  | [], ks => Items ks
  | bracket :: outer, ks => ∃ inside rest, ks = inside ++ bracket.closeKind :: rest ∧ Items inside ∧
      if bracket = .hole then EndsString IsOptionalText (ClosesAll outer) rest else ClosesAll outer rest

/-- What is open is completed. -/
def Nest.CompletedBy (n : Nest) (ks : List TokenKind) : Prop :=
  match n.zone with
  | .code => ClosesAll n.opened ks
  | .string => EndsString IsOptionalText (ClosesAll n.opened) ks
  | .closing => EndsString (· = []) (ClosesAll n.opened) ks

variable {opened : List Bracket} {ks : List TokenKind}

/-- Items go before what completes brackets. -/
theorem ClosesAll.prepend {items : List TokenKind} (hi : Items items) (h : ClosesAll opened ks) :
    ClosesAll opened (items ++ ks) := by
  cases opened with
  | nil => exact hi.append h
  | cons bracket outer =>
    obtain ⟨inside, rest, rfl, hinside, hrest⟩ := h
    exact ⟨items ++ inside, rest, by simp, hi.append hinside, hrest⟩

/-- A bracket is opened before what completes it. -/
theorem ClosesAll.enclose {opening : TokenKind} (bracket : Bracket) (he : Encloses opening bracket.closeKind)
    (hb : bracket ≠ .hole) (h : ClosesAll (bracket :: opened) ks) : ClosesAll opened (opening :: ks) := by
  obtain ⟨inside, rest, rfl, hinside, hrest⟩ := h
  rw [if_neg hb] at hrest
  simpa using hrest.prepend (.enclosed he hinside .nil)

/-- A bracket that is closed at once holds no items. -/
theorem ClosesAll.close {bracket : Bracket} (hb : bracket ≠ .hole) (h : ClosesAll opened ks) :
    ClosesAll (bracket :: opened) (bracket.closeKind :: ks) :=
  ⟨[], ks, rfl, .nil, by rwa [if_neg hb]⟩

/-- A hole is opened before what completes it, and the string goes on. -/
theorem ClosesAll.hole (h : ClosesAll (.hole :: opened) ks) :
    EndsString (· = []) (ClosesAll opened) (.holeStart :: ks) := by
  obtain ⟨inside, rest, rfl, hinside, hrest⟩ := h
  rw [if_pos rfl] at hrest
  obtain ⟨text, holes, others, rfl, htext, hholes, hothers⟩ := hrest
  exact ⟨[], _, others, by simp [Bracket.closeKind], rfl, .hole hinside htext hholes, hothers⟩

/-- A string that goes on without further text may go on with none. -/
theorem EndsString.of_closing {others : List TokenKind → Prop} (h : EndsString (· = []) others ks) :
    EndsString IsOptionalText others ks := by
  obtain ⟨text, holes, rest, hks, htext, hholes, hothers⟩ := h
  exact ⟨text, holes, rest, hks, .inl htext, hholes, hothers⟩

/-- What completes a nest after a token completes the nest before, together with the token. -/
theorem Nest.CompletedBy.cons {n m : Nest} {kind : TokenKind} (hn : n.after kind = some m) (h : m.CompletedBy ks) :
    n.CompletedBy (kind :: ks) := by
  obtain ⟨zone, opened⟩ := n
  cases zone with
  | code =>
    change ClosesAll opened (kind :: ks)
    have hclose (bracket : Bracket) (hb : bracket ≠ .hole) (hm : Nest.close ⟨.code, opened⟩ bracket .code = some m) :
        ClosesAll opened (bracket.closeKind :: ks) := by
      obtain ⟨outer, ho, rfl⟩ := opened_of_close hm
      obtain rfl : opened = bracket :: outer := ho
      exact ClosesAll.close hb h
    cases kind <;> simp only [Nest.after, Option.some.injEq, reduceCtorEq] at hn
    case braceOpen => subst hn; exact ClosesAll.enclose .brace .brace (by simp) h
    case bracketOpen => subst hn; exact ClosesAll.enclose .square .bracket (by simp) h
    case parenOpen => subst hn; exact ClosesAll.enclose .round .paren (by simp) h
    case braceClose => exact hclose .brace (by simp) hn
    case bracketClose => exact hclose .square (by simp) hn
    case parenClose => exact hclose .round (by simp) hn
    case holeEnd =>
      obtain ⟨outer, ho, rfl⟩ := opened_of_close hn
      obtain rfl : opened = .hole :: outer := ho
      exact ⟨[], ks, rfl, .nil, by rwa [if_pos rfl]⟩
    case stringStart =>
      subst hn
      obtain ⟨text, holes, rest, rfl, htext, hholes, hothers⟩ := h
      simpa using ClosesAll.prepend (.string htext hholes .nil) hothers
    all_goals
      subst hn
      exact ClosesAll.prepend (.plain rfl .nil) h
  | string =>
    cases kind <;> simp only [Nest.after, Option.some.injEq, reduceCtorEq] at hn
    case stringText =>
      subst hn
      obtain ⟨text, holes, rest, rfl, rfl, hholes, hothers⟩ := h
      exact ⟨[.stringText], holes, rest, rfl, .inr rfl, hholes, hothers⟩
    case holeStart => subst hn; exact (ClosesAll.hole h).of_closing
    case stringEnd => subst hn; exact ⟨[], [], ks, rfl, .inl rfl, .nil, h⟩
  | closing =>
    cases kind <;> simp only [Nest.after, Option.some.injEq, reduceCtorEq] at hn
    case holeStart => subst hn; exact ClosesAll.hole h
    case stringEnd => subst hn; exact ⟨[], [], ks, rfl, rfl, .nil, h⟩

/-- Kinds of tokens that lead out of a nest complete it. -/
theorem Nest.completedBy_of_run {n : Nest} (h : n.run ks = some .top) : n.CompletedBy ks := by
  induction ks generalizing n with
  | nil =>
    obtain rfl := Option.some.inj h
    exact Items.nil
  | cons kind ks ih =>
    rw [Nest.run_cons] at h
    obtain ⟨m, hm, hr⟩ := Option.bind_eq_some_iff.1 h
    exact (ih hr).cons hm

end Completion

/-- Balanced tokens in brackets are balanced. -/
theorem Encloses.balanced {opening closing : TokenKind} (h : Encloses opening closing) {inside : List TokenKind}
    (hi : Balanced inside) : Balanced (opening :: (inside ++ [closing])) := by
  cases h with
  | brace => exact (@Balanced.enclose _ _ _ .brace) rfl hi rfl
  | bracket => exact (@Balanced.enclose _ _ _ .square) rfl hi rfl
  | paren => exact (@Balanced.enclose _ _ _ .round) rfl hi rfl

section Run

variable {zone : Zone} {ks : List TokenKind}

/-- Text may come at the start of a string or be missing. -/
theorem IsOptionalText.exists_zone (h : IsOptionalText ks) (opened : List Bracket) :
    ∃ zone, zone ≠ .code ∧ Nest.run ⟨.string, opened⟩ ks = some ⟨zone, opened⟩ := by
  rcases h with rfl | rfl
  · exact ⟨.string, by simp, rfl⟩
  · exact ⟨.closing, by simp, rfl⟩

/-- In a hole there is code. -/
theorem after_holeStart (hz : zone ≠ .code) (opened : List Bracket) :
    Nest.after ⟨zone, opened⟩ .holeStart = some ⟨.code, .hole :: opened⟩ := by
  cases zone <;> first | rfl | exact absurd rfl hz

/-- Behind a string there is code. -/
theorem after_stringEnd (hz : zone ≠ .code) (opened : List Bracket) :
    Nest.after ⟨zone, opened⟩ .stringEnd = some ⟨.code, opened⟩ := by
  cases zone <;> first | rfl | exact absurd rfl hz

mutual

/-- Items end in code as they start. -/
theorem Items.balanced {ks : List TokenKind} (h : Items ks) : Balanced ks := by
  match h with
  | .nil => exact .nil
  | @Items.plain kind _ hk h =>
    have hafter : Nest.top.after kind = some .top := by
      cases kind <;> first | rfl | cases hk
    rw [Balanced, Nest.run_cons, hafter]
    exact h.balanced
  | .enclosed he hi h => simpa using (he.balanced hi.balanced).append h.balanced
  | .string ht hh h =>
    obtain ⟨zone, hzone, htext⟩ := ht.exists_zone []
    obtain ⟨zone', hzone', hholes⟩ := hh.exists_zone hzone []
    change Nest.run ⟨.string, []⟩ _ = _
    rw [Nest.run_append_of_run htext, Nest.run_append_of_run hholes, Nest.run_cons, after_stringEnd hzone']
    exact h.balanced

/-- Holes stand inside a string, and it goes on after them. -/
theorem Holes.exists_zone {ks : List TokenKind} (h : Holes ks) {zone : Zone} (hz : zone ≠ .code)
    (opened : List Bracket) : ∃ zone', zone' ≠ .code ∧ Nest.run ⟨zone, opened⟩ ks = some ⟨zone', opened⟩ := by
  match h with
  | .nil => exact ⟨zone, hz, rfl⟩
  | .hole hi ht h =>
    obtain ⟨zone', hzone', htext⟩ := ht.exists_zone opened
    obtain ⟨zone'', hzone'', hholes⟩ := h.exists_zone hzone' opened
    refine ⟨zone'', hzone'', ?_⟩
    rw [Nest.run_cons, after_holeStart hz, Option.bind_some, Nest.run_append_of_run (hi.balanced.run _), Nest.run_cons]
    exact (Nest.run_append_of_run htext _).trans hholes

end

end Run

/-- Items are exactly what ends in code as it starts. -/
theorem items_iff_balanced {ks : List TokenKind} : Items ks ↔ Balanced ks :=
  ⟨Items.balanced, fun h => (@Nest.completedBy_of_run _ .top) h⟩

/-- The tokens of a text are balanced. -/
theorem balanced_tokenize {source : String} {ts : List Token} (h : tokenize source = .ok ts) : Balanced (kinds ts) := by
  obtain ⟨l, -, rfl⟩ := tokenize_eq_ok_iff.1 h
  rw [Layout.tokens, kinds_tokensAt]
  exact l.balanced

/-- Text that can be read is items, and every token takes characters and ends before the next one starts. -/
theorem tokenize_items {source : String} {ts : List Token} (h : tokenize source = .ok ts) :
    Items (kinds ts) ∧ (∀ t ∈ ts, t.span.start < t.span.stop) ∧
      ts.Pairwise fun a b => a.span.stop ≤ b.span.start := by
  refine ⟨items_iff_balanced.2 (balanced_tokenize h), ?_⟩
  obtain ⟨l, -, rfl⟩ := tokenize_eq_ok_iff.1 h
  obtain ⟨hpairwise, hspans⟩ := apart_tokensAt l.legible.forall_ne_nil l.start
  exact ⟨fun t ht => (hspans t ht).2, hpairwise⟩

/-- A template in which strings stand in holes and holes in strings. -/
def nestedSource : String := "a: '$\x7b[f('x$\x7b1\x7dy$\x7b\x7d')]\x7d' // b\n'''\n\x7d'''"

/-- The tokens of that template, with the offsets where they start and stop. -/
def nestedTokens : List (TokenKind × Nat × Nat) :=
  [(.identifier, 0, 1), (.colon, 1, 2), (.stringStart, 3, 4), (.holeStart, 4, 6), (.bracketOpen, 6, 7),
    (.identifier, 7, 8), (.parenOpen, 8, 9), (.stringStart, 9, 10), (.stringText, 10, 11), (.holeStart, 11, 13),
    (.number, 13, 14), (.holeEnd, 14, 15), (.stringText, 15, 16), (.holeStart, 16, 18), (.holeEnd, 18, 19),
    (.stringEnd, 19, 20), (.parenClose, 20, 21), (.bracketClose, 21, 22), (.holeEnd, 22, 23), (.stringEnd, 23, 24),
    (.newline, 29, 30), (.multilineString, 30, 38)]

/-- The tokens of a text, if it can be read. -/
def tokensOf (source : String) : List Token := (tokenize source).toOption.getD []

/-- A text that can be tokenized has the tokens that are read of it. -/
theorem tokenize_eq {source : String} (h : (tokenize source).isOk = true) : tokenize source = .ok (tokensOf source) := by
  unfold tokensOf
  cases ht : tokenize source with
  | error e =>
    rw [ht] at h
    cases h
  | ok toks => rfl

/-- Strings in holes and holes in strings are items. -/
theorem tokenize_items_nested :
    tokenize nestedSource = .ok (tokensOf nestedSource) ∧
      (tokensOf nestedSource).map (fun t => (t.kind, t.span.start, t.span.stop)) = nestedTokens ∧
      Items (kinds (tokensOf nestedSource)) ∧ (∀ t ∈ tokensOf nestedSource, t.span.start < t.span.stop) ∧
      (tokensOf nestedSource).Pairwise fun a b => a.span.stop ≤ b.span.start := by
  have h : tokenize nestedSource = .ok (tokensOf nestedSource) := tokenize_eq (by decide +kernel)
  exact ⟨h, by decide +kernel, tokenize_items h⟩

end BicepMigration.Template
