import BicepMigration.Proofs.Template.LiteralUse
import BicepMigration.Proofs.Template.NextUse
import BicepMigration.Proofs.Template.ReadBack
import BicepMigration.Proofs.Template.Sighting

/-!
# What is seen in values

A value is written with its keys and its scalars, a line each. Of a key nothing is seen, and separators can be told apart
from each other by nothing that is seen. So what is written for a value that was read shows the same names as the tokens
that it was read from. There is one exception: in an array a symbol directly after the opening bracket can stand before
a colon, and would be taken for a key at the start of a line.
-/

namespace BicepMigration.Template

open Text

/-- Characters are spelled in one way. -/
theorem spelled_eq_of_bare {a b : List Lexeme} (ha : Part a) (hb : Part b) (h : bare a = bare b) : spelled a = spelled b := by
  rw [← spelled_regap [] a, regap_eq_of_bare ha hb h, spelled_regap]

/-- Spellings are detached by their first one. -/
theorem detached_cons {t : Spelling} (h : t.kind ≠ .identifier ∧ t.kind ≠ .dot ∧ t.kind ≠ .colon) (ts : List Spelling) :
    Detached (t :: ts) := fun _ hu => Option.some.inj hu ▸ h

/-- After a separator something new starts. -/
theorem detached_of_separates {ts : List Spelling} (h : ∀ t, ts.head? = some t → t.kind.separates = true) : Detached ts := by
  intro t ht
  have hs := h t ht
  refine ⟨?_, ?_, ?_⟩ <;> intro hk <;> simp [hk, TokenKind.separates] at hs

/-- What a separator starts is detached. -/
theorem detached_spellings {toks : List Token} (h : ∀ t, toks.head? = some t → t.kind.separates = true) :
    Detached (spellings toks) := by
  refine detached_of_separates fun t ht => ?_
  rw [spellings, List.head?_map, Option.map_eq_some_iff] at ht
  obtain ⟨u, hu, rfl⟩ := ht
  exact h u hu

variable {symbols : List String} {view : View}

section Keys

/-- The tokens of a key: a name, or none at all. -/
def SpellsKey (ks : List Spelling) : Prop := (∃ name, ks = [⟨.identifier, name⟩]) ∨ ∀ k ∈ ks, k.kind ≠ .identifier

/-- The tokens of a key spell one. -/
theorem spellsKey_of_isKey {key : List Token} {name : String} {quoted : Bool} (h : IsKey key name quoted) :
    SpellsKey (spellings key) := by
  cases quoted with
  | false =>
    obtain ⟨t, rfl, hk, -⟩ := h
    exact .inl ⟨t.text, by simp [Token.spelling, Spelling.ofText, hk]⟩
  | true => exact .inr (by simpa using IsLiteral.kind_ne h)

/-- The lexemes of a key spell one. -/
theorem spellsKey_keyLexemes (key : String) (quoted : Bool) : SpellsKey (spelled (keyLexemes key quoted)) := by
  cases quoted with
  | false => exact .inl ⟨key, by simp [keyLexemes, nameLexeme, Lexeme.spelling, Spelling.ofText]⟩
  | true => exact .inr (by simpa [keyLexemes] using kind_quoteLexemes _)

/-- Of a key nothing is seen, and a value stands after it. -/
theorem SpellsKey.sights_eq {ks : List Spelling} (h : SpellsKey ks) (hside : view.side = .key) {colon : Spelling}
    (hc : colon.kind = .colon) (rest : List Spelling) :
    sights symbols view (ks ++ colon :: rest) = sights symbols .value rest := by
  have hcolon : colon.kind ≠ .identifier := by simp [hc]
  rcases h with ⟨name, rfl⟩ | h
  · have hnone : sight? symbols view ⟨.identifier, name⟩ (colon :: rest) = none := by
      simp [sight?, startsWithColon, hc, hside, Side.admits]
    rw [List.singleton_append, sights_cons, hnone, sights_cons_of_kind hcolon, View.after_of_colon hc]
    rfl
  · rw [sights_append_of_kind h, sights_cons_of_kind hcolon, View.after_of_colon hc]

end Keys

section Written

variable {leaves leaves' : Leaves} {edited : EditedText} {depth : Nat}

/-- What is written for a value is spelled in one way. -/
theorem spelled_value_eq {v : Value} (h : leaves.Show edited v) (h' : leaves'.Show edited v) (depth : Nat) :
    spelled (leaves.value depth v) = spelled (leaves'.value depth v) := by
  obtain ⟨helement, htext⟩ := isLeaf_value h depth
  obtain ⟨helement', htext'⟩ := isLeaf_value h' depth
  exact spelled_eq_of_bare helement.toPart helement'.toPart (htext.symm.trans htext')

/-- A line shows what it holds, and the next line comes after a separator. -/
theorem sights_line (a b : List Spelling) : sights symbols view (a ++ newlineLexeme.spelling :: b) =
    sights symbols view a ++ sights symbols ⟨.key, (view.past a).announced⟩ b := by
  rw [sights_append (detached_cons (by simp [newlineLexeme]) b), sights_cons_of_kind (by simp [newlineLexeme]),
    View.after_of_separates rfl]

/-- What is seen of the values of properties that are written at a level. -/
def entrySights (symbols : List String) (leaves : Leaves) (depth : Nat) (ps : ObjectLiteral) : List Sight :=
  ps.flatMap fun p => sights symbols .value (spelled (leaves.value depth p.value))

/-- The sights of properties come one after another. -/
theorem entrySights_cons (symbols : List String) (leaves : Leaves) (depth : Nat) (p : Property Value) (ps : ObjectLiteral) :
    entrySights symbols leaves depth (p :: ps) =
      sights symbols .value (spelled (leaves.value depth p.value)) ++ entrySights symbols leaves depth ps := rfl

/-- Properties show what their values show. -/
theorem sights_entries (hside : view.side = .key) (ps : ObjectLiteral) :
    sights symbols view (spelled (leaves.entries depth ps)) = entrySights symbols leaves depth ps := by
  induction ps generalizing view with
  | nil => simp [Leaves.entries, entrySights]
  | cons p ps ih =>
    obtain ⟨key, quoted, value, line⟩ := p
    rw [Leaves.entries, spelled, List.map_append, List.map_cons, List.map_append, List.map_cons, entrySights_cons]
    change sights symbols view (spelled (regap (indent depth) (keyLexemes key quoted)) ++ _ ::
      (spelled (regap [' '] (leaves.value depth value)) ++ newlineLexeme.spelling :: spelled (leaves.entries depth ps))) = _
    rw [spelled_regap, spelled_regap, (spellsKey_keyLexemes key quoted).sights_eq hside rfl, sights_line, ih rfl]

/-- Elements are spelled one after another, on lines of their own. -/
theorem spelled_items_cons (leaves : Leaves) (depth : Nat) (v : Value) (vs : List Value) :
    spelled (leaves.items depth (v :: vs)) =
      spelled (leaves.value depth v) ++ newlineLexeme.spelling :: spelled (leaves.items depth vs) := by
  rw [Leaves.items, spelled, List.map_append, List.map_cons]
  exact congrArg (· ++ _) (spelled_regap _ _)

/-- Elements of which nothing is seen show nothing. -/
theorem sights_items_eq_nil {vs : List Value}
    (h : ∀ v ∈ vs, ∀ view, sights symbols view (spelled (leaves.value depth v)) = []) :
    sights symbols view (spelled (leaves.items depth vs)) = [] := by
  induction vs generalizing view with
  | nil => simp [Leaves.items]
  | cons v vs ih =>
    rw [spelled_items_cons, sights_line, h v List.mem_cons_self]
    exact ih fun w hw => h w (List.mem_cons_of_mem _ hw)

/-- An object is its properties in braces. -/
theorem exists_spelled_object (symbols : List String) (leaves : Leaves) (depth : Nat) (ps : ObjectLiteral) :
    ∃ inside, spelled (leaves.value depth (.object ps)) = ⟨.braceOpen, ""⟩ :: (inside ++ [⟨.braceClose, ""⟩]) ∧
      sights symbols .start inside = entrySights symbols leaves (depth + 1) ps := by
  cases ps with
  | nil => exact ⟨[], by rw [Leaves.value]; rfl, rfl⟩
  | cons p ps =>
    refine ⟨newlineLexeme.spelling :: spelled (leaves.entries (depth + 1) (p :: ps)), ?_, ?_⟩
    · rw [Leaves.value, spelled, List.map_cons, List.map_append, List.map_cons]
      rfl
    · rw [sights_cons_of_kind (by simp [newlineLexeme]), View.after_of_separates rfl, sights_entries rfl]

/-- An array is its elements in brackets. -/
theorem exists_spelled_array (symbols : List String) (leaves : Leaves) (depth : Nat) (vs : List Value) :
    ∃ inside, spelled (leaves.value depth (.array vs)) = ⟨.bracketOpen, ""⟩ :: (inside ++ [⟨.bracketClose, ""⟩]) ∧
      sights symbols .value inside = sights symbols .start (spelled (leaves.items (depth + 1) vs)) := by
  cases vs with
  | nil => exact ⟨[], by rw [Leaves.value]; rfl, by rw [Leaves.items]; rfl⟩
  | cons v vs =>
    refine ⟨newlineLexeme.spelling :: spelled (leaves.items (depth + 1) (v :: vs)), ?_, ?_⟩
    · rw [Leaves.value, spelled, List.map_cons, List.map_append, List.map_cons]
      rfl
    · rw [sights_cons_of_kind (by simp [newlineLexeme]), View.after_of_separates rfl]
      rfl

end Written

section Read

variable {source : String} {l : Layout} {leaves : Leaves}

/-- The text of tokens is spelled like the tokens. -/
theorem spelled_of_raw (hs : source.toList = l.chars) {first : Token} {others : List Token}
    (hb : Balanced (kinds (first :: others))) (hstands : StandsIn l.tokens (first :: others)) {ls : List Lexeme}
    (hp : Part ls) (htext : (Fragment.ofTokens source first others).raw.toList = bare ls) :
    spelled ls = spellings (first :: others) := by
  obtain ⟨there, ms, htokens, hplaced, hlegible⟩ := exists_placed hs hstands
  have hbalanced : Balanced (ms.map (·.kind)) := by
    rw [← kinds_tokensAt there, ← htokens]
    exact hb
  cases ms with
  | nil => cases htokens
  | cons m ms =>
    have hpart : Part (m :: ms) := ⟨by simp, hbalanced, hlegible⟩
    rw [htokens, spellings_tokensAt]
    obtain ⟨rfl, rfl⟩ := List.cons.inj htokens
    rw [raw_ofTokens hplaced] at htext
    exact spelled_eq_of_bare hp hpart htext.symm

/-- A scalar is spelled like the tokens that it was read from. -/
theorem spelled_scalar (hs : source.toList = l.chars) {first : Token} {others : List Token}
    (he : IsElement (kinds (first :: others))) (hstands : StandsIn l.tokens (first :: others))
    (h : leaves.Show (.unedited source) (scalar source first others)) (depth : Nat) :
    spelled (leaves.value depth (scalar source first others)) = spellings (first :: others) := by
  obtain ⟨helement, htext⟩ := isLeaf_value h depth
  have hraw (hr : renderValue (.unedited source) depth (scalar source first others) =
      (Fragment.ofTokens source first others).raw) :
      spelled (leaves.value depth (scalar source first others)) = spellings (first :: others) :=
    spelled_of_raw hs he.balanced hstands helement.toPart (hr ▸ htext)
  rcases renderValue_scalar_cases (.unedited source) depth first others with hr | ⟨hr, -⟩ | ⟨rfl, hk, hmem, hr⟩
  · exact hraw hr
  · exact hraw hr
  · rw [hr] at htext
    have hname := isName_of_mem_callWords hmem
    rw [spelled_eq_of_bare helement.toPart (element_name hname).toPart (htext.symm.trans (by simp [nameLexeme]))]
    simp [nameLexeme, Lexeme.spelling, Token.spelling, hk]

/-- Separators let a key stand after them. -/
theorem past_separators {seps : List Token} (hs : ∀ t ∈ seps, t.kind.separates = true) (hne : seps ≠ []) :
    view.past (spellings seps) = ⟨.key, view.announced⟩ := by
  induction seps generalizing view with
  | nil => exact absurd rfl hne
  | cons t seps ih =>
    rw [spellings, List.map_cons, View.past_cons, View.after_of_separates (hs t List.mem_cons_self)]
    cases seps with
    | nil => rfl
    | cons u seps => exact ih (fun v hv => hs v (List.mem_cons_of_mem _ hv)) (by simp)

/-- Of separators nothing is seen. -/
theorem sights_separators {seps : List Token} (hs : ∀ t ∈ seps, t.kind.separates = true) (ts : List Spelling) :
    sights symbols view (spellings seps ++ ts) = sights symbols (view.past (spellings seps)) ts := by
  refine sights_append_of_kind fun t ht => ?_
  obtain ⟨u, hu, rfl⟩ := List.mem_map.1 ht
  exact (TokenKind.neutral_of_separates (hs u hu)).1

/-- After separators, or after a brace, a key may stand. -/
theorem side_past_separators {seps rest : List Token} {first : Token} (hs : ∀ t ∈ seps, t.kind.separates = true)
    (hf : first.kind.separates = false)
    (h : view.side = .key ∨ ∀ t, (seps ++ first :: rest).head? = some t → t.kind.separates = true) :
    (view.past (spellings seps)).side = .key := by
  cases seps with
  | nil => exact h.resolve_right fun hsep => by simp [hsep first rfl] at hf
  | cons t seps => rw [past_separators hs (by simp)]

/-- Where an array starts no symbol stands before a colon. -/
def StartsFree (symbols : List String) (toks : List Token) : Prop :=
  ∀ t rest, toks = t :: rest → startsWithColon (spellings rest) = true → t.kind = .identifier → t.spelling.name ∉ symbols

/-- After the bracket of an array no symbol stands before a colon if no symbol opens a key. -/
theorem startsFree_of_bracket {first close : Token} {inside : List Token} (ho : first.kind = .bracketOpen)
    (h : anyTriple (opensKey symbols) (first :: (inside ++ [close])) = false) : StartsFree symbols inside := by
  rintro t rest rfl hcolon hname hmem
  cases rest with
  | nil => cases hcolon
  | cons colon rest =>
    have hfalse := eq_false_of_anyTriple h (show _ = [] ++ first :: t :: colon :: (rest ++ [close]) from rfl)
    rw [Token.spelling_name hname] at hmem
    have hkind : colon.kind = .colon := of_decide_eq_true hcolon
    simp [opensKey, ho, hname, hmem, hkind] at hfalse

/-- Tokens in brackets are spelled with the brackets. -/
theorem spellings_enclosed {first close : Token} {inside : List Token} {kind : TokenKind} (hk : first.kind = kind)
    (hne : kind ≠ .identifier) :
    spellings (first :: (inside ++ [close])) = ⟨kind, ""⟩ :: (spellings inside ++ [close.spelling]) := by
  rw [spellings, List.map_cons, List.map_append, List.map_singleton, first.spelling_of_kind hk hne]

/-- An element of an array shows what it would show at the start of a line. -/
theorem sights_item {toks : List Token} (hview : view.side = .key ∨ view.side = .other ∧ StartsFree symbols toks)
    (hne : toks ≠ []) : sights symbols view (spellings toks) = sights symbols ⟨.key, view.announced⟩ (spellings toks) ∧
      view.past (spellings toks) = View.past ⟨.key, view.announced⟩ (spellings toks) := by
  obtain ⟨side, announced⟩ := view
  rcases hview with rfl | ⟨rfl, hfree⟩
  · exact ⟨rfl, rfl⟩
  cases toks with
  | nil => exact absurd rfl hne
  | cons t rest => exact ⟨sights_of_side (hfree t rest rfl), rfl⟩

mutual

/-- What is written for a value shows what the tokens show that it was read from. -/
theorem alike_readValue (hs : source.toList = l.chars) (first : Token) (others : List Token)
    (he : IsElement (kinds (first :: others))) (hstands : StandsIn l.tokens (first :: others))
    (hkeys : anyTriple (opensKey symbols) (first :: others) = false)
    (h : leaves.Show (.unedited source) (readValue source first others)) (depth : Nat) :
    Alike symbols (spellings (first :: others)) (spelled (leaves.value depth (readValue source first others))) := by
  have hreading := isReading_readValue source first others
  generalize readValue source first others = value at h hreading ⊢
  cases hreading with
  | scalar => exact .of_eq (spelled_scalar hs he hstands h depth).symm
  | @object inside entries ho hi hr =>
    have hw := weight_enclosed?_lt hi
    have helems := standsIn_elements .brace (by simp) (by rw [ho]; rfl) (by rw [ho]; rfl) he hstands hi
    obtain ⟨close, hothers, hclose, hinside⟩ := exists_enclosed .brace (by simp) (by rw [ho]; rfl) he hi
    have hcloses : close.kind.closes = true := hclose ▸ rfl
    have hshow : ∀ p ∈ entries, leaves.Show (.unedited source) p.value := by
      cases h with
      | object _ hv => exact hv
    obtain ⟨written, hwritten, hsights⟩ := exists_spelled_object symbols leaves depth entries
    have hread := sights_readEntries hs (elements inside) (parted_elements hinside) hr (fun e he => (helems e he).2)
      (anyTriple_of_isInfix hkeys ⟨[first], [close], by simp [hothers]⟩) hshow (depth + 1)
      .start (.inl rfl)
    rw [hwritten, hothers, spellings_enclosed ho (by simp)]
    refine .enclose (by simp) hcloses rfl fun view => ?_
    rw [View.after_of_brace rfl, hsights]
    exact hread
  | @array inside ho hi =>
    have hw := weight_enclosed?_lt hi
    have helems := standsIn_elements .square (by simp) (by rw [ho]; rfl) (by rw [ho]; rfl) he hstands hi
    obtain ⟨close, hothers, hclose, hinside⟩ := exists_enclosed .square (by simp) (by rw [ho]; rfl) he hi
    have hcloses : close.kind.closes = true := hclose ▸ rfl
    have hshow : ∀ v ∈ readItems source (elements inside), leaves.Show (.unedited source) v := by
      cases h with
      | array hv => exact hv
    obtain ⟨written, hwritten, hsights⟩ := exists_spelled_array symbols leaves depth (readItems source (elements inside))
    have hread := sights_readItems hs (elements inside) (parted_elements hinside) (fun e he => (helems e he).2)
      (anyTriple_of_isInfix hkeys ⟨[first], [close], by simp [hothers]⟩) hshow (depth + 1)
      .value (.inr (.inr ⟨rfl, startsFree_of_bracket ho (hothers ▸ hkeys)⟩))
    rw [hwritten, hothers, spellings_enclosed ho (by simp)]
    refine .enclose (by simp) hcloses rfl fun view => ?_
    rw [View.after_of_bracket rfl, hsights]
    exact hread
termination_by others.length + 1

/-- Properties show what the tokens show that they were read from. -/
theorem sights_readEntries (hs : source.toList = l.chars) {toks : List Token} (es : List (List Token))
    (hp : Parted toks es) {entries : ObjectLiteral} (hr : readEntries source es = some entries)
    (helems : ∀ e ∈ es, IsElement (kinds e) ∧ StandsIn l.tokens e) (hkeys : anyTriple (opensKey symbols) toks = false)
    (h : ∀ p ∈ entries, leaves.Show (.unedited source) p.value) (depth : Nat) (view : View)
    (hview : view.side = .key ∨ ∀ t, toks.head? = some t → t.kind.separates = true) :
    sights symbols view (spellings toks) = entrySights symbols leaves depth entries := by
  match es, hp with
  | _, .done hsep =>
    obtain rfl : [] = entries := by simpa [readEntries] using hr
    have hnone := (@sights_separators symbols view) hsep []
    rw [List.append_nil] at hnone
    exact hnone
  | _, @Parted.element seps first others rest es hsep he hrest hp =>
    obtain ⟨p, entries', hproperty, hr', rfl⟩ := readEntries_cons_eq_some hr
    have hl := length_propertyAt_lt hproperty
    obtain ⟨key, colon, helement, hk, hc⟩ := propertyAt_cases hproperty
    obtain ⟨-, hstands⟩ := helems _ List.mem_cons_self
    obtain ⟨hvalue, hvstands⟩ := standsIn_value hproperty he hstands
    have hside := side_past_separators hsep he.not_separates hview
    have hcons : seps ++ first :: (others ++ rest) = seps ++ (key ++ colon :: (p.value.1 :: p.value.2 ++ rest)) := by
      rw [← List.cons_append, helement, List.append_assoc]
      rfl
    rw [hcons] at hkeys ⊢
    have hfirst := alike_readValue hs p.value.1 p.value.2 hvalue hvstands
      (anyTriple_of_isInfix hkeys ⟨seps ++ (key ++ [colon]), rest, by simp⟩) (h _ List.mem_cons_self) depth
    have hothers := sights_readEntries hs es hp hr' (fun e he => helems e (List.mem_cons_of_mem _ he))
      (anyTriple_of_isInfix hkeys ⟨seps ++ (key ++ colon :: p.value.1 :: p.value.2), [], by simp⟩)
      (fun q hq => h q (List.mem_cons_of_mem _ hq)) depth (View.value.past (spellings (p.value.1 :: p.value.2)))
      (.inr hrest)
    rw [spellings, List.map_append, sights_separators hsep, List.map_append, List.map_cons,
      (spellsKey_of_isKey hk).sights_eq hside hc, List.map_append, sights_append (detached_spellings hrest), hothers,
      entrySights_cons]
    exact congrArg (· ++ _) (hfirst _).1
termination_by weight es
decreasing_by
  all_goals
    simp only [weight, List.length_cons] at *
    omega

/-- Elements show what the tokens show that they were read from. -/
theorem sights_readItems (hs : source.toList = l.chars) {toks : List Token} (es : List (List Token))
    (hp : Parted toks es) (helems : ∀ e ∈ es, IsElement (kinds e) ∧ StandsIn l.tokens e)
    (hkeys : anyTriple (opensKey symbols) toks = false)
    (h : ∀ v ∈ readItems source es, leaves.Show (.unedited source) v) (depth : Nat) (view : View)
    (hview : view.side = .key ∨ (∀ t, toks.head? = some t → t.kind.separates = true) ∨
      view.side = .other ∧ StartsFree symbols toks) :
    sights symbols view (spellings toks) =
      sights symbols ⟨.key, view.announced⟩ (spelled (leaves.items depth (readItems source es))) := by
  match es, hp with
  | _, .done hsep =>
    have hnone := (@sights_separators symbols view) hsep []
    rw [List.append_nil] at hnone
    rw [readItems, Leaves.items]
    exact hnone
  | _, @Parted.element seps first others rest es hsep he hrest hp =>
    obtain ⟨-, hstands⟩ := helems _ List.mem_cons_self
    have hcons : seps ++ first :: (others ++ rest) = seps ++ (first :: others ++ rest) := rfl
    rw [hcons] at hkeys hview ⊢
    rw [readItems] at h ⊢
    have hfirst := alike_readValue hs first others he hstands
      (anyTriple_of_isInfix hkeys ⟨seps, rest, by simp⟩) (h _ List.mem_cons_self) depth ⟨.key, view.announced⟩
    have hstart : (view.past (spellings seps)).announced = view.announced ∧
        ((view.past (spellings seps)).side = .key ∨
          (view.past (spellings seps)).side = .other ∧ StartsFree symbols (first :: others)) := by
      cases seps with
      | cons t seps =>
        rw [past_separators hsep (by simp)]
        exact ⟨rfl, .inl rfl⟩
      | nil =>
        refine ⟨rfl, hview.imp_right fun hview => ?_⟩
        have hfree := hview.resolve_left fun hsep => by
          have hnot := he.not_separates
          rw [hsep first rfl] at hnot
          cases hnot
        refine ⟨hfree.1, fun t ts ht hcolon => ?_⟩
        obtain ⟨rfl, rfl⟩ := List.cons.inj ht
        refine hfree.2 _ _ rfl ?_
        cases others with
        | nil => cases hcolon
        | cons u others => exact hcolon
    obtain ⟨hannounced, hstart⟩ := hstart
    obtain ⟨hitem, hpast⟩ := sights_item hstart (by simp)
    rw [hannounced] at hitem hpast
    have hothers := sights_readItems hs es hp (fun e he => helems e (List.mem_cons_of_mem _ he))
      (anyTriple_of_isInfix hkeys ⟨seps ++ first :: others, [], by simp⟩) (fun v hv => h v (List.mem_cons_of_mem _ hv)) depth
      ((view.past (spellings seps)).past (spellings (first :: others))) (.inr (.inl hrest))
    rw [spellings, List.map_append, sights_separators hsep, List.map_append, sights_append (detached_spellings hrest), hothers,
      spelled_items_cons, sights_line, ← hfirst.1, ← hfirst.2, ← hitem, ← hpast]
termination_by weight es
decreasing_by
  all_goals
    simp only [weight, List.length_cons] at *
    omega

end

/-- Of a literal nothing is seen. -/
theorem sights_of_isLiteral (hs : source.toList = l.chars) (hw : ∀ word ∈ literalWords, word ∉ symbols) {v : Value}
    (hv : v.Every (IsRead source l.tokens)) (hl : v.isLiteral = true) (h : leaves.Show (.unedited source) v) (depth : Nat)
    (view : View) : sights symbols view (spelled (leaves.value depth v)) = [] := by
  induction hv generalizing depth view with
  | scalar hscalar hread =>
    obtain ⟨first, others, rfl, he, hstands⟩ := hread
    rw [readValue_of_isScalar hscalar] at hl h ⊢
    rw [spelled_scalar hs he hstands h]
    rcases kind_ne_of_isLiteral he.balanced hl with hk | ⟨rfl, hk, hmem, -⟩
    · refine sights_of_kind fun t ht => ?_
      obtain ⟨u, hu, rfl⟩ := List.mem_map.1 ht
      exact hk u hu
    · have hname : first.spelling.name ∉ symbols := by
        rw [Token.spelling_name hk]
        exact hw _ hmem
      simp [sights, sight?, hname]
  | object _ _ ih =>
    obtain ⟨inside, hwritten, hsights⟩ := exists_spelled_object symbols leaves depth _
    rw [hwritten, sights_enclosed (by simp) rfl, View.after_of_brace rfl, hsights, entrySights, List.flatMap_eq_nil_iff]
    cases h with
    | object _ hshow => exact fun p hp => ih p hp (isLiteral_of_entriesLiteral hl p hp) (hshow p hp) _ _
  | @array items _ ih =>
    obtain ⟨inside, hwritten, hsights⟩ := exists_spelled_array symbols leaves depth items
    rw [hwritten, sights_enclosed (by simp) rfl, View.after_of_bracket rfl, hsights]
    cases h with
    | array hshow =>
      exact sights_items_eq_nil fun v hv view => ih v hv (isLiteral_of_areLiteral hl v hv) (hshow v hv) _ view

end Read

end BicepMigration.Template
