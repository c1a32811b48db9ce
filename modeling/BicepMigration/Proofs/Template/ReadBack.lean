import Mathlib.Data.List.Forall2
import BicepMigration.Proofs.Template.Placement

/-!
# Values are read back

What is written for a value is read as a value again, wherever its lexemes stand: an object has the same keys in the
same order, and each of its values is read from what was written for it. So a value of which all scalars are read back
is read back whole. Main statement: a value that was read from a template is the same when it is written and read
again, apart from its place.
-/

namespace BicepMigration.Template

open Text

variable {source : String} {here : Cursor}

section Brackets

/-- What does not close more than it opens is read over. -/
theorem breakAtClose_of_run_append {n m : Nest} {a : List Token} (b : List Token) (h : n.run (kinds a) = some m) :
    breakAtClose n.opened.length (a ++ b) =
      (breakAtClose m.opened.length b).map fun (found, close, rest) => (a ++ found, close, rest) := by
  induction a generalizing n with
  | nil =>
    obtain rfl := Option.some.inj h
    cases hb : breakAtClose n.opened.length b <;> simp [hb]
  | cons t ts ih =>
    rw [kinds_cons, Nest.run_cons] at h
    obtain ⟨n', hn, hr⟩ := Option.bind_eq_some_iff.1 h
    have hopen : ¬ (n.opened.length = 0 && t.kind.closes) = true := by
      intro hc
      obtain ⟨hlen, hcloses⟩ := Bool.and_eq_true_iff.1 hc
      have hnil : n.opened = [] := List.length_eq_zero_iff.1 (of_decide_eq_true hlen)
      obtain ⟨zone, opened⟩ := n
      obtain rfl : opened = [] := hnil
      cases zone <;> cases hk : t.kind <;> rw [hk] at hn hcloses <;> cases hcloses <;> cases hn
    rw [List.cons_append, breakAtClose, if_neg hopen, Nest.depthAfter_eq hn, ih hr, Option.map_map]
    rfl

/-- Balanced tokens go up to the close after them. -/
theorem breakAtClose_of_balanced {inside : List Token} {close : Token} (rest : List Token)
    (h : Balanced (kinds inside)) (hc : close.kind.closes = true) :
    breakAtClose 0 (inside ++ close :: rest) = some (inside, close, rest) := by
  have := breakAtClose_of_run_append (n := .top) (close :: rest) h
  rw [Nest.top, List.length_nil, breakAtClose, if_pos (by simp [hc])] at this
  simpa using this

/-- Balanced tokens before a closing bracket are what it encloses. -/
theorem enclosed?_of_balanced {inside : List Token} {close : Token} (h : Balanced (kinds inside))
    (hc : close.kind.closes = true) : enclosed? (inside ++ [close]) = some inside := by
  rw [enclosed?, breakAtClose_of_balanced [] h hc]

end Brackets

/-- The value that is read from lexemes at a place. -/
def valueAt (source : String) (here : Cursor) (ls : List Lexeme) : Value :=
  match tokensAt here ls with
  | [] => .null
  | first :: others => readValue source first others

/-- A value is read from the lexemes somewhere in the text. -/
def ReadFrom (source : String) (ls : List Lexeme) (v : Value) : Prop :=
  ∃ here gap, Placed source here (regap gap ls) ∧ valueAt source here (regap gap ls) = v

/-- A value is read from the tokens of its lexemes. -/
theorem valueAt_of_tokensAt {ls : List Lexeme} {first : Token} {others : List Token}
    (h : tokensAt here ls = first :: others) : valueAt source here ls = readValue source first others := by
  rw [valueAt, h]

/-- Lexemes that are not empty are read as a value. -/
theorem exists_valueAt (source : String) (here : Cursor) (gap : List Char) {ls : List Lexeme} (hne : ls ≠ []) :
    ∃ first others, tokensAt here (regap gap ls) = first :: others ∧
      valueAt source here (regap gap ls) = readValue source first others := by
  cases ls with
  | nil => exact absurd rfl hne
  | cons l ls => exact ⟨_, _, rfl, rfl⟩

/-- Of two new gaps the last one counts. -/
theorem regap_regap (gap gap' : List Char) (ls : List Lexeme) : regap gap (regap gap' ls) = regap gap ls := by
  cases ls <;> rfl

section Keys

/-- A literal is read from its lexemes. -/
theorem isLiteral_quoteLexemes {inner cs : List Char} (h : unescape inner = some cs) (gap : List Char) (here : Cursor) :
    IsLiteral (tokensAt here (regap gap (quoteLexemes inner))) (String.ofList cs) := by
  unfold quoteLexemes
  by_cases hi : inner = []
  · subst hi
    obtain rfl : [] = cs := by simpa [unescape] using h
    exact .empty rfl rfl
  · rw [if_neg hi]
    exact .text rfl rfl rfl (by simpa [Token.ofChars] using h)

/-- A key is read from its lexemes. -/
theorem isKey_keyLexemes (key : String) (quoted : Bool) (gap : List Char) (here : Cursor) :
    IsKey (tokensAt here (regap gap (keyLexemes key quoted))) key quoted := by
  unfold keyLexemes
  cases quoted with
  | true =>
    have := isLiteral_quoteLexemes (unescape_escapeText key.toList) gap here
    simpa [IsKey] using this
  | false => exact ⟨_, rfl, rfl, by simp [nameLexeme]⟩

end Keys

/-- A property is read with the key of another one, from the lexemes that are written for its value. -/
structure EntryReadFrom (source : String) (leaves : Leaves) (depth : Nat) (p q : Property Value) : Prop where
  key : q.key = p.key
  quoted : q.quoted = p.quoted
  value : ReadFrom source (leaves.value depth p.value) q.value

variable {leaves : Leaves} {edited : EditedText} {depth : Nat}

/-- A colon after a key. -/
abbrev colonLexeme : Lexeme := ⟨[], .colon, [':']⟩

/-- A property is read from the lexemes of its key, a colon, and the lexemes of its value. -/
theorem exists_readEntry {key : String} {quoted : Bool} {gap : List Char} {ls : List Lexeme} (hl : Element ls)
    (hp : Placed source here (regap gap (keyLexemes key quoted) ++ colonLexeme :: regap [' '] ls)) :
    ∃ first others line value,
      tokensAt here (regap gap (keyLexemes key quoted) ++ colonLexeme :: regap [' '] ls) = first :: others ∧
        IsElement (kinds (first :: others)) ∧ ReadFrom source ls value ∧
        ∀ es, readEntries source ((first :: others) :: es) =
          (readEntries source es).map (⟨key, quoted, value, line⟩ :: ·) := by
  have hkey := isKey_keyLexemes key quoted gap here
  have hplaced := hp.right.tail
  rw [tokensAt_append, tokensAt_cons]
  generalize (here.advance (written (regap gap (keyLexemes key quoted)))).advance
    (colonLexeme.gap ++ colonLexeme.text) = there at hplaced ⊢
  have hvalue : ReadFrom source ls (valueAt source there (regap [' '] ls)) := ⟨there, [' '], hplaced, rfl⟩
  obtain ⟨v, vs, hv, hread⟩ := exists_valueAt source there [' '] hl.ne_nil
  have hkinds : kinds (v :: vs) = ls.map (·.kind) := by rw [← hv, kinds_tokensAt, map_kind_regap]
  generalize tokensAt here (regap gap (keyLexemes key quoted)) = toks at hkey ⊢
  have hcolon : (colonLexeme.token (here.advance (written (regap gap (keyLexemes key quoted))))).kind = .colon := rfl
  generalize colonLexeme.token _ = colon at hcolon ⊢
  obtain ⟨line, hprop⟩ := (@propertyAt_of_isKey _ _ _ _ v) hkey hcolon vs
  have helement : IsElement (kinds (toks ++ colon :: v :: vs)) := by
    rw [kinds_append, kinds_cons, hcolon, hkinds]
    exact hkey.isElement.append (.append (a := [.colon]) (.single rfl rfl) hl.isElement)
  obtain ⟨first, others, hcons⟩ := List.exists_cons_of_ne_nil (show toks ++ colon :: v :: vs ≠ [] by simp)
  rw [hv]
  refine ⟨first, others, line, _, hcons, hcons ▸ helement, hvalue, fun es => ?_⟩
  rw [← hcons, readEntries_cons, hprop, hread]

/-- The line of the first property goes before the others. -/
theorem entries_cons (leaves : Leaves) (depth : Nat) (p : Property Value) (ps : List (Property Value)) :
    leaves.entries depth (p :: ps) =
      (regap (indent depth) (keyLexemes p.key p.quoted) ++ colonLexeme :: regap [' '] (leaves.value depth p.value)) ++
        newlineLexeme :: leaves.entries depth ps := by
  rw [Leaves.entries, List.append_assoc]
  rfl

/-- Properties are read from the lines that are written for them. -/
theorem exists_readEntries {ps : List (Property Value)} (hv : ∀ p ∈ ps, Element (leaves.value depth p.value))
    (hp : Placed source here (newlineLexeme :: leaves.entries depth ps)) :
    ∃ es entries, Parted (tokensAt here (newlineLexeme :: leaves.entries depth ps)) es ∧
      readEntries source es = some entries ∧ List.Forall₂ (EntryReadFrom source leaves depth) ps entries := by
  induction ps generalizing here with
  | nil =>
    refine ⟨[], [], .done fun t ht => ?_, by rw [readEntries], .nil⟩
    obtain rfl := List.mem_singleton.1 ht
    rfl
  | cons p ps ih =>
    rw [entries_cons, ← List.cons_append] at hp ⊢
    obtain ⟨es, entries, hparted, hread, hall⟩ := ih (fun q hq => hv q (List.mem_cons_of_mem _ hq)) hp.right
    obtain ⟨first, others, line, v, hfirst, hel, hvalue, hcons⟩ := exists_readEntry (hv p List.mem_cons_self) hp.left.tail
    rw [tokensAt_append, tokensAt_cons, hfirst]
    refine ⟨(first :: others) :: es, ⟨p.key, p.quoted, v, line⟩ :: entries, ?_, ?_, .cons ⟨rfl, rfl, hvalue⟩ hall⟩
    · refine (@Parted.element [newlineLexeme.token here] _ _ _ _) (fun t ht => ?_) hel (fun t ht => ?_) hparted
      · obtain rfl := List.mem_singleton.1 ht
        rfl
      · obtain rfl := Option.some.inj ht
        rfl
    · rw [hcons, hread]
      rfl

/-- Elements are read from the lines that are written for them. -/
theorem exists_readItems {vs : List Value} (hv : ∀ v ∈ vs, Element (leaves.value depth v))
    (hp : Placed source here (newlineLexeme :: leaves.items depth vs)) :
    ∃ es, Parted (tokensAt here (newlineLexeme :: leaves.items depth vs)) es ∧
      List.Forall₂ (fun v w => ReadFrom source (leaves.value depth v) w) vs (readItems source es) := by
  induction vs generalizing here with
  | nil =>
    rw [Leaves.items]
    refine ⟨[], .done fun t ht => ?_, by rw [readItems]; exact .nil⟩
    obtain rfl := List.mem_singleton.1 ht
    rfl
  | cons v vs ih =>
    have hel := hv v List.mem_cons_self
    rw [Leaves.items, ← List.cons_append] at hp ⊢
    obtain ⟨es, hparted, hall⟩ := ih (fun w hw => hv w (List.mem_cons_of_mem _ hw)) hp.right
    have hplaced := hp.left.tail
    obtain ⟨first, others, hfirst, hread⟩ := exists_valueAt source
      (here.advance (newlineLexeme.gap ++ newlineLexeme.text)) (indent depth) hel.ne_nil
    have hkinds : kinds (first :: others) = (leaves.value depth v).map (·.kind) := by
      rw [← hfirst, kinds_tokensAt, map_kind_regap]
    rw [tokensAt_append, tokensAt_cons, hfirst]
    refine ⟨(first :: others) :: es, ?_, ?_⟩
    · refine (@Parted.element [newlineLexeme.token here] _ _ _ _) (fun t ht => ?_)
        (hkinds ▸ hel.isElement) (fun t ht => ?_) hparted
      · obtain rfl := List.mem_singleton.1 ht
        rfl
      · obtain rfl := Option.some.inj ht
        rfl
    · rw [readItems]
      exact .cons ⟨_, _, hplaced, hread⟩ hall

/-- The tokens of lexemes between two others. -/
theorem tokensAt_enclosed (here : Cursor) (first : Lexeme) (inside : List Lexeme) (last : Lexeme) :
    tokensAt here (first :: (inside ++ [last])) =
      first.token here :: (tokensAt (here.advance (first.gap ++ first.text)) inside ++
        [last.token ((here.advance (first.gap ++ first.text)).advance (written inside))]) := by
  rw [tokensAt_cons, tokensAt_append]
  rfl

/-- Tokens in braces, from which properties are read. -/
structure IsBody (source : String) (toks : List Token) (entries : ObjectLiteral) : Prop where
  parts : ∃ opening inside close, toks = opening :: (inside ++ [close]) ∧ opening.kind = .braceOpen ∧
    close.kind = .braceClose ∧ Balanced (kinds inside) ∧ readEntries source (elements inside) = some entries

/-- Properties are read from what is written for an object. -/
theorem exists_isBody {ps : ObjectLiteral} (h : leaves.Show edited (.object ps)) (depth : Nat) {gap : List Char}
    (hp : Placed source here (regap gap (leaves.value depth (.object ps)))) :
    ∃ entries, IsBody source (tokensAt here (regap gap (leaves.value depth (.object ps)))) entries ∧
      List.Forall₂ (EntryReadFrom source leaves (depth + 1)) ps entries := by
  cases ps with
  | nil =>
    rw [Leaves.value]
    exact ⟨[], ⟨_, [], _, rfl, rfl, rfl, rfl, by rw [elements_of_nil rfl, readEntries]⟩, .nil⟩
  | cons p ps =>
    rw [Leaves.value] at hp ⊢
    cases h with
    | object hk hv =>
      have hlines := (@isLines_entries _ _ (depth + 1)) hk fun q hq => isLeaf_value (hv q hq)
      have hplaced : Placed source _ (newlineLexeme :: leaves.entries (depth + 1) (p :: ps)) := hp.tail.left
      obtain ⟨es, entries, hparted, hread, hall⟩ := exists_readEntries
        (fun q hq => (isLeaf_value (hv q hq) (depth + 1)).1) hplaced
      refine ⟨entries, ⟨_, _, _, tokensAt_enclosed .., rfl, rfl, ?_, ?_⟩, hall⟩
      · rw [kinds_tokensAt, List.map_cons]
        exact balanced_newline.append hlines.balanced
      · rw [← hread, ← elements_of_parted hparted]

/-- An object is read from what is written for it. -/
theorem exists_object {ps : ObjectLiteral} (h : leaves.Show edited (.object ps)) {gap : List Char}
    (hp : Placed source here (regap gap (leaves.value depth (.object ps)))) :
    ∃ entries, valueAt source here (regap gap (leaves.value depth (.object ps))) = .object entries ∧
      List.Forall₂ (EntryReadFrom source leaves (depth + 1)) ps entries := by
  obtain ⟨entries, ⟨opening, inside, close, htoks, ho, hc, hb, hread⟩, hall⟩ := exists_isBody h depth hp
  refine ⟨entries, ?_, hall⟩
  rw [valueAt_of_tokensAt htoks, readValue_eq, if_pos ho]
  simp only [enclosed?_of_balanced hb (show close.kind.closes = true by rw [hc]; rfl), hread]

/-- Balanced tokens in square brackets are an array, unless they start with a name. -/
theorem readValue_bracket {first close : Token} {inside : List Token} (hf : first.kind = .bracketOpen)
    (hc : close.kind = .bracketClose) (hb : Balanced (kinds inside))
    (hname : ∀ t, inside.head? = some t → t.kind ≠ .identifier) :
    readValue source first (inside ++ [close]) = .array (readItems source (elements inside)) := by
  have hword : (inside ++ [close]).head?.any (·.isWord "for") = false := by
    cases inside with
    | nil => simp [Token.isWord, hc]
    | cons t ts => simp [Token.isWord, hname t rfl]
  rw [readValue_eq, hword, if_neg (by simp [hf]), if_pos (by simp [hf])]
  simp only [enclosed?_of_balanced hb (show close.kind.closes = true by rw [hc]; rfl)]

/-- An array is read from what is written for it. -/
theorem exists_array {vs : List Value} (h : leaves.Show edited (.array vs)) {gap : List Char}
    (hp : Placed source here (regap gap (leaves.value depth (.array vs)))) :
    ∃ items, valueAt source here (regap gap (leaves.value depth (.array vs))) = .array items ∧
      List.Forall₂ (fun v w => ReadFrom source (leaves.value (depth + 1) v) w) vs items := by
  cases vs with
  | nil =>
    rw [Leaves.value]
    refine ⟨_, (@readValue_bracket _ _ _ []) rfl rfl rfl (by simp), ?_⟩
    rw [elements_of_nil rfl, readItems]
    exact .nil
  | cons v vs =>
    rw [Leaves.value] at hp ⊢
    cases h with
    | array hv =>
      have hlines := (@isLines_items _ _ (depth + 1)) fun w hw => isLeaf_value (hv w hw)
      have hplaced : Placed source _ (newlineLexeme :: leaves.items (depth + 1) (v :: vs)) := hp.tail.left
      obtain ⟨es, hparted, hall⟩ := exists_readItems (fun w hw => (isLeaf_value (hv w hw) (depth + 1)).1) hplaced
      refine ⟨_, ?_, hall⟩
      rw [regap, valueAt_of_tokensAt (tokensAt_enclosed ..)]
      refine (readValue_bracket rfl rfl ?_ (by simp [tokensAt_cons, newlineLexeme])).trans ?_
      · rw [kinds_tokensAt, List.map_cons]
        exact balanced_newline.append hlines.balanced
      · rw [elements_of_parted hparted]

section Scalars

/-- The text that a scalar is written with, unless it is a word. -/
def Value.spelling? : Value → Option String
  | .string f | .interpolated f | .expression f => some f.raw
  | .number text => some text
  | _ => none

/-- Wherever its lexemes stand, the value is read again, apart from its place. -/
def Rereads (leaves : Leaves) (v : Value) : Prop :=
  ∀ depth source w, ReadFrom source (leaves.value depth v) w → w.unplaced = v.unplaced

/-- The lexemes of a layout stand at their place in the source. -/
theorem Layout.placed {l : Layout} (hs : source.toList = l.chars) : Placed source l.start l.lexemes :=
  ⟨l.mark, l.tail, hs, rfl⟩

/-- Tokens that stand in a template are those of lexemes, which can be read before a line end. -/
theorem exists_placed {l : Layout} (hs : source.toList = l.chars) {toks : List Token} (h : StandsIn l.tokens toks) :
    ∃ there ls, toks = tokensAt there ls ∧ Placed source there ls ∧ Legible ls ['\n'] := by
  obtain ⟨before, after, hall, -, -⟩ := h
  have hplaced := l.placed hs
  have hlegible := l.legible
  obtain ⟨x, z, hxz, rfl, hz⟩ := tokensAt_eq_append hall
  obtain ⟨run, y, rfl, rfl, rfl⟩ := tokensAt_eq_append hz.symm
  rw [hxz] at hplaced hlegible
  exact ⟨_, run, rfl, hplaced.right.left, (legible_append.1 (legible_append.1 hlegible).2).1.before_stop rfl⟩

/-- A scalar is spelled like its tokens. -/
theorem spelling?_scalar (source : String) (first : Token) (others : List Token) :
    (scalar source first others).spelling? = none ∨
      (scalar source first others).spelling? = some (Fragment.ofTokens source first others).raw := by
  unfold scalar
  simp only
  repeat' split
  all_goals first
    | exact .inr rfl
    | exact .inl rfl

/-- A scalar that was read from a template is read again from its text. -/
theorem IsRead.rereads {l : Layout} (hs : source.toList = l.chars) {v : Value} (hv : v.isScalar = true)
    (h : IsRead source l.tokens v) {text : String} (ht : v.spelling? = some text) {ls : List Lexeme}
    (hl : IsLeaf text ls) {source' : String} {w : Value} (hw : ReadFrom source' ls w) : w.unplaced = v.unplaced := by
  obtain ⟨first, others, rfl, helement, hstands⟩ := h
  obtain ⟨there, z, hz, hplaced, hlegible⟩ := exists_placed hs hstands
  obtain ⟨m, ms, rfl, rfl, rfl⟩ := tokensAt_eq_cons hz.symm
  obtain ⟨here, gap, hplaced', rfl⟩ := hw
  have hbare : bare ls = bare (m :: ms) := by
    rw [readValue_of_isScalar hv] at ht
    rcases spelling?_scalar source (m.token there) (tokensAt (there.advance (m.gap ++ m.text)) ms) with hnone | htext
    · rw [ht] at hnone
      cases hnone
    · rw [ht] at htext
      rw [← hl.2, Option.some.inj htext]
      exact raw_ofTokens hplaced
  have hpart : Part (m :: ms) := by
    refine ⟨List.cons_ne_nil _ _, ?_, hlegible⟩
    rw [← kinds_tokensAt there, ← hz]
    exact helement.balanced
  have hregap : regap gap ls = regap gap (m :: ms) := by
    rw [← regap_regap gap [] ls, regap_eq_of_bare hl.1.toPart hpart hbare, regap_regap]
  rw [hregap] at hplaced' ⊢
  obtain ⟨g, hg, hmap⟩ := exists_carries gap hlegible.forall_ne_nil hplaced hplaced'
  rw [valueAt_of_tokensAt hmap.symm]
  exact unplaced_readValue _ _ hg

/-- A name that stands alone is a word, or an expression. -/
theorem valueAt_name (source : String) (here : Cursor) (gap : List Char) (name : String) :
    valueAt source here (regap gap [nameLexeme name]) =
      if name = "true" then .bool true else if name = "false" then .bool false else if name = "null" then .null
        else stringOrExpression source (Token.ofChars .identifier (here.advance gap) name.toList) [] := by
  rw [regap, valueAt_of_tokensAt (tokensAt_cons ..), readValue_eq, if_neg (by simp [nameLexeme]),
    if_neg (by simp [nameLexeme]), tokensAt_nil, scalar_single]
  simp only [nameLexeme, Token.ofChars_kind, Token.ofChars_text, String.ofList_toList]

/-- A word is read again. -/
theorem rereads_word {v : Value} (hv : v.isScalar = true) (hn : v.spelling? = none) : Rereads leaves v := by
  rintro depth source w ⟨here, gap, -, rfl⟩
  cases v with
  | bool value =>
    rw [Leaves.value]
    rw [valueAt_name]
    cases value <;> rfl
  | null =>
    rw [Leaves.value]
    rw [valueAt_name]
    rfl
  | string | interpolated | expression | number => cases hn
  | object | array => cases hv

end Scalars

section Induction

/-- Properties of which all values are read again. -/
theorem unplaced_of_entriesReadFrom {ps entries : ObjectLiteral} (hv : ∀ p ∈ ps, Rereads leaves p.value)
    (h : List.Forall₂ (EntryReadFrom source leaves depth) ps entries) : entries.unplaced = ps.unplaced := by
  induction h with
  | nil => rfl
  | @cons p q ps entries hpq _ ih =>
    obtain ⟨key, quoted, value, line⟩ := p
    obtain ⟨key', quoted', value', line'⟩ := q
    obtain ⟨rfl, rfl, hvalue⟩ := hpq
    have hfirst := hv _ List.mem_cons_self _ _ _ hvalue
    have hrest := ih fun p hp => hv p (List.mem_cons_of_mem _ hp)
    simp only [ObjectLiteral.unplaced, Value.recastEntries] at hrest ⊢
    rw [hrest, show value'.recast (·.raw) = _ from hfirst]

/-- Elements of which all are read again. -/
theorem unplaced_of_itemsReadFrom {vs items : List Value} (hv : ∀ v ∈ vs, Rereads leaves v)
    (h : List.Forall₂ (fun v w => ReadFrom source (leaves.value depth v) w) vs items) :
    Value.recastItems (·.raw) items = Value.recastItems (·.raw) vs := by
  induction h with
  | nil => rfl
  | @cons v w vs items hvw _ ih =>
    have hfirst := hv v List.mem_cons_self _ _ _ hvw
    simp only [Value.recastItems]
    rw [ih fun u hu => hv u (List.mem_cons_of_mem _ hu), show w.recast (·.raw) = _ from hfirst]

/-- A value of which all scalars are read again is read again. -/
theorem rereads_of_every {v : Value} (h : v.Every (Rereads leaves)) (hs : leaves.Show edited v) :
    Rereads leaves v := by
  induction h with
  | scalar _ h => exact h
  | object _ _ ih =>
    rintro depth source w ⟨here, gap, hp, rfl⟩
    obtain ⟨entries, hw, hall⟩ := exists_object hs hp
    cases hs with
    | object _ hshow =>
      rw [hw]
      exact congrArg Value.object (unplaced_of_entriesReadFrom (fun p hp => ih p hp (hshow p hp)) hall)
  | array _ ih =>
    rintro depth source w ⟨here, gap, hp, rfl⟩
    obtain ⟨items, hw, hall⟩ := exists_array hs hp
    cases hs with
    | array hshow =>
      rw [hw]
      exact congrArg Value.array (unplaced_of_itemsReadFrom (fun v hv => ih v hv (hshow v hv)) hall)

end Induction

end BicepMigration.Template
