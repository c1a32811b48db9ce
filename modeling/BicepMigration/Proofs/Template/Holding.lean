import BicepMigration.Proofs.Template.Parted
import BicepMigration.Proofs.Template.Pieces

/-!
# Where the parts of a statement stand

Fragments of a statement are cut out of the tokens of the template: the scalars of a body are read from elements, a
condition is balanced, and a decorator is a line. No access to a member goes over the ends of a fragment. So what a
fragment says can be read from the tokens it was cut from, and edits of the template fall inside it or outside.
-/

namespace BicepMigration.Template

/-- No name meets a point where tokens meet others. -/
def TokensApart (a b : List Token) : Prop :=
  ∀ x y, a.getLast? = some x → b.head? = some y →
    ¬ (x.kind = .identifier ∧ y.kind = .dot) ∧ ¬ (x.kind = .dot ∧ y.kind = .identifier)

/-- A token that is part of no access. -/
def TokenKind.Neutral (kind : TokenKind) : Prop := kind ≠ .identifier ∧ kind ≠ .dot

theorem TokenKind.neutral_of_separates {kind : TokenKind} (h : kind.separates = true) : kind.Neutral := by
  constructor <;> rintro rfl <;> cases h

theorem TokenKind.neutral_of_closes {kind : TokenKind} (h : kind.closes = true) : kind.Neutral := by
  constructor <;> rintro rfl <;> cases h

theorem TokenKind.neutral_of_opens {kind : TokenKind} (h : kind.opens = true) : kind.Neutral := by
  constructor <;> rintro rfl <;> cases h

/-- Tokens do not run together if the last one before is neutral. -/
theorem tokensApart_of_last {a b : List Token} (h : ∀ x, a.getLast? = some x → x.kind.Neutral) : TokensApart a b :=
  fun x _ hx _ => ⟨fun hk => (h x hx).1 hk.1, fun hk => (h x hx).2 hk.1⟩

/-- Tokens do not run together if the first one behind is neutral. -/
theorem tokensApart_of_head {a b : List Token} (h : ∀ y, b.head? = some y → y.kind.Neutral) : TokensApart a b :=
  fun _ y _ hy => ⟨fun hk => (h y hy).2 hk.2, fun hk => (h y hy).1 hk.2⟩

/-- Tokens stand among all tokens, and no access goes over their ends. -/
def StandsIn (all toks : List Token) : Prop :=
  ∃ before after, all = before ++ (toks ++ after) ∧ TokensApart before toks ∧ TokensApart toks after

/-- A fragment is the text of tokens that stand among all tokens and have a form. -/
def IsCut (source : String) (all : List Token) (form : List TokenKind → Prop) (f : Fragment) : Prop :=
  ∃ first others, f = Fragment.ofTokens source first others ∧ StandsIn all (first :: others) ∧
    form (kinds (first :: others))

/-- The kinds of a decorator, which is a line of its own. -/
def IsDecorator (ks : List TokenKind) : Prop :=
  Balanced ks ∧ Unbroken (· = .newline) 0 ks ∧ ks.head? = some .atSign

/-- All fragments in a value have a property, and so have its numbers. Keys without quotes are names. -/
inductive Value.Holds (holds : Fragment → Prop) (spells : String → Prop) : Value → Prop where
  | string {f : Fragment} : holds f → Holds holds spells (.string f)
  | interpolated {f : Fragment} : holds f → Holds holds spells (.interpolated f)
  | expression {f : Fragment} : holds f → Holds holds spells (.expression f)
  | number {text : String} : spells text → Holds holds spells (.number text)
  | bool (value : Bool) : Holds holds spells (.bool value)
  | null : Holds holds spells .null
  | object {entries : ObjectLiteral} : (∀ p ∈ entries, p.quoted = false → IsName p.key) →
      (∀ p ∈ entries, Holds holds spells p.value) → Holds holds spells (.object entries)
  | array {items : List Value} : (∀ item ∈ items, Holds holds spells item) → Holds holds spells (.array items)

/-- A value that holds fragments of a kind holds them of every wider kind. -/
theorem Value.Holds.imp {holds holds' : Fragment → Prop} {spells spells' : String → Prop} {value : Value}
    (h : value.Holds holds spells) (hf : ∀ f, holds f → holds' f) (hs : ∀ text, spells text → spells' text) :
    value.Holds holds' spells' := by
  induction h with
  | string h => exact .string (hf _ h)
  | interpolated h => exact .interpolated (hf _ h)
  | expression h => exact .expression (hf _ h)
  | number h => exact .number (hs _ h)
  | bool value => exact .bool value
  | null => exact .null
  | object hk _ ih => exact .object hk ih
  | array _ ih => exact .array ih

/-- The text is that of a fragment. -/
def SpellsCut (source : String) (all : List Token) (text : String) : Prop :=
  ∃ f : Fragment, f.raw = text ∧ IsCut source all IsElement f

/-- The value is neither an object nor an array. -/
def Value.isScalar : Value → Bool
  | .object _ | .array _ => false
  | _ => true

/-- All scalars in a value have a property. Keys without quotes are names. -/
inductive Value.Every (leaf : Value → Prop) : Value → Prop where
  | scalar {v : Value} : v.isScalar = true → leaf v → Every leaf v
  | object {entries : ObjectLiteral} : (∀ p ∈ entries, p.quoted = false → IsName p.key) →
      (∀ p ∈ entries, Every leaf p.value) → Every leaf (.object entries)
  | array {items : List Value} : (∀ item ∈ items, Every leaf item) → Every leaf (.array items)

/-- A value whose scalars are all of one kind has scalars of every wider kind only. -/
theorem Value.Every.imp {leaf leaf' : Value → Prop} {v : Value} (h : v.Every leaf)
    (hl : ∀ v : Value, v.isScalar = true → leaf v → leaf' v) : v.Every leaf' := by
  induction h with
  | scalar hs h => exact .scalar hs (hl _ hs h)
  | object hk _ ih => exact .object hk ih
  | array _ ih => exact .array ih

/-- A value holds what its scalars hold. -/
theorem Value.Every.holds {holds : Fragment → Prop} {spells : String → Prop} {v : Value}
    (h : v.Every (Value.Holds holds spells)) : v.Holds holds spells := by
  induction h with
  | scalar _ h => exact h
  | object hk _ ih => exact .object hk ih
  | array _ ih => exact .array ih

/-- A value is read from an element that stands among all tokens. -/
def IsRead (source : String) (all : List Token) (v : Value) : Prop :=
  ∃ first others, readValue source first others = v ∧ IsElement (kinds (first :: others)) ∧
    StandsIn all (first :: others)

variable {source : String} {all : List Token}

/-- Elements between brackets stand among the tokens, and no access goes over their ends. -/
theorem standsIn_of_parted {toks before after : List Token} {es : List (List Token)} (h : Parted toks es)
    (hall : all = before ++ (toks ++ after))
    (hbefore : (∀ t, before.getLast? = some t → t.kind.Neutral) ∨ ∀ t, toks.head? = some t → t.kind.separates = true)
    (hafter : ∀ t, after.head? = some t → t.kind.Neutral) :
    ∀ e ∈ es, e ≠ [] ∧ IsElement (kinds e) ∧ StandsIn all e := by
  induction h generalizing before with
  | done _ => simp
  | @element seps first others rest es hs he hr _ ih =>
    intro e hmem
    rcases List.mem_cons.1 hmem with rfl | hmem
    · refine ⟨by simp, he, before ++ seps, rest ++ after, ?_, ?_, ?_⟩
      · rw [hall]
        simp
      · refine tokensApart_of_last fun x hx => ?_
        cases hl : seps.getLast? with
        | some s =>
          rw [List.getLast?_append, hl, Option.some_or, Option.some.injEq] at hx
          subst hx
          exact TokenKind.neutral_of_separates (hs s (List.mem_of_getLast? hl))
        | none =>
          rw [List.getLast?_eq_none_iff] at hl
          subst hl
          rw [List.append_nil] at hx
          refine hbefore.elim (fun h => h x hx) fun h => ?_
          have hfirst := h first rfl
          rw [he.not_separates] at hfirst
          cases hfirst
      · refine tokensApart_of_head fun y hy => ?_
        cases rest with
        | nil => exact hafter y hy
        | cons t ts =>
          obtain rfl := Option.some.inj hy
          exact TokenKind.neutral_of_separates (hr t rfl)
    · refine @ih (before ++ (seps ++ first :: others)) ?_ (.inr hr) e hmem
      rw [hall]
      simp

/-- The value of a property stands among the tokens where the property does. -/
theorem standsIn_value {element : List Token} {p : Property (Token × List Token)} (h : propertyAt element = some p)
    (he : IsElement (kinds element)) (hs : StandsIn all element) :
    IsElement (kinds (p.value.1 :: p.value.2)) ∧ StandsIn all (p.value.1 :: p.value.2) := by
  refine ⟨isElement_value h he, ?_⟩
  obtain ⟨key, colon, rfl, hk, hc⟩ := propertyAt_cases h
  obtain ⟨before, after, rfl, -, hafter⟩ := hs
  refine ⟨before ++ (key ++ [colon]), after, by simp, tokensApart_of_last fun x hx => ?_, fun x y hx hy => ?_⟩
  · rw [← List.append_assoc, List.getLast?_concat] at hx
    rw [← Option.some.inj hx, hc]
    exact ⟨by simp, by simp⟩
  · refine hafter x y ?_ hy
    rw [List.append_cons, List.getLast?_append, hx]
    rfl

/-- A key without quotes is a name. -/
theorem isName_key {element : List Token} {p : Property (Token × List Token)} (h : propertyAt element = some p)
    (hs : StandsIn all element) (hn : ∀ t ∈ all, t.kind = .identifier → IsName t.text) (hq : p.quoted = false) :
    IsName p.key := by
  obtain ⟨key, colon, rfl, hk, -⟩ := propertyAt_cases h
  obtain ⟨before, after, rfl, -⟩ := hs
  rw [hq] at hk
  obtain ⟨t, rfl, ht, hkey⟩ := hk
  rw [← hkey]
  exact hn t (by simp) ht

/-- The tokens in brackets that make up a value: they are balanced, and their elements stand among the tokens. -/
theorem standsIn_elements {first : Token} {others inside : List Token} (bracket : Bracket) (hb : bracket ≠ .hole)
    (hf : Nest.top.after first.kind = some ⟨.code, [bracket]⟩) (ho : first.kind.opens = true)
    (he : IsElement (kinds (first :: others))) (hs : StandsIn all (first :: others))
    (h : enclosed? others = some inside) : ∀ e ∈ elements inside, e ≠ [] ∧ IsElement (kinds e) ∧ StandsIn all e := by
  obtain ⟨close, rfl, hclose, hinside⟩ := exists_enclosed bracket hb hf he h
  obtain ⟨before, after, rfl, -⟩ := hs
  refine (@standsIn_of_parted _ _ (before ++ [first]) (close :: after)) (parted_elements hinside) (by simp)
    (.inl fun t ht => ?_) fun t ht => ?_
  · rw [List.getLast?_concat] at ht
    rw [← Option.some.inj ht]
    exact TokenKind.neutral_of_opens ho
  · rw [← Option.some.inj ht, hclose]
    exact TokenKind.neutral_of_closes bracket.closes_closeKind

/-- A scalar is cut out of the tokens. -/
theorem holds_scalar {first : Token} {others : List Token} (he : IsElement (kinds (first :: others)))
    (hs : StandsIn all (first :: others)) :
    (scalar source first others).Holds (IsCut source all IsElement) (SpellsCut source all) := by
  have hcut : IsCut source all IsElement (Fragment.ofTokens source first others) := ⟨first, others, rfl, hs, he⟩
  have hspells : SpellsCut source all (Fragment.ofTokens source first others).raw := ⟨_, rfl, hcut⟩
  unfold scalar
  simp only
  repeat' split
  all_goals first
    | exact .number hspells
    | exact .string hcut
    | exact .interpolated hcut
    | exact .expression hcut
    | exact .bool _
    | exact .null

/-- What is read as a scalar is one. -/
theorem isScalar_scalar (source : String) (first : Token) (others : List Token) :
    (scalar source first others).isScalar = true := by
  unfold scalar
  simp only
  repeat' split
  all_goals rfl

/-- A value that is no object and no array is read from all its tokens at once. -/
theorem readValue_of_isScalar {first : Token} {others : List Token}
    (h : (readValue source first others).isScalar = true) :
    readValue source first others = scalar source first others := by
  have hreading := isReading_readValue source first others
  generalize readValue source first others = value at h hreading ⊢
  cases hreading with
  | scalar => rfl
  | object => cases h
  | array => cases h

/-- The fragments of a scalar are cut out of the tokens. -/
theorem IsRead.holds {v : Value} (hv : v.isScalar = true) (h : IsRead source all v) :
    v.Holds (IsCut source all IsElement) (SpellsCut source all) := by
  obtain ⟨first, others, rfl, he, hs⟩ := h
  rw [readValue_of_isScalar hv]
  exact holds_scalar he hs

mutual

/-- The scalars of a value are read from elements among the tokens. -/
theorem every_readValue (hn : ∀ t ∈ all, t.kind = .identifier → IsName t.text) (first : Token) (others : List Token)
    (he : IsElement (kinds (first :: others))) (hs : StandsIn all (first :: others)) :
    (readValue source first others).Every (IsRead source all) := by
  have hreading := isReading_readValue source first others
  generalize hv : readValue source first others = value at hreading ⊢
  cases hreading with
  | scalar => exact .scalar (isScalar_scalar source first others) ⟨first, others, hv, he, hs⟩
  | @object inside entries ho hi hr =>
    have hw := weight_enclosed?_lt hi
    have helems := standsIn_elements .brace (by simp) (by rw [ho]; rfl) (by rw [ho]; rfl) he hs hi
    obtain ⟨hk, hv⟩ := every_readEntries hn (elements inside) (fun e h => (helems e h).2) hr
    exact .object hk hv
  | @array inside ho hi =>
    have hw := weight_enclosed?_lt hi
    have helems := standsIn_elements .square (by simp) (by rw [ho]; rfl) (by rw [ho]; rfl) he hs hi
    exact .array (every_readItems hn (elements inside) fun e h => (helems e h).2)
termination_by others.length + 1

/-- The scalars of properties are read from elements among the tokens. -/
theorem every_readEntries (hn : ∀ t ∈ all, t.kind = .identifier → IsName t.text) (es : List (List Token))
    (he : ∀ e ∈ es, IsElement (kinds e) ∧ StandsIn all e) {entries : ObjectLiteral}
    (h : readEntries source es = some entries) :
    (∀ p ∈ entries, p.quoted = false → IsName p.key) ∧ ∀ p ∈ entries, p.value.Every (IsRead source all) := by
  match es with
  | [] =>
    obtain rfl : [] = entries := by simpa [readEntries] using h
    exact ⟨by simp, by simp⟩
  | element :: rest =>
    obtain ⟨p, others, hp, hr, rfl⟩ := readEntries_cons_eq_some h
    have hl := length_propertyAt_lt hp
    obtain ⟨hel, hst⟩ := he element (by simp)
    obtain ⟨hk, hv⟩ := every_readEntries hn rest (fun e h => he e (List.mem_cons_of_mem _ h)) hr
    have hvalue := standsIn_value hp hel hst
    have hfirst := every_readValue hn p.value.1 p.value.2 hvalue.1 hvalue.2
    exact ⟨List.forall_mem_cons.2 ⟨isName_key hp hst hn, hk⟩, List.forall_mem_cons.2 ⟨hfirst, hv⟩⟩
termination_by weight es
decreasing_by
  all_goals
    simp only [weight]
    omega

/-- The scalars of elements of an array are read from elements among the tokens. -/
theorem every_readItems (hn : ∀ t ∈ all, t.kind = .identifier → IsName t.text) (es : List (List Token))
    (he : ∀ e ∈ es, IsElement (kinds e) ∧ StandsIn all e) :
    ∀ item ∈ readItems source es, item.Every (IsRead source all) := by
  match es with
  | [] => simp [readItems]
  | [] :: rest =>
    rw [readItems]
    exact every_readItems hn rest fun e h => he e (List.mem_cons_of_mem _ h)
  | (first :: others) :: rest =>
    obtain ⟨hel, hst⟩ := he (first :: others) (by simp)
    have hfirst := every_readValue hn first others hel hst
    have hrest := every_readItems hn rest fun e h => he e (List.mem_cons_of_mem _ h)
    intro item hi
    rw [readItems] at hi
    rcases List.mem_cons.1 hi with rfl | hi
    · exact hfirst
    · exact hrest item hi
termination_by weight es
decreasing_by
  all_goals
    simp only [weight, List.length_cons]
    omega

end

/-- The fragments of a statement are cut out of all tokens. -/
structure StatementHolds (source : String) (all : List Token) (s : Statement) : Prop where
  symbol : ∀ symbol, s.symbol = some symbol → IsName symbol
  decorators : ∀ f ∈ s.decorators, IsCut source all IsDecorator f
  condition : ∀ f, s.condition = some f → IsCut source all Balanced f
  body : ∀ entries, s.body = some entries →
    (Value.object entries).Every (IsRead source all)

/-- Every decorator is a line. -/
theorem exists_line_of_mem {toks : List Token} (hb : Balanced (kinds toks)) {f : Fragment}
    (hf : f ∈ (readDecorators source toks).1) :
    ∃ before t ts after, toks = before ++ (t :: ts ++ after) ∧ f = Fragment.ofTokens source t ts ∧ t.kind = .atSign ∧
      Balanced (kinds (t :: ts)) ∧ Unbroken (· = .newline) 0 (kinds (t :: ts)) ∧ atLineEnd after = true := by
  have h := decorated_readDecorators source toks
  generalize (readDecorators source toks).1 = decorators at h hf
  generalize (readDecorators source toks).2 = after at h
  induction h with
  | done => cases hf
  | @line t ts blank rest _ decorators hline _ ih =>
    obtain ⟨hl, hr⟩ := hline.balanced hb
    rcases List.mem_cons.1 hf with rfl | hf
    · exact ⟨[], t, ts, blank ++ rest, rfl, rfl, hline.starts, hl, hline.unbroken, hline.atLineEnd⟩
    · obtain ⟨before, u, us, after, rfl, hmore⟩ := ih hr hf
      exact ⟨t :: ts ++ (blank ++ before), u, us, after, by simp, hmore⟩

/-- No access goes over the ends of a line that starts with a decorator. -/
theorem tokensApart_line {t : Token} {ts after : List Token} (ht : t.kind = .atSign) (hafter : atLineEnd after = true)
    (before : List Token) : TokensApart before (t :: ts) ∧ TokensApart (t :: ts) after := by
  refine ⟨tokensApart_of_head fun y hy => ?_, tokensApart_of_head fun y hy => ?_⟩
  · rw [← Option.some.inj hy, ht]
    exact ⟨by simp, by simp⟩
  · cases after with
    | nil => cases hy
    | cons u after =>
      obtain rfl := Option.some.inj hy
      have hu : u.kind = .newline := by simpa [atLineEnd] using hafter
      exact TokenKind.neutral_of_separates (by rw [hu]; rfl)

/-- Decorators are cut out of all tokens. -/
theorem holds_readDecorators {toks : List Token} (hall : toks <:+ all) (hb : Balanced (kinds toks)) :
    ∀ f ∈ (readDecorators source toks).1, IsCut source all IsDecorator f := by
  intro f hf
  obtain ⟨before, t, ts, after, rfl, rfl, ht, hl, hunbroken, hafter⟩ := exists_line_of_mem hb hf
  obtain ⟨more, rfl⟩ := hall
  obtain ⟨hleft, hright⟩ := (@tokensApart_line t ts after) ht hafter (more ++ before)
  exact ⟨t, ts, rfl, ⟨more ++ before, after, by simp, hleft, hright⟩, hl, hunbroken, by rw [kinds_cons, ht]; rfl⟩

/-- What a condition is read from, if there is one: the word `if`, and balanced tokens in parentheses. -/
theorem readOptionalCondition_cases {toks rest : List Token} {condition : Option Fragment}
    (h : readOptionalCondition source toks = some (condition, rest)) (hb : Balanced (kinds toks)) :
    (condition = none ∧ toks = rest) ∨ ∃ word opening first others close,
      toks = word :: opening :: (first :: others ++ close :: rest) ∧ word.isWord "if" = true ∧
      opening.kind = .parenOpen ∧ close.kind = .parenClose ∧ Balanced (kinds (first :: others)) ∧
      condition = some (Fragment.ofTokens source first others) := by
  rcases readOptionalCondition_eq_some h with ⟨hi, c, rfl, hc⟩ | ⟨-, rfl, rfl⟩
  · cases toks with
    | nil => cases hi
    | cons word toks =>
      have hif : word.isWord "if" = true := hi
      rw [List.tail_cons] at hc
      obtain ⟨opening, first, others, close, rfl, hopens, hbreak, rfl⟩ := readCondition_cases hc
      rw [kinds_cons, kind_of_isWord hif] at hb
      obtain ⟨hfound, hclose⟩ := (@balanced_of_breakAtClose .round) (by simp) (by rw [hopens]; rfl)
        (hb.of_append (a := [.identifier]) rfl) hbreak
      exact .inr ⟨word, opening, first, others, close, rfl, hif, hopens, hclose, hfound, rfl⟩
  · exact .inl ⟨rfl, rfl⟩

/-- A condition in its brackets is balanced. -/
theorem balanced_ifTokens {word opening close : Token} {inside : List Token} (hw : word.isWord "if" = true)
    (ho : opening.kind = .parenOpen) (hc : close.kind = .parenClose) (hb : Balanced (kinds inside)) :
    Balanced (kinds (word :: opening :: (inside ++ [close]))) := by
  have hlast : kinds [close] = [.parenClose] := by
    rw [kinds_cons, hc]
    rfl
  rw [kinds_cons, kind_of_isWord hw, kinds_cons, ho, kinds_append, hlast]
  refine Balanced.append (a := [.identifier]) rfl ?_
  exact (@Balanced.enclose _ _ _ .round) rfl hb rfl

/-- A condition is balanced. -/
theorem holds_readOptionalCondition {toks rest before : List Token} {condition : Option Fragment}
    (h : readOptionalCondition source toks = some (condition, rest)) (hall : all = before ++ toks)
    (hb : Balanced (kinds toks)) :
    (∀ f, condition = some f → IsCut source all Balanced f) ∧
      ∃ taken, toks = taken ++ rest ∧ Balanced (kinds taken) := by
  rcases readOptionalCondition_cases h hb with ⟨rfl, rfl⟩ | ⟨word, t, first, others, close, rfl, hif, hp, hclose, hfound, rfl⟩
  · exact ⟨by simp, [], rfl, rfl⟩
  constructor
  · intro f hf
    obtain rfl := Option.some.inj hf
    refine ⟨first, others, rfl, ⟨before ++ [word, t], close :: rest, ?_, ?_, ?_⟩, hfound⟩
    · rw [hall]
      simp
    · refine tokensApart_of_last fun x hx => ?_
      rw [List.append_cons, List.getLast?_concat] at hx
      rw [← Option.some.inj hx, hp]
      exact TokenKind.neutral_of_opens rfl
    · refine tokensApart_of_head fun y hy => ?_
      rw [← Option.some.inj hy, hclose]
      exact TokenKind.neutral_of_closes rfl
  · exact ⟨word :: t :: (first :: others ++ [close]), by simp, balanced_ifTokens hif hp hclose hfound⟩

/-- The elements of a body stand among the tokens. -/
theorem standsIn_body {opening close : Token} {found rest before : List Token}
    (hall : all = before ++ opening :: (found ++ close :: rest)) (ho : opening.kind = .braceOpen)
    (hc : close.kind.closes = true) (hf : Balanced (kinds found)) :
    ∀ e ∈ elements found, e ≠ [] ∧ IsElement (kinds e) ∧ StandsIn all e := by
  refine (@standsIn_of_parted all _ (before ++ [opening]) (close :: rest)) (parted_elements hf) (by rw [hall]; simp)
    (.inl fun t ht => ?_) fun t ht => ?_
  · rw [List.getLast?_concat] at ht
    rw [← Option.some.inj ht, ho]
    exact TokenKind.neutral_of_opens rfl
  · rw [← Option.some.inj ht]
    exact TokenKind.neutral_of_closes hc

/-- The scalars of a body are read from elements among the tokens. -/
theorem holds_body {opening close : Token} {found rest before : List Token} {body : ObjectLiteral}
    (hall : all = before ++ opening :: (found ++ close :: rest)) (ho : opening.kind = .braceOpen)
    (hbreak : breakAtClose 0 (found ++ close :: rest) = some (found, close, rest)) (hf : Balanced (kinds found))
    (hn : ∀ t ∈ all, t.kind = .identifier → IsName t.text) (h : readEntries source (elements found) = some body) :
    (Value.object body).Every (IsRead source all) := by
  have helems := standsIn_body hall ho (closes_of_breakAtClose hbreak) hf
  obtain ⟨hk, hv⟩ := every_readEntries hn (elements found) (fun e he => (helems e he).2) h
  exact .object hk hv

/-- The tokens of a body are balanced, and a brace closes them. -/
theorem BodyParts.balanced {toks found rest : List Token} {condition : Option Fragment} {opening close : Token}
    {body : ObjectLiteral} (h : BodyParts source toks condition opening found close rest body)
    (hb : Balanced (kinds toks)) : Balanced (kinds found) ∧ close.kind = .braceClose := by
  obtain ⟨-, taken, htaken, hbt⟩ := holds_readOptionalCondition h.condition (show toks = [] ++ toks from rfl) hb
  rw [htaken, kinds_append] at hb
  exact (@balanced_of_breakAtClose .brace) (by simp) (by rw [h.opens]; rfl) (hb.of_append hbt) h.breaks

/-- A declaration of a resource or a module starts with that word. -/
theorem isWord_of_kindAt {t : Token} {ts : List Token}
    (h : kindAt (t :: ts) = .resource ∨ kindAt (t :: ts) = .module) :
    t.isWord "resource" = true ∨ t.isWord "module" = true := by
  unfold kindAt at h
  repeat' split at h
  all_goals simp_all

/-- The tokens of a declaration with a body: those of its head, and balanced ones with the parts of the body. -/
theorem exists_declarationParts {toks : List Token} {body : ObjectLiteral} (hb : Balanced (kinds toks))
    (hbody : (readStatementBody source toks).1.body = some body) :
    ∃ taken head after opening found close, toks = taken ++ after ∧ IsHead taken head ∧
      (∀ t, taken.head? = some t → t.isWord "resource" = true ∨ t.isWord "module" = true) ∧ Balanced (kinds after) ∧
      BodyParts source after (readStatementBody source toks).1.condition opening found close
        (readStatementBody source toks).2 body := by
  obtain ⟨hkind, hdeclared⟩ := readDeclaration_of_body hbody
  obtain ⟨head, after, opening, found, close, hh, hparts⟩ := exists_bodyParts hdeclared hbody
  obtain ⟨taken, rfl, hhead⟩ := readHead_cases hh
  have hwords : ∀ t, taken.head? = some t → t.isWord "resource" = true ∨ t.isWord "module" = true := by
    intro t ht
    obtain ⟨ts, rfl⟩ := List.head?_eq_some_iff.1 ht
    exact isWord_of_kindAt hkind
  refine ⟨taken, head, after, opening, found, close, rfl, hhead, hwords, ?_, hparts⟩
  rw [kinds_append] at hb
  refine hb.of_append (hhead.balanced fun t ht => ?_)
  exact (hwords t ht).elim kind_of_isWord kind_of_isWord

/-- A statement with a body ends with a brace. -/
theorem exists_braceClose {first : Token} {others : List Token} {body : ObjectLiteral}
    (hb : Balanced (kinds (first :: others))) (hbody : (readStatement source first others).1.body = some body) :
    ∃ before close, first :: others = before ++ close :: (readStatement source first others).2 ∧
      close.kind = .braceClose := by
  have hbalanced := (@balanced_readDecorators source) hb
  obtain ⟨decorators, hd⟩ := suffix_readDecorators source (first :: others)
  have hrest : (readStatement source first others).2 =
      (readStatementBody source (readDecorators source (first :: others)).2).2 := rfl
  have hbody' : (readStatementBody source (readDecorators source (first :: others)).2).1.body = some body := hbody
  rw [hrest]
  generalize (readDecorators source (first :: others)).2 = toks at hd hbody' hbalanced ⊢
  obtain ⟨taken, head, after, opening, found, close, rfl, -, -, hafter, hparts⟩ :=
    exists_declarationParts hbalanced hbody'
  generalize readStatementBody source (taken ++ after) = declared at hparts ⊢
  obtain ⟨-, condition, rfl, -⟩ := holds_readOptionalCondition hparts.condition (show after = [] ++ after from rfl) hafter
  exact ⟨decorators ++ (taken ++ (condition ++ opening :: found)), close, by rw [← hd]; simp, (hparts.balanced hafter).2⟩

/-- The parts of a declaration that has a body. -/
theorem holds_readDeclaration {toks rest before : List Token} {d : Declaration} {t : Token} {ts : List Token}
    (h : readDeclaration source toks = some (d, rest)) (hall : all = before ++ toks) (hb : Balanced (kinds toks))
    (ht : toks = t :: ts) (hk : t.kind = .identifier) (hn : ∀ t ∈ all, t.kind = .identifier → IsName t.text) :
    (∀ f, d.condition = some f → IsCut source all Balanced f) ∧ ∀ entries, d.body = some entries →
      (Value.object entries).Every (IsRead source all) := by
  cases hbody : d.body with
  | none =>
    refine ⟨fun f hf => ?_, by simp⟩
    -- only a declaration with a body has a condition
    obtain ⟨_, _, -, ⟨-, -, rfl⟩ | ⟨-, _, _, body, -, -, rfl⟩⟩ := readDeclaration_cases h
    · cases hf
    · cases hbody
  | some entries =>
    obtain ⟨head, after, opening, found, close, hh, hparts⟩ := exists_bodyParts h hbody
    obtain ⟨taken, rfl, hhead⟩ := readHead_cases hh
    have hbt := hhead.balanced fun u hu => by
      cases taken with
      | nil => simp at hu
      | cons v taken =>
        obtain ⟨rfl, -⟩ := List.cons.inj ht
        rw [← Option.some.inj hu, hk]
    rw [kinds_append] at hb
    have hafter := hb.of_append hbt
    rw [← List.append_assoc] at hall
    obtain ⟨hcondition, taken', hafter', hbt'⟩ := holds_readOptionalCondition hparts.condition hall hafter
    refine ⟨hcondition, fun entries' he => ?_⟩
    obtain rfl := Option.some.inj he
    obtain ⟨hfound, -⟩ := hparts.balanced hafter
    refine (@holds_body _ _ _ _ _ _ (before ++ taken ++ taken')) ?_ hparts.opens hparts.breaks hfound hn hparts.entries
    rw [hall, hafter', List.append_assoc (before ++ taken)]

/-- A declaration has the symbol of its head, and refers to a resource that exists if the head does. -/
theorem head_readDeclaration {toks rest : List Token} {d : Declaration}
    (h : readDeclaration source toks = some (d, rest)) :
    ∃ head after, readHead toks = some (head, after) ∧ d.symbol = some head.symbol ∧ d.existing = head.existing := by
  obtain ⟨head, after, hhead, ⟨-, -, rfl⟩ | ⟨-, _, _, _, -, -, rfl⟩⟩ := readDeclaration_cases h
  all_goals exact ⟨head, after, hhead, rfl, rfl⟩

/-- A declared symbol is a name. -/
theorem isName_symbol {toks : List Token} {symbol : String} (hn : ∀ t ∈ toks, t.kind = .identifier → IsName t.text)
    (h : (readStatementBody source toks).1.symbol = some symbol) : IsName symbol := by
  have hopaque (h : (opaqueDeclaration (kindAt toks) toks).symbol = some symbol) : IsName symbol := by
    unfold opaqueDeclaration at h
    simp only at h
    split at h
    · simp at h
    · next name _ =>
      split at h
      · next hk =>
        obtain rfl := Option.some.inj h
        exact hn _ (by simp) hk
      · simp at h
    · simp at h
  unfold readStatementBody at h
  simp only at h
  split at h
  · cases hd : readDeclaration source toks with
    | none =>
      rw [hd] at h
      exact hopaque h
    | some r =>
      rw [hd] at h
      obtain ⟨head, after, hh, hsymbol, -⟩ := head_readDeclaration hd
      obtain ⟨taken, rfl, hhead⟩ := readHead_cases hh
      obtain ⟨keyword, name, literal, existing, equals, rfl, hk, htext, -⟩ := hhead.parts
      have hr : r.1.symbol = some symbol := h
      rw [hsymbol] at hr
      rw [← Option.some.inj hr, ← htext]
      exact hn name (by simp) hk
  · exact hopaque h

/-- The fragments of a statement are cut out of the tokens that it is read from. -/
theorem holds_readStatement {first : Token} {others before : List Token} (hall : all = before ++ first :: others)
    (hb : Balanced (kinds (first :: others))) (hn : ∀ t ∈ all, t.kind = .identifier → IsName t.text) :
    StatementHolds source all (readStatement source first others).1 := by
  have hbody := (@balanced_readDecorators source) hb
  obtain ⟨decorators, hd⟩ := suffix_readDecorators source (first :: others)
  have hdecorators := (@holds_readDecorators source) ⟨before, hall.symm⟩ hb
  rw [← hd, ← List.append_assoc] at hall
  have hparts : (∀ f, (readStatement source first others).1.condition = some f → IsCut source all Balanced f) ∧
      ∀ entries, (readStatement source first others).1.body = some entries →
        (Value.object entries).Every (IsRead source all) := by
    change (∀ f, (readStatementBody source (readDecorators source (first :: others)).2).1.condition = some f →
        IsCut source all Balanced f) ∧
      ∀ entries, (readStatementBody source (readDecorators source (first :: others)).2).1.body = some entries →
        (Value.object entries).Every (IsRead source all)
    generalize (readDecorators source (first :: others)).2 = toks at hall hbody
    unfold readStatementBody
    simp only [Bool.or_eq_true, decide_eq_true_eq]
    split
    · next hkind =>
      cases hdecl : readDeclaration source toks with
      | none => simp [opaqueDeclaration]
      | some r =>
        cases toks with
        | nil => simp [readDeclaration, readHead] at hdecl
        | cons t ts =>
          have ht : t.kind = .identifier := by
            by_cases ht : t.kind = .identifier
            · exact ht
            · simp [kindAt, Token.isWord, ht] at hkind
          exact holds_readDeclaration hdecl hall hbody rfl ht hn
    · simp [opaqueDeclaration]
  refine ⟨fun symbol hsymbol => (@isName_symbol _ ((readDecorators source (first :: others)).2)) ?_ hsymbol,
    hdecorators, hparts.1, hparts.2⟩
  intro t ht
  rw [hall] at hn
  exact hn t (List.mem_append_right _ ht)

/-- The fragments of all statements are cut out of the tokens of the template. -/
theorem holds_readStatements {toks before : List Token} (hall : all = before ++ toks) (hb : Balanced (kinds toks))
    (hn : ∀ t ∈ all, t.kind = .identifier → IsName t.text) :
    ∀ s ∈ readStatements source toks, StatementHolds source all s := by
  obtain ⟨blank, hblank, hnl⟩ := exists_newlines toks
  rw [readStatements]
  split
  · simp
  · next first others hs =>
    have hlt := length_readStatement_lt source others (head_skipNewlines hs)
    have hle := hs ▸ length_skipNewlines_le toks
    rw [hs] at hblank
    have hb' : Balanced (kinds (first :: others)) := by
      rw [hblank, kinds_append] at hb
      exact hb.of_append (balanced_newlines hnl)
    rw [hblank, ← List.append_assoc] at hall
    have hfirst := (@holds_readStatement source) hall hb' hn
    obtain ⟨taken, rest, hothers, hrest, -, hbt, -⟩ := exists_run source (head_skipNewlines hs) hb'
    have hshort : rest.length < toks.length := by
      rw [← hrest]
      exact Nat.lt_of_lt_of_le hlt hle
    intro s hmem
    rcases List.mem_cons.1 hmem with rfl | hmem
    · exact hfirst
    · rw [hrest] at hmem
      have hbrest : Balanced (kinds rest) := by
        rw [hothers, ← List.cons_append, kinds_append] at hb'
        exact hb'.of_append hbt
      refine (@holds_readStatements _ (before ++ blank ++ first :: taken)) ?_ hbrest hn s hmem
      rw [hall, hothers]
      simp
termination_by toks.length
decreasing_by exact hshort

/-- The fragments of the statements of a template are cut out of its tokens. -/
theorem statementHolds_of_scan {source : String} {template : ScannedTemplate} (h : scan source = .ok template) :
    ∀ s ∈ template.statements, StatementHolds template.source template.tokens s := by
  obtain ⟨l, -, rfl⟩ := scan_eq_ok_iff.1 h
  refine (@holds_readStatements _ _ _ []) rfl ?_ fun t hmem hk => ?_
  · rw [Layout.tokens, kinds_tokensAt]
    exact l.balanced
  · obtain ⟨m, hm, htext⟩ := mem_tokensAt hmem
    have hs := l.legible.forall_spelled m hm
    rw [IsName, htext.2, String.toList_ofList]
    rwa [htext.1, hk] at hs

end BicepMigration.Template
