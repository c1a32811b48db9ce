import BicepMigration.Proofs.Template.Parted
import BicepMigration.Proofs.Template.Relocation

/-!
# What is seen of values

Values that are read from the same tokens of two templates differ in what is taken from the text and from the places:
in fragments, in the spelling of numbers, and in lines. An aspect says how much of that is looked at. If the tokens of
two templates are seen alike, each under the aspect of its own template, then so are the values that are read from them.
Main statement: this, for all values.
-/

namespace BicepMigration.Template

open Text

/-- What is looked at of fragments, numbers, spans and lines. -/
structure Aspect where
  fragment : Fragment → Fragment
  number : String → String
  span : Span → Span
  line : Nat → Nat

/-- Everything is looked at as it is. -/
def Aspect.whole : Aspect := ⟨id, id, id, id⟩

namespace Value

mutual

/-- The value under an aspect. -/
def seen (aspect : Aspect) : Value → Value
  | .string f => .string (aspect.fragment f)
  | .interpolated f => .interpolated (aspect.fragment f)
  | .expression f => .expression (aspect.fragment f)
  | .number text => .number (aspect.number text)
  | .bool value => .bool value
  | .null => .null
  | .object entries => .object (seenEntries aspect entries)
  | .array items => .array (seenItems aspect items)

/-- Entries under an aspect. -/
def seenEntries (aspect : Aspect) : List (Property Value) → List (Property Value)
  | [] => []
  | ⟨key, quoted, value, line⟩ :: rest => ⟨key, quoted, value.seen aspect, aspect.line line⟩ :: seenEntries aspect rest

/-- Elements under an aspect. -/
def seenItems (aspect : Aspect) : List Value → List Value
  | [] => []
  | item :: rest => item.seen aspect :: seenItems aspect rest

end

mutual

@[simp] theorem seen_whole : ∀ v : Value, v.seen .whole = v
  | .string _ => rfl
  | .interpolated _ => rfl
  | .expression _ => rfl
  | .number _ => rfl
  | .bool _ => rfl
  | .null => rfl
  | .object entries => congrArg Value.object (seenEntries_whole entries)
  | .array items => congrArg Value.array (seenItems_whole items)

@[simp] theorem seenEntries_whole : ∀ entries : ObjectLiteral, seenEntries .whole entries = entries
  | [] => rfl
  | ⟨_, _, value, _⟩ :: rest => by
    simp only [seenEntries, seen_whole value, seenEntries_whole rest]
    rfl

@[simp] theorem seenItems_whole : ∀ items : List Value, seenItems .whole items = items
  | [] => rfl
  | item :: rest => by simp only [seenItems, seen_whole item, seenItems_whole rest]

end

end Value

/-- A property under an aspect. -/
def Property.seen (aspect : Aspect) (p : Property Value) : Property Value :=
  ⟨p.key, p.quoted, p.value.seen aspect, aspect.line p.line⟩

@[simp] theorem Property.seen_key (aspect : Aspect) (p : Property Value) : (p.seen aspect).key = p.key := rfl

/-- Each property is seen by itself. -/
theorem Value.seenEntries_eq_map (aspect : Aspect) (entries : ObjectLiteral) :
    Value.seenEntries aspect entries = entries.map (Property.seen aspect) := by
  induction entries with
  | nil => rfl
  | cons p rest ih => rw [Value.seenEntries, ih, List.map_cons, Property.seen]

/-- Tokens are exchanged for tokens of another template that look like them, if each template is seen under an aspect
of its own. -/
structure SeenAlike (aspect aspect' : Aspect) (source source' : String) (g : Token → Token) (all : List Token) : Prop
    extends Resembles g where
  fragment : ∀ first others, first :: others <:+: all →
    aspect'.fragment (Fragment.ofTokens source' (g first) (others.map g)) =
      aspect.fragment (Fragment.ofTokens source first others)
  number : ∀ first others, first :: others <:+: all →
    aspect'.number (Fragment.ofTokens source' (g first) (others.map g)).raw =
      aspect.number (Fragment.ofTokens source first others).raw
  /-- A statement starts with a token that is no newline. -/
  span : ∀ first others, first.kind ≠ .newline → first :: others <:+: all →
    aspect'.span ⟨(g first).span.start, ((others.map g).getLast?.getD (g first)).span.stop⟩ =
      aspect.span ⟨first.span.start, (others.getLast?.getD first).span.stop⟩
  line : ∀ t ∈ all, aspect'.line (g t).line = aspect.line t.line
  /-- The places of newlines do not matter: a sign meets the number that it belongs to. -/
  meets : ∀ a b, b.kind ≠ .newline → [a, b] <:+: all → ((g a).span.stop = (g b).span.start ↔ a.span.stop = b.span.start)

variable {aspect aspect' : Aspect} {source source' : String} {g : Token → Token} {all : List Token}

/-- What is seen alike in all tokens is so in a part of them. -/
theorem SeenAlike.mono {part : List Token} (h : SeenAlike aspect aspect' source source' g all) (hp : part <:+: all) :
    SeenAlike aspect aspect' source source' g part where
  toResembles := h.toResembles
  fragment first others hi := h.fragment first others (hi.trans hp)
  number first others hi := h.number first others (hi.trans hp)
  span first others hn hi := h.span first others hn (hi.trans hp)
  line t ht := h.line t (hp.subset ht)
  meets a b hb hi := h.meets a b hb (hi.trans hp)

/-- An element stands among the tokens it was cut from. -/
theorem infix_of_mem_elements {toks e : List Token} (he : e ∈ elements toks) : e <:+: toks := by
  fun_induction elements toks with
  | case1 => cases he
  | case2 toks t ts hcons _ _ parts ih =>
    have hs : t :: ts <:+ toks := hcons ▸ List.dropWhile_suffix _
    have hp : parts.1 ++ parts.2 = ts := breakOutside_append ..
    rcases List.mem_cons.1 he with rfl | he
    · exact (List.prefix_iff_eq_append.2 (by simp [← hp])).isInfix.trans hs.isInfix
    · have ht : parts.2 <:+ t :: ts := hp ▸ (List.suffix_append _ _).trans (List.suffix_cons _ _)
      exact (ih he).trans (ht.trans hs).isInfix

/-- The tokens inside brackets stand among the others. -/
theorem infix_of_enclosed? {toks inside : List Token} (h : enclosed? toks = some inside) : inside <:+: toks := by
  unfold enclosed? at h
  split at h
  · next hb =>
    obtain rfl := Option.some.inj h
    rw [← breakAtClose_append hb]
    exact (List.prefix_append _ _).isInfix
  · cases h

/-- The value of a property ends its element. -/
theorem suffix_of_propertyAt {element : List Token} {p : Property (Token × List Token)}
    (h : propertyAt element = some p) : p.value.1 :: p.value.2 <:+ element := by
  obtain ⟨key, colon, rfl, -, -⟩ := propertyAt_cases h
  exact (List.suffix_cons _ _).trans (List.suffix_append _ _)

/-- The string that the tokens are, or else the expression. -/
def stringOrExpression (source : String) (first : Token) (others : List Token) : Value :=
  if first.kind = .stringStart && (afterString 0 (first :: others)).any List.isEmpty then
    if others.any (·.kind = .holeStart) then .interpolated (Fragment.ofTokens source first others)
    else .string (Fragment.ofTokens source first others)
  else .expression (Fragment.ofTokens source first others)

/-- A single token is a number, a word, or a string or expression. -/
theorem scalar_single (source : String) (first : Token) :
    scalar source first [] =
      match first.kind with
      | .number => .number (Fragment.ofTokens source first []).raw
      | .multilineString => .string (Fragment.ofTokens source first [])
      | .identifier =>
        if first.text = "true" then .bool true
        else if first.text = "false" then .bool false
        else if first.text = "null" then .null
        else stringOrExpression source first []
      | _ => stringOrExpression source first [] := rfl

/-- Two tokens are a negative number, or a string or expression. -/
theorem scalar_pair (source : String) (first second : Token) :
    scalar source first [second] =
      if first.kind = .operator && first.text = "-" && second.kind = .number &&
        first.span.stop = second.span.start then .number (Fragment.ofTokens source first [second]).raw
      else stringOrExpression source first [second] := rfl

/-- Three tokens or more are a string or expression. -/
theorem scalar_longer (source : String) (first second third : Token) (others : List Token) :
    scalar source first (second :: third :: others) = stringOrExpression source first (second :: third :: others) := rfl

/-- The line of a property is that of its first token. -/
theorem exists_head_of_propertyAt {element : List Token} {p : Property (Token × List Token)}
    (h : propertyAt element = some p) : ∃ t ts, element = t :: ts ∧ p.line = t.line := by
  cases element with
  | nil => cases h
  | cons t ts =>
    refine ⟨t, ts, rfl, ?_⟩
    unfold propertyAt at h
    simp only at h
    split at h
    · split at h
      · rw [← Option.some.inj h]
      · cases h
    · cases h

/-- Strings and expressions are seen alike if their tokens are. -/
theorem seen_stringOrExpression {first : Token} {others : List Token}
    (h : SeenAlike aspect aspect' source source' g (first :: others)) :
    (stringOrExpression source' (g first) (others.map g)).seen aspect' =
      (stringOrExpression source first others).seen aspect := by
  have hfragment := h.fragment first others List.infix_rfl
  have hempty : (afterString 0 (g first :: others.map g)).any List.isEmpty =
      (afterString 0 (first :: others)).any List.isEmpty := by
    have hs := h.toResembles.afterString 0 (first :: others)
    rw [List.map_cons] at hs
    rw [hs]
    cases afterString 0 (first :: others) <;> simp
  have hhole : (others.map g).any (·.kind = .holeStart) = others.any (·.kind = .holeStart) := by
    simp [List.any_map, Function.comp_def, h.kind]
  unfold stringOrExpression
  rw [h.kind, hempty, hhole]
  split
  · split <;> simp [Value.seen, hfragment]
  · simp [Value.seen, hfragment]

/-- Values that are one literal or an expression are seen alike. -/
theorem seen_scalar {first : Token} {others : List Token}
    (h : SeenAlike aspect aspect' source source' g (first :: others)) :
    (scalar source' (g first) (others.map g)).seen aspect' = (scalar source first others).seen aspect := by
  have hfragment := h.fragment first others List.infix_rfl
  have hnumber := h.number first others List.infix_rfl
  have hother := seen_stringOrExpression h
  match others with
  | [] =>
    rw [List.map_nil, scalar_single, scalar_single, h.kind]
    rw [List.map_nil] at hfragment hnumber hother
    split
    · simp only [Value.seen, hnumber]
    · simp only [Value.seen, hfragment]
    · next hk =>
      rw [h.text_of_kind hk (by decide)]
      split
      · rfl
      · split
        · rfl
        · split
          · rfl
          · exact hother
    · exact hother
  | [second] =>
    have hsigned : (decide (first.kind = .operator) && decide ((g first).text = "-") && decide (second.kind = .number) &&
          decide ((g first).span.stop = (g second).span.start)) =
        (decide (first.kind = .operator) && decide (first.text = "-") && decide (second.kind = .number) &&
          decide (first.span.stop = second.span.start)) := by
      by_cases hk : first.kind = .operator
      · by_cases hn : second.kind = .number
        · simp only [h.text_of_kind hk (by decide), h.meets first second (by simp [hn]) List.infix_rfl]
        · simp [hn]
      · simp [hk]
    rw [List.map_cons, List.map_nil, scalar_pair, scalar_pair, h.kind, h.kind, hsigned]
    rw [List.map_cons, List.map_nil] at hfragment hnumber hother
    split
    · simp only [Value.seen, hnumber]
    · exact hother
  | second :: third :: others =>
    rw [List.map_cons, List.map_cons, scalar_longer, scalar_longer]
    exact hother

mutual

/-- Values are seen alike. -/
theorem seen_readValue (first : Token) (others : List Token)
    (h : SeenAlike aspect aspect' source source' g (first :: others)) :
    (readValue source' (g first) (others.map g)).seen aspect' = (readValue source first others).seen aspect := by
  have hword : (others.map g).head?.any (·.isWord "for") = others.head?.any (·.isWord "for") := by
    cases others with
    | nil => rfl
    | cons t ts => exact h.toResembles.isWord t "for"
  rw [readValue_eq, readValue_eq, h.kind, hword, h.toResembles.enclosed?]
  cases hinside : enclosed? others with
  | none =>
    simp only [Option.map_none]
    split
    · exact seen_scalar h
    · split <;> exact seen_scalar h
  | some inside =>
    have hw := weight_enclosed?_lt hinside
    have hi := h.mono ((infix_of_enclosed? hinside).trans (List.suffix_cons _ _).isInfix)
    have he := seen_readEntries (elements inside) fun e he => hi.mono (infix_of_mem_elements he)
    have ha := seen_readItems (elements inside) fun e he => hi.mono (infix_of_mem_elements he)
    simp only [Option.map_some, h.toResembles.elements]
    split
    · cases hs : readEntries source (elements inside) with
      | none =>
        rw [hs, Option.map_none, Option.map_eq_none_iff] at he
        rw [he]
        exact seen_scalar h
      | some entries =>
        rw [hs, Option.map_some, Option.map_eq_some_iff] at he
        obtain ⟨entries', he', heq⟩ := he
        rw [he']
        exact congrArg Value.object heq
    · split
      · exact congrArg Value.array ha
      · exact seen_scalar h
termination_by others.length + 1

/-- Properties are seen alike. -/
theorem seen_readEntries (es : List (List Token)) (h : ∀ e ∈ es, SeenAlike aspect aspect' source source' g e) :
    (readEntries source' (es.map (List.map g))).map (Value.seenEntries aspect') =
      (readEntries source es).map (Value.seenEntries aspect) := by
  match es with
  | [] =>
    rw [List.map_nil, readEntries, readEntries, Option.map_some, Option.map_some, Value.seenEntries, Value.seenEntries]
  | element :: rest =>
    have hrest := seen_readEntries rest fun e he => h e (List.mem_cons_of_mem _ he)
    have helement := h element List.mem_cons_self
    rw [List.map_cons, readEntries_cons, readEntries_cons, helement.toResembles.propertyAt]
    cases hq : propertyAt element with
    | none => rfl
    | some p =>
      have hlen := length_propertyAt_lt hq
      have hv := seen_readValue p.value.1 p.value.2 (helement.mono (suffix_of_propertyAt hq).isInfix)
      obtain ⟨t, ts, heq, hline⟩ := exists_head_of_propertyAt hq
      have hkey : aspect'.line (((element.map g).head?.map (·.line)).getD 0) = aspect.line p.line := by
        rw [hline, heq]
        exact helement.line t (heq ▸ List.mem_cons_self)
      simp only [Option.map_some]
      cases hs : readEntries source rest with
      | none =>
        rw [hs, Option.map_none, Option.map_eq_none_iff] at hrest
        rw [hrest]
        rfl
      | some entries =>
        rw [hs, Option.map_some, Option.map_eq_some_iff] at hrest
        obtain ⟨entries', hentries, hsame⟩ := hrest
        rw [hentries]
        simp only [Option.map_some, Value.seenEntries]
        rw [hsame, hv, hkey]
termination_by weight es
decreasing_by
  all_goals
    simp only [weight]
    omega

/-- Elements of an array are seen alike. -/
theorem seen_readItems (es : List (List Token)) (h : ∀ e ∈ es, SeenAlike aspect aspect' source source' g e) :
    Value.seenItems aspect' (readItems source' (es.map (List.map g))) = Value.seenItems aspect (readItems source es) := by
  match es with
  | [] => rw [List.map_nil, readItems, readItems, Value.seenItems, Value.seenItems]
  | [] :: rest =>
    rw [List.map_cons, List.map_nil, readItems, readItems]
    exact seen_readItems rest fun e he => h e (List.mem_cons_of_mem _ he)
  | (first :: others) :: rest =>
    rw [List.map_cons, List.map_cons, readItems, readItems]
    simp only [Value.seenItems]
    rw [seen_readItems rest fun e he => h e (List.mem_cons_of_mem _ he)]
    exact congrArg (· :: _) (seen_readValue first others (h _ List.mem_cons_self))
termination_by weight es
decreasing_by
  all_goals
    simp only [weight, List.length_cons]
    omega

end

end BicepMigration.Template
