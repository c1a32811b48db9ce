import BicepMigration.Template.Literal
import BicepMigration.Template.Token

/-!
# Reading property trees

The tokens between two brackets are cut into elements at the separators that stand outside further
brackets. An element of an object must be a key, a colon and a value; an element of an array is a value.
Brackets that hold anything else, or that do not make up the whole value, are not an object or an array:
the value is then an expression and its text is kept. Main statement: the elements hold no more tokens than
they were cut from, so reading ends.
-/

namespace BicepMigration.Template

open Text

/-- The text from the first to the last of some tokens, which are given as the first and the others. -/
def Fragment.ofTokens (source : String) (first : Token) (others : List Token) : Fragment :=
  let span : Span := ⟨first.span.start, (others.getLast?.getD first).span.stop⟩
  ⟨slice source span, some span⟩

/-- From the first token of a class on there are at most as many tokens as altogether. -/
theorem length_breakOutside_le (stop : TokenKind → Bool) (depth : Nat) (ts : List Token) :
    (breakOutside stop depth ts).2.length ≤ ts.length := by
  have := length_breakOutside stop depth ts
  omega

/-- After separators and one token fewer tokens are left. -/
theorem length_afterSeparators {toks ts : List Token} {t : Token}
    (h : toks.dropWhile (·.kind.separates) = t :: ts) : ts.length < toks.length := by
  have hl : (toks.dropWhile (·.kind.separates)).length ≤ toks.length := (List.dropWhile_sublist _).length_le
  rw [h] at hl
  exact hl

/-- The elements between two brackets: the runs of tokens between separators outside further brackets. -/
def elements (toks : List Token) : List (List Token) :=
  match h : toks.dropWhile (·.kind.separates) with
  | [] => []
  | t :: ts =>
    have := length_afterSeparators h
    have := length_breakOutside_le TokenKind.separates (t.kind.depthAfter 0) ts
    let parts := breakOutside TokenKind.separates (t.kind.depthAfter 0) ts
    (t :: parts.1) :: elements parts.2
termination_by toks.length

/-- Number of tokens in elements, and one more for each element. -/
def weight : List (List Token) → Nat
  | [] => 0
  | element :: others => element.length + 1 + weight others

/-- The weight of elements is at most one more than the number of tokens from the first one that does not separate. -/
theorem weight_elements_le_dropWhile (toks : List Token) :
    weight (elements toks) ≤ (toks.dropWhile (·.kind.separates)).length + 1 := by
  fun_induction elements toks with
  | case1 => simp [weight]
  | case2 toks t ts h _ _ parts ih =>
    have hp : parts.1.length + parts.2.length = ts.length := length_breakOutside ..
    have hs : ∀ u us, parts.2 = u :: us → u.kind.separates := fun _ _ => stop_of_breakOutside
    clear_value parts
    obtain ⟨inside, rest⟩ := parts
    simp only [weight, List.length_cons] at ih hp ⊢
    rw [h]
    rcases rest with _ | ⟨u, us⟩
    · have he : elements [] = [] := by unfold elements; simp
      simp only [he, weight, Nat.add_zero, List.length_nil, List.length_cons] at hp ⊢
      omega
    · have hd : (us.dropWhile (·.kind.separates)).length ≤ us.length := (List.dropWhile_sublist _).length_le
      rw [List.dropWhile_cons, if_pos (hs u us rfl)] at ih
      simp only [List.length_cons] at hp ⊢
      omega

/-- The weight of elements is at most one more than the number of tokens. -/
theorem weight_elements_le (toks : List Token) : weight (elements toks) ≤ toks.length + 1 := by
  have h : (toks.dropWhile (·.kind.separates)).length ≤ toks.length := (List.dropWhile_sublist _).length_le
  have := weight_elements_le_dropWhile toks
  omega

/-- The content of the single-line string without holes at the start, and the tokens after it. -/
def literalAt : List Token → Option (String × List Token)
  | opening :: middle :: rest =>
    if opening.kind = .stringStart then
      if middle.kind = .stringEnd then some ("", rest)
      else if middle.kind = .stringText then
        match rest with
        | closing :: rest =>
          if closing.kind = .stringEnd then
            (unescape middle.text.toList).map fun text => (String.ofList text, rest)
          else none
        | [] => none
      else none
    else none
  | _ => none

/-- The tokens after the string that starts first. The count is the number of strings that stand open. -/
def afterString : Nat → List Token → Option (List Token)
  | _, [] => none
  | depth, t :: ts =>
    if t.kind = .stringStart then afterString (depth + 1) ts
    else if t.kind = .stringEnd then if depth ≤ 1 then some ts else afterString (depth - 1) ts
    else afterString depth ts

/-- A value that is one literal or an expression, from its first token and the others. -/
def scalar (source : String) (first : Token) (others : List Token) : Value :=
  let fragment := Fragment.ofTokens source first others
  let general : Value :=
    if first.kind = .stringStart && (afterString 0 (first :: others)).any List.isEmpty then
      if others.any (·.kind = .holeStart) then .interpolated fragment else .string fragment
    else .expression fragment
  match others with
  | [] =>
    match first.kind with
    | .number => .number fragment.raw
    | .multilineString => .string fragment
    | .identifier =>
      if first.text = "true" then .bool true
      else if first.text = "false" then .bool false
      else if first.text = "null" then .null
      else general
    | _ => general
  | [second] =>
    if first.kind = .operator && first.text = "-" && second.kind = .number &&
        first.span.stop = second.span.start then .number fragment.raw
    else general
  | _ => general

/-- Reading a string takes tokens. -/
theorem length_literalAt_lt {toks rest : List Token} {text : String}
    (h : literalAt toks = some (text, rest)) : rest.length < toks.length := by
  unfold literalAt at h
  repeat' split at h
  all_goals simp only [Option.some.injEq, Prod.mk.injEq, Option.map_eq_some_iff, reduceCtorEq] at h
  · obtain ⟨-, rfl⟩ := h
    simp only [List.length_cons]
    omega
  · obtain ⟨_, -, -, rfl⟩ := h
    simp only [List.length_cons]
    omega

/-- An element of an object with its value as a first token and the others. -/
def propertyAt (element : List Token) : Option (Property (Token × List Token)) :=
  match element with
  | [] => none
  | t :: ts =>
    let key := if t.kind = .identifier then some (t.text, ts) else literalAt (t :: ts)
    match key with
    | some (key, colon :: first :: others) =>
      if colon.kind = .colon then some ⟨key, t.kind ≠ .identifier, (first, others), t.line⟩ else none
    | _ => none

/-- The value of a property has fewer tokens than the property. -/
theorem length_propertyAt_lt {element : List Token} {p : Property (Token × List Token)}
    (h : propertyAt element = some p) : p.value.2.length + 1 < element.length := by
  unfold propertyAt at h
  split at h
  · simp at h
  · next t ts =>
    simp only at h
    split at h
    · next key colon first others hk =>
      have hl : (colon :: first :: others).length ≤ ts.length := by
        split at hk
        · simp only [Option.some.injEq, Prod.mk.injEq] at hk
          exact Nat.le_of_eq (congrArg List.length hk.2.symm)
        · have := length_literalAt_lt hk
          simp only [List.length_cons] at this ⊢
          omega
      split at h
      · simp only [Option.some.injEq] at h
        subst h
        simp only [List.length_cons] at hl ⊢
        omega
      · simp at h
    · simp at h

/-- The tokens between brackets that make up all the tokens. -/
def enclosed? (toks : List Token) : Option (List Token) :=
  match breakAtClose 0 toks with
  | some (inside, _, []) => some inside
  | _ => none

/-- The weight of the elements inside brackets is at most the number of all tokens. -/
theorem weight_enclosed?_lt {toks inside : List Token} (h : enclosed? toks = some inside) :
    weight (elements inside) ≤ toks.length := by
  unfold enclosed? at h
  split at h
  · next found _ hb =>
    simp only [Option.some.injEq] at h
    subst h
    have := weight_elements_le found
    have := congrArg List.length (breakAtClose_append hb)
    simp only [List.length_append, List.length_cons, List.length_nil] at this
    omega
  · simp at h

mutual

/-- Reads the value that is made up of a first token and the others. -/
def readValue (source : String) (first : Token) (others : List Token) : Value :=
  if first.kind = .braceOpen then
    match h : enclosed? others with
    | none => scalar source first others
    | some inside =>
      have := weight_enclosed?_lt h
      match readEntries source (elements inside) with
      | none => scalar source first others
      | some entries => .object entries
  else if first.kind = .bracketOpen && !(others.head?.any (·.isWord "for")) then
    match h : enclosed? others with
    | none => scalar source first others
    | some inside =>
      have := weight_enclosed?_lt h
      .array (readItems source (elements inside))
  else scalar source first others
termination_by others.length + 1

/-- Reads elements as properties. Nothing if one of them is none. -/
def readEntries (source : String) : List (List Token) → Option (List (Property Value))
  | [] => some []
  | element :: rest =>
    match h : propertyAt element with
    | none => none
    | some p =>
      have := length_propertyAt_lt h
      let value := readValue source p.value.1 p.value.2
      (readEntries source rest).map (⟨p.key, p.quoted, value, p.line⟩ :: ·)
termination_by elems => weight elems
decreasing_by
  all_goals
    simp only [weight]
    omega

/-- Reads elements as values. -/
def readItems (source : String) : List (List Token) → List Value
  | [] => []
  | [] :: rest => readItems source rest
  | (first :: others) :: rest => readValue source first others :: readItems source rest
termination_by elems => weight elems
decreasing_by
  all_goals
    simp only [weight, List.length_cons]
    omega

end

end BicepMigration.Template
