import BicepMigration.Proofs.Template.Holding
import BicepMigration.Template.Rendering

/-!
# Rendered text as lexemes

What is written for a value is the text of lexemes, line by line, if its fragments and numbers are. They can be read
again wherever an element can stand. So can the lines of a module call, from its decorators to the closing brace of
its body. Whether the same value is read again is not spoken about here.
-/

namespace BicepMigration.Template

/-- The lexemes that are written for fragments and for numbers. -/
structure Leaves where
  /-- The lexemes of a fragment. -/
  fragment : Fragment → List Lexeme
  /-- The lexemes of a number. -/
  number : String → List Lexeme

/-- The white space before a line of a level. -/
def indent (depth : Nat) : List Char := List.replicate (2 * depth) ' '

/-- A newline as a lexeme. -/
def newlineLexeme : Lexeme := ⟨[], .newline, ['\n']⟩

/-- A string literal without holes, from the text between its quotes. -/
def quoteLexemes (inner : List Char) : List Lexeme :=
  ⟨[], .stringStart, ['\'']⟩ ::
    ((if inner = [] then [] else [⟨[], .stringText, inner⟩]) ++ [⟨[], .stringEnd, ['\'']⟩])

/-- The lexemes of a key. -/
def keyLexemes (key : String) (quoted : Bool) : List Lexeme :=
  if quoted then quoteLexemes (escapeText key.toList) else [nameLexeme key]

namespace Leaves

mutual

/-- The lexemes of a value whose line is indented to a level. -/
def value (leaves : Leaves) (depth : Nat) : Value → List Lexeme
  | .string f => leaves.fragment f
  | .interpolated f => leaves.fragment f
  | .expression f => leaves.fragment f
  | .number text => leaves.number text
  | .bool value => [nameLexeme (if value then "true" else "false")]
  | .null => [nameLexeme "null"]
  | .object [] => [⟨[], .braceOpen, ['{']⟩, ⟨[], .braceClose, ['}']⟩]
  | .object (p :: rest) =>
    ⟨[], .braceOpen, ['{']⟩ :: (newlineLexeme :: leaves.entries (depth + 1) (p :: rest) ++
      [⟨indent depth, .braceClose, ['}']⟩])
  | .array [] => [⟨[], .bracketOpen, ['[']⟩, ⟨[], .bracketClose, [']']⟩]
  | .array (item :: rest) =>
    ⟨[], .bracketOpen, ['[']⟩ :: (newlineLexeme :: leaves.items (depth + 1) (item :: rest) ++
      [⟨indent depth, .bracketClose, [']']⟩])

/-- The lexemes of properties, a line each. -/
def entries (leaves : Leaves) (depth : Nat) : List (Property Value) → List Lexeme
  | [] => []
  | ⟨key, quoted, value, _⟩ :: rest =>
    regap (indent depth) (keyLexemes key quoted) ++ ⟨[], .colon, [':']⟩ ::
      (regap [' '] (leaves.value depth value) ++ newlineLexeme :: leaves.entries depth rest)

/-- The lexemes of elements, a line each. -/
def items (leaves : Leaves) (depth : Nat) : List Value → List Lexeme
  | [] => []
  | item :: rest =>
    regap (indent depth) (leaves.value depth item) ++ newlineLexeme :: leaves.items depth rest

end

end Leaves

/-- Lexemes are elements with the text that is written for a leaf. -/
def IsLeaf (text : String) (ls : List Lexeme) : Prop := Element ls ∧ text.toList = bare ls

/-- The leaves of a value are written as elements. -/
abbrev Leaves.Show (leaves : Leaves) (edited : EditedText) (value : Value) : Prop :=
  value.Holds (fun f => IsLeaf (edited.fragment f) (leaves.fragment f)) fun text => IsLeaf text (leaves.number text)

/-- Text without a hole, a quote, a newline or a lone backslash can be written in quotes, before anything but a quote. -/
theorem legible_quoteLexemes {inner rest : List Char} (h : inner = [] ∨ IsSpelled .stringText inner)
    (hrest : rest.head? ≠ some '\'') : Legible (quoteLexemes inner) rest := by
  rcases h with rfl | hs
  · refine ⟨.nil, ⟨rfl, fun h => by cases h⟩, ?_, .nil, ⟨rfl, fun _ => rfl⟩, trivial, trivial⟩
    cases rest with
    | nil => simp [EndsAt]
    | cons c rest => simpa [EndsAt] using hrest
  · obtain ⟨c, text, rfl⟩ := List.exists_cons_of_ne_nil hs.1
    have hc : c ≠ '\'' := by
      rintro rfl
      obtain ⟨-, hs⟩ := hs
      cases text <;> simp [splitString] at hs
    have hq : quoteLexemes (c :: text) =
        [⟨[], .stringStart, ['\'']⟩, ⟨[], .stringText, c :: text⟩, ⟨[], .stringEnd, ['\'']⟩] := by
      simp [quoteLexemes]
    rw [hq]
    refine ⟨.nil, ⟨rfl, fun h => by cases h⟩, ?_, .nil, ⟨hs, fun _ => rfl⟩, trivial, .nil, ⟨rfl, fun _ => rfl⟩, trivial,
      trivial⟩
    simp [EndsAt, hc]

/-- A quoted text has its quotes, and its text if it is not empty. -/
theorem kinds_quoteLexemes (inner : List Char) : (quoteLexemes inner).map (·.kind) = [.stringStart, .stringEnd] ∨
    (quoteLexemes inner).map (·.kind) = [.stringStart, .stringText, .stringEnd] := by
  unfold quoteLexemes
  split
  · exact .inl rfl
  · exact .inr rfl

/-- A quoted text is an element. -/
theorem element_quote {inner : List Char} (h : inner = [] ∨ IsSpelled .stringText inner) :
    Element (quoteLexemes inner) := by
  refine ⟨⟨by simp [quoteLexemes], ?_, legible_quoteLexemes h (by simp)⟩, ?_⟩
  all_goals rcases kinds_quoteLexemes inner with hk | hk <;> rw [hk]
  · rfl
  · rfl
  · simp [Unbroken, TokenKind.separates]
  · simp [Unbroken, TokenKind.separates]

/-- A quoted text is written between quotes. -/
theorem bare_quoteLexemes (inner : List Char) : bare (quoteLexemes inner) = '\'' :: (inner ++ ['\'']) := by
  unfold quoteLexemes
  split
  · next hi => simp [hi]
  · simp

/-- An encoded text ends at the quote after it. -/
theorem splitString_escapeText (cs rest : List Char) :
    splitString (escapeText cs ++ '\'' :: rest) = some (escapeText cs, '\'' :: rest) := by
  induction cs with
  | nil => cases rest <;> simp [escapeText, splitString]
  | cons c cs ih =>
    have he : escapeText (c :: cs) = escapeChar c ++ escapeText cs := List.flatMap_cons
    rw [he, List.append_assoc]
    generalize escapeText cs = text at ih ⊢
    unfold escapeChar
    split
    · next hc =>
      have hn : c ≠ '\n' := by
        rintro rfl
        simp at hc
      simp [splitString, hn, ih]
    · next hc =>
      split
      · simp [splitString, ih]
      · next hn =>
        simp only [Bool.or_eq_true, decide_eq_true_eq, not_or] at hc
        obtain ⟨⟨hslash, hquote⟩, hdollar⟩ := hc
        cases text with
        | nil => simp [splitString, hn, hslash, hquote, hdollar] at ih ⊢; exact ih
        | cons d text =>
          simp only [List.cons_append, List.nil_append] at ih ⊢
          simp [splitString, hn, hslash, hquote, hdollar, ih]

/-- Text that is escaped is spelled as the text of a string. -/
theorem isSpelled_escapeText {cs : List Char} (h : cs ≠ []) : IsSpelled .stringText (escapeText cs) := by
  refine ⟨?_, splitString_escapeText cs []⟩
  obtain ⟨c, cs, rfl⟩ := List.exists_cons_of_ne_nil h
  have he : escapeText (c :: cs) = escapeChar c ++ escapeText cs := List.flatMap_cons
  rw [he]
  unfold escapeChar
  repeat' split
  all_goals simp

/-- The same, or there is no text. -/
theorem escapeText_spelled (cs : List Char) : escapeText cs = [] ∨ IsSpelled .stringText (escapeText cs) := by
  cases cs with
  | nil => exact .inl rfl
  | cons c cs => exact .inr (isSpelled_escapeText (List.cons_ne_nil c cs))

/-- A quoted text is written as a string. -/
theorem isLeaf_quote (text : String) : IsLeaf (quote text) (quoteLexemes (escapeText text.toList)) := by
  refine ⟨element_quote (escapeText_spelled _), ?_⟩
  rw [bare_quoteLexemes, quote, String.toList_ofList]
  rfl

/-- A key is written as its lexemes. -/
theorem isLeaf_key {key : String} {quoted : Bool} (h : quoted = false → IsName key) :
    IsLeaf (renderKey key quoted) (keyLexemes key quoted) := by
  cases quoted with
  | true => exact isLeaf_quote key
  | false => exact ⟨element_name (h rfl), by simp [renderKey, keyLexemes, nameLexeme]⟩

/-- A lexeme of one character that ends before anything. -/
theorem legible_cons {l : Lexeme} {ls : List Lexeme} {rest : List Char} (hg : IsGap l.gap (l.text ++ (written ls ++ rest)))
    (hs : IsSpelled l.kind l.text) (hi : l.kind.insideString = false)
    (he : EndsAt l.kind l.text (written ls ++ rest)) (hl : Legible ls rest) : Legible (l :: ls) rest :=
  ⟨hg, ⟨hs, fun h => by rw [hi] at h; cases h⟩, he, hl⟩

/-- The colon is spelled so. -/
theorem isSpelled_colon : IsSpelled .colon [':'] :=
  ⟨':', by simp [IsMarkChar]; decide, .inl ⟨rfl, rfl⟩⟩

/-- Lines that can be written in brackets, with the text that is written for them. -/
structure IsLines (text : String) (ls : List Lexeme) : Prop where
  balanced : Balanced (ls.map (·.kind))
  legible : ∀ rest, Legible ls rest
  text : text.toList = written ls

/-- No lines are written as nothing. -/
theorem IsLines.nil : IsLines "" [] := ⟨rfl, fun _ => trivial, rfl⟩

/-- A newline is balanced. -/
theorem balanced_newline : Balanced [TokenKind.newline] := rfl

/-- The indentation as characters. -/
theorem indentation_toList (depth : Nat) : (indentation depth).toList = indent depth := String.toList_ofList

/-- An element on a line of its own goes before other lines. -/
theorem IsLines.item {depth : Nat} {text others : String} {ls rest : List Lexeme} (h : IsLeaf text ls)
    (hrest : IsLines others rest) :
    IsLines (indentation depth ++ text ++ "\n" ++ others) (regap (indent depth) ls ++ newlineLexeme :: rest) := by
  obtain ⟨he, htext⟩ := h
  obtain ⟨hb, hl, hothers⟩ := hrest
  refine ⟨?_, fun tail => legible_append.2 ⟨?_, ?_⟩, ?_⟩
  · rw [List.map_append, map_kind_regap, List.map_cons]
    exact he.balanced.append (balanced_newline.append hb)
  · exact he.legible_regap _ rfl _
  · exact legible_cons .nil rfl rfl trivial (hl tail)
  · rw [written_append, written_regap _ he.ne_nil, String.toList_append, String.toList_append,
      String.toList_append, indentation_toList, htext, hothers]
    simp [newlineLexeme]

/-- A key and its value on a line go before other lines. -/
theorem IsLines.entry {depth : Nat} {key value others : String} {ks vs rest : List Lexeme} (hk : IsLeaf key ks)
    (hv : IsLeaf value vs) (hrest : IsLines others rest) :
    IsLines (indentation depth ++ key ++ ": " ++ value ++ "\n" ++ others)
      (regap (indent depth) ks ++ ⟨[], .colon, [':']⟩ :: (regap [' '] vs ++ newlineLexeme :: rest)) := by
  obtain ⟨hke, hktext⟩ := hk
  obtain ⟨hve, hvtext⟩ := hv
  obtain ⟨hb, hl, hothers⟩ := hrest
  refine ⟨?_, fun tail => legible_append.2 ⟨?_, ?_⟩, ?_⟩
  · rw [List.map_append, map_kind_regap, List.map_cons, List.map_append, map_kind_regap, List.map_cons]
    refine hke.balanced.append (Balanced.append (a := [.colon]) rfl ?_)
    exact hve.balanced.append (balanced_newline.append hb)
  · exact hke.legible_regap _ rfl _
  · refine legible_cons .nil isSpelled_colon rfl ?_ (legible_append.2 ⟨?_, ?_⟩)
    · rw [written_append, written_regap _ hve.ne_nil]
      exact endsAt_of_isStop (c := ' ') isSpelled_colon rfl
    · exact hve.legible_regap 1 rfl _
    · exact legible_cons .nil rfl rfl trivial (hl tail)
  · rw [written_append, written_regap _ hke.ne_nil, written_cons, written_append, written_regap _ hve.ne_nil]
    simp only [String.toList_append, indentation_toList, hktext, hvtext, hothers]
    simp [newlineLexeme]

/-- Lines in brackets make an element. -/
theorem IsLines.enclose {depth : Nat} {text : String} {ls : List Lexeme} (h : IsLines text ls) {bracket : Bracket}
    {first last : TokenKind} {opening closing : Char} (ho : IsSpelled first [opening])
    (hc : IsSpelled last [closing]) (hf : Nest.top.after first = some ⟨.code, [bracket]⟩)
    (hl : Nest.after ⟨.code, [bracket]⟩ last = some .top) (hs : first.separates = false)
    (hfi : first.insideString = false) (hli : last.insideString = false)
    (hfe : ∀ rest, EndsAt first [opening] rest) (hle : ∀ rest, EndsAt last [closing] rest) :
    Element (⟨[], first, [opening]⟩ :: (newlineLexeme :: ls ++ [⟨indent depth, last, [closing]⟩])) ∧
      bare (⟨[], first, [opening]⟩ :: (newlineLexeme :: ls ++ [⟨indent depth, last, [closing]⟩])) =
        opening :: '\n' :: (text.toList ++ (indent depth ++ [closing])) := by
  have helement : IsElement ((⟨[], first, [opening]⟩ :: (newlineLexeme :: ls ++
      [⟨indent depth, last, [closing]⟩]) : List Lexeme).map (·.kind)) := by
    rw [List.map_cons, List.map_append, List.map_cons, List.map_cons, List.map_nil]
    exact .enclose hf (balanced_newline.append h.balanced) hl hs
  refine ⟨⟨⟨by simp, helement.balanced, ?_⟩, helement.unbroken⟩, ?_⟩
  · refine legible_cons .nil ho hfi (hfe _) (legible_cons .nil rfl rfl trivial (legible_append.2 ⟨h.legible _, ?_⟩))
    exact legible_cons (isGap_replicate _ _) hc hli (hle _) trivial
  · simp [newlineLexeme, h.text]

/-- What is written for properties is lines. -/
theorem isLines_entries {leaves : Leaves} {edited : EditedText} {depth : Nat} {ps : List (Property Value)}
    (hk : ∀ p ∈ ps, p.quoted = false → IsName p.key)
    (hv : ∀ p ∈ ps, ∀ depth, IsLeaf (renderValue edited depth p.value) (leaves.value depth p.value)) :
    IsLines (renderEntries edited depth ps) (leaves.entries depth ps) := by
  induction ps with
  | nil =>
    rw [renderEntries, Leaves.entries]
    exact .nil
  | cons p ps ih =>
    obtain ⟨key, quoted, value, line⟩ := p
    rw [renderEntries, Leaves.entries]
    exact .entry (isLeaf_key (hk ⟨key, quoted, value, line⟩ (by simp))) (hv ⟨key, quoted, value, line⟩ (by simp) depth)
      (ih (fun q hq => hk q (List.mem_cons_of_mem _ hq)) fun q hq => hv q (List.mem_cons_of_mem _ hq))

/-- What is written for elements is lines. -/
theorem isLines_items {leaves : Leaves} {edited : EditedText} {depth : Nat} {vs : List Value}
    (hv : ∀ v ∈ vs, ∀ depth, IsLeaf (renderValue edited depth v) (leaves.value depth v)) :
    IsLines (renderItems edited depth vs) (leaves.items depth vs) := by
  induction vs with
  | nil =>
    rw [renderItems, Leaves.items]
    exact .nil
  | cons v vs ih =>
    rw [renderItems, Leaves.items]
    exact .item (hv v (by simp) depth) (ih fun w hw => hv w (List.mem_cons_of_mem _ hw))

/-- A word of such characters is a name. -/
theorem isName_word {c : Char} {cs : List Char} {word : String} (hw : word.toList = c :: cs)
    (hc : isNameStart c = true) (hcs : cs.all isNamePart = true) : IsName word :=
  ⟨c, cs, hw, hc, List.all_eq_true.1 hcs⟩

/-- What is written for a value is an element. -/
theorem isLeaf_value {leaves : Leaves} {edited : EditedText} {v : Value} (h : leaves.Show edited v) (depth : Nat) :
    IsLeaf (renderValue edited depth v) (leaves.value depth v) := by
  induction h generalizing depth with
  | string h | interpolated h | expression h | number h =>
    rw [renderValue, Leaves.value]
    exact h
  | bool value =>
    rw [renderValue, Leaves.value]
    cases value with
    | true => exact ⟨element_name (isName_word rfl rfl (by decide)), by simp [nameLexeme]⟩
    | false => exact ⟨element_name (isName_word rfl rfl (by decide)), by simp [nameLexeme]⟩
  | null =>
    rw [renderValue, Leaves.value]
    exact ⟨element_name (isName_word rfl rfl (by decide)), by simp [nameLexeme]⟩
  | @object entries hk _ ih =>
    cases entries with
    | nil =>
      rw [renderValue, Leaves.value]
      refine ⟨⟨⟨by simp, rfl, ?_⟩, ((@IsElement.enclose _ _ []) rfl rfl rfl rfl).unbroken⟩, by simp⟩
      exact legible_cons .nil rfl rfl trivial (legible_cons .nil rfl rfl trivial trivial)
    | cons p rest =>
      rw [renderValue, Leaves.value]
      obtain ⟨he, htext⟩ := @IsLines.enclose depth _ _ (@isLines_entries _ _ (depth + 1) _ hk ih)
        .brace .braceOpen .braceClose '{' '}' rfl rfl rfl rfl rfl rfl rfl
        (fun _ => trivial) fun _ => trivial
      refine ⟨he, ?_⟩
      rw [htext]
      simp [indentation_toList]
  | @array items _ ih =>
    cases items with
    | nil =>
      rw [renderValue, Leaves.value]
      refine ⟨⟨⟨by simp, rfl, ?_⟩, ((@IsElement.enclose _ _ []) rfl rfl rfl rfl).unbroken⟩, by simp⟩
      exact legible_cons .nil rfl rfl trivial (legible_cons .nil rfl rfl trivial trivial)
    | cons item rest =>
      rw [renderValue, Leaves.value]
      obtain ⟨he, htext⟩ := @IsLines.enclose depth _ _ (@isLines_items _ _ (depth + 1) _ ih)
        .square .bracketOpen .bracketClose '[' ']' rfl rfl rfl rfl rfl rfl rfl
        (fun _ => trivial) fun _ => trivial
      refine ⟨he, ?_⟩
      rw [htext]
      simp [indentation_toList]

end BicepMigration.Template
