import BicepMigration.Proofs.Template.Parted
import BicepMigration.Proofs.Template.ReadBack

/-!
# Quoted texts are read back

A quoted text is one string for the reader of tokens: the quotes, and between them the encoded text, which holds no
quote, no hole and no newline that the reader would see. Main statement: the tokens of a quoted text go from its start to
its end, and both ways of decoding a literal, from the text and from the tokens, give back what was quoted.
-/

namespace BicepMigration.Template

open Text

/-- The spans of the tokens go from one offset to another, each one from where the one before it ends. -/
inductive Tiles : Nat → List Token → Nat → Prop where
  | nil (n : Nat) : Tiles n [] n
  | cons {t : Token} {ts : List Token} {stop : Nat} : Tiles t.span.stop ts stop → Tiles t.span.start (t :: ts) stop

/-- Lexemes with nothing between them make tokens with nothing between them. -/
theorem tiles_tokensAt {ls : List Lexeme} (h : ∀ l ∈ ls, l.gap = []) (here : Cursor) :
    Tiles here.offset (tokensAt here ls) (here.advance (written ls)).offset := by
  induction ls generalizing here with
  | nil => exact .nil _
  | cons l ls ih =>
    obtain ⟨hgap, hrest⟩ := List.forall_mem_cons.1 h
    have hrest := ih hrest (here.advance l.text)
    rw [Cursor.advance_offset here] at hrest
    rw [tokensAt, written_cons, hgap, List.nil_append, List.nil_append, Cursor.advance_append]
    exact (@Tiles.cons (Token.ofChars l.kind here l.text)) hrest

/-- A quoted text is written without gaps. -/
theorem gap_quoteLexemes (inner : List Char) : ∀ l ∈ quoteLexemes inner, l.gap = [] := by
  intro l hl
  unfold quoteLexemes at hl
  split at hl
  · obtain rfl | rfl : l = _ ∨ l = _ := by simpa using hl
    all_goals rfl
  · obtain rfl | rfl | rfl : l = _ ∨ l = _ ∨ l = _ := by simpa using hl
    all_goals rfl

/-- A quoted text as characters. -/
theorem toList_quote (text : String) : (quote text).toList = '\'' :: (escapeText text.toList ++ ['\'']) :=
  (isLeaf_quote text).2.trans (bare_quoteLexemes _)

/-- A quoted text is read as the quotes and the text between them. -/
theorem tokenize_quote (text : String) :
    tokenize (quote text) = .ok (tokensAt .origin (quoteLexemes (escapeText text.toList))) := by
  obtain ⟨⟨⟨-, hbalanced, -⟩, -⟩, hbare⟩ := isLeaf_quote text
  have hinitial : LexState.initial (quote text).toList = ⟨.code, .origin, [], (quote text).toList⟩ := by
    rw [toList_quote]
    rfl
  rw [tokenize, hinitial]
  refine tokens_of_legible (legible_quoteLexemes (escapeText_spelled _) (by simp)) .nil hbalanced ?_
  rw [hbare, List.append_nil]
  rfl

/-- An encoded text does not start with a quote. -/
theorem head?_escapeText (cs : List Char) : (escapeText cs).head? ≠ some '\'' := by
  cases cs with
  | nil => simp [escapeText]
  | cons c cs =>
    rw [escapeText, List.flatMap_cons]
    unfold escapeChar
    split
    · simp
    · split
      · simp
      · next h _ =>
        intro hc
        simp_all

/-- A quoted text is no string between triple quotes. -/
theorem between?_triple_quote (text : String) : between? ['\'', '\'', '\''] (quote text).toList = none := by
  have hhead := head?_escapeText text.toList
  rw [toList_quote, between?, if_neg]
  cases h : escapeText text.toList with
  | nil => simp [List.isPrefixOf]
  | cons c cs =>
    rw [h] at hhead
    simp only [List.cons_append, List.isPrefixOf, Bool.and_eq_true, beq_iff_eq, not_and]
    intro _ hc
    exact absurd (by rw [hc]; rfl) hhead

/-- The content of a quoted text is the text. -/
theorem stringContent?_quote (text : String) : stringContent? (quote text) = some text := by
  have hbetween : between? ['\''] (quote text).toList = some (escapeText text.toList) := by
    rw [toList_quote, between?, if_pos (by simp [List.isPrefixOf])]
    simp
  rw [stringContent?, between?_triple_quote, hbetween, Option.bind_some, unescape_escapeText, Option.map_some,
    String.ofList_toList]

/-- A quoted text is read as one literal that takes it whole, and it is decoded to what was quoted. -/
theorem quote_reads_back (text : String) :
    (∃ toks, tokenize (quote text) = .ok toks ∧
      (kinds toks = [.stringStart, .stringEnd] ∨ kinds toks = [.stringStart, .stringText, .stringEnd]) ∧
      Tiles 0 toks (quote text).utf8ByteSize ∧ ∀ rest, literalAt (toks ++ rest) = some (text, rest)) ∧
    stringContent? (quote text) = some text := by
  refine ⟨⟨_, tokenize_quote text, ?_, ?_, fun rest => ?_⟩, stringContent?_quote text⟩
  · rw [kinds_tokensAt]
    exact kinds_quoteLexemes _
  · have hsize : (Cursor.origin.advance (written (quoteLexemes (escapeText text.toList)))).offset =
        (quote text).utf8ByteSize := by
      rw [Cursor.advance_offset, ← byteLength_toList, (isLeaf_quote text).2]
      exact Nat.zero_add _
    rw [← hsize]
    exact tiles_tokensAt (gap_quoteLexemes _) .origin
  · have hliteral := isLiteral_quoteLexemes (unescape_escapeText text.toList) [] .origin
    rw [String.ofList_toList] at hliteral
    exact hliteral.literalAt rest

/-- Quotes, a hole, a backslash and a newline are all hidden. -/
example : quote "''$\x7b\\\n" = "'\\'\\'\\$\x7b\\\\\\n'" := by decide

end BicepMigration.Template
